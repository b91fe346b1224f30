import DiceNotation.Proofs.Scanning.Patterns
import DiceNotation.Proofs.Scanning.Spans

/-!
# DiceNotation.Proofs.Scanning

The tokens of a text are its runs. Splitting a text is one pass over its characters that asks only
whether neighbours belong together; it comes to the same as matching patterns one after the other,
each time the longest match there is (`Tokenizes`).

* `Token.Describes`: what a token says of a run, and where it puts it;
* `Lexeme.Stands.ofRun?_iff`: the token of a run describes it, and no other token does;
* `tokenizes_iff`: the tokens of a text by longest matches;
* `mem_tokensFrom`: the tokens of a text by its runs;
* `Expression.Splits`, `Expression.scan_splits`: both, with the bytes that tokens cover.
-/

namespace DiceNotation

/-! ## Tokens of runs -/

/-- What a run of a kind says. -/
def Lexeme.Says (k : Lexeme) (run : List Char) (value : TokenValue) (error : Option TokenError) :
    Prop :=
  match k with
  | .number => Spells run value error
  | .operator => ∃ op : Operator, run = [op.toChar] ∧ value = .operator op ∧ error = none
  | .unrecognized => value = .text (String.ofList run) ∧ error = some .unrecognized
  | .blank => False

/-- A token that is as it was read from a run, which stands after others. -/
structure Token.Describes (t : Token) (k : Lexeme) (before run : List Char) : Prop where
  span : t.span = spanOf before run
  content : k.Says run t.value t.error
  kind : t.kind = t.value.kind
  roll : t.roll = none
  rollResult : t.rollResult = none

theorem Token.eq_iff (t : Token) (value : TokenValue) (span : Span) (error : Option TokenError) :
    ({ value, span, error } : Token) = t ↔
      t.span = span ∧ (t.value = value ∧ t.error = error) ∧ t.kind = t.value.kind ∧ t.roll = none ∧
        t.rollResult = none := by
  obtain ⟨value', span', kind', error', roll', rollResult'⟩ := t
  simp only [Token.mk.injEq]
  constructor
  · rintro ⟨rfl, rfl, rfl, rfl, rfl, rfl⟩
    exact ⟨rfl, ⟨rfl, rfl⟩, rfl, rfl, rfl⟩
  · rintro ⟨rfl, ⟨rfl, rfl⟩, rfl, rfl, rfl⟩
    exact ⟨rfl, rfl, rfl, rfl, rfl, rfl⟩

theorem Token.ofNumeric_eq (span : Span) (run : List Char) :
    Token.ofNumeric span run =
      { value := (Token.ofNumeric span run).value
        span
        error := (Token.ofNumeric span run).error } := by
  unfold Token.ofNumeric
  split <;> rfl

theorem Token.span_of_ofRun? {span : Span} {run : List Char} {t : Token}
    (h : Token.ofRun? span run = some t) : t.span = span := by
  cases run with
  | nil => cases h
  | cons c more =>
    unfold Token.ofRun? at h
    cases hc : CharClass.of c <;> simp only [hc, Option.some.injEq, reduceCtorEq] at h <;> subst h
    · rw [Token.ofNumeric_eq]
    · rfl
    · rfl

namespace Lexeme

variable {k : Lexeme} {before run after : List Char}

/-- A character of the class of an operator spells it. -/
theorem toChar_of_class {c : Char} {op : Operator} (h : CharClass.of c = .operator op) :
    op.toChar = c := by
  unfold CharClass.of at h
  split at h
  · next hop =>
    cases h
    exact Operator.toChar_of_ofChar? hop
  · split at h
    · cases h
    · split at h <;> cases h

/-- A run is an operator if it is the character that spells it. -/
theorem says_operator_iff {op : Operator} {value : TokenValue} {error : Option TokenError} :
    Says .operator [op.toChar] value error ↔ value = .operator op ∧ error = none := by
  constructor
  · rintro ⟨op', hrun, rfl, rfl⟩
    have hspelled := Operator.ofChar?_toChar op'
    rw [← (List.cons.inj hrun).1, Operator.ofChar?_toChar, Option.some.injEq] at hspelled
    rw [hspelled]
    exact ⟨rfl, rfl⟩
  · rintro ⟨rfl, rfl⟩
    exact ⟨op, rfl, rfl, rfl⟩

/-- A run has a token with what it says, unless it is blank. -/
theorem Stands.ofRun?_cases (h : k.Stands before run after) (span : Span) :
    k = .blank ∧ Token.ofRun? span run = none ∨
      k ≠ .blank ∧ ∃ value error, Token.ofRun? span run = some { value, span, error } ∧
        ∀ value' error', k.Says run value' error' ↔ value' = value ∧ error' = error := by
  obtain ⟨c, more, rfl⟩ := List.exists_cons_of_ne_nil h.nonempty
  have hclass := (admits_iff k c).1 (h.admits c List.mem_cons_self)
  cases hc : CharClass.of c with
  | blank =>
    rw [hc] at hclass
    exact .inl ⟨hclass.symm, by simp only [Token.ofRun?, hc]⟩
  | numeric =>
    obtain rfl : .number = k := by rwa [hc] at hclass
    have htoken : Token.ofRun? span (c :: more) = some (Token.ofNumeric span (c :: more)) := by
      simp only [Token.ofRun?, hc]
    exact .inr ⟨nofun, _, _, htoken.trans (congrArg some (Token.ofNumeric_eq ..)),
      Token.ofNumeric_iff h.admits h.nonempty span⟩
  | operator op =>
    obtain rfl : .operator = k := by rwa [hc] at hclass
    obtain rfl : more = [] := by simpa using h.single rfl
    have htoken : Token.ofRun? span [c] = some { value := .operator op, span } := by
      simp only [Token.ofRun?, hc]
    refine .inr ⟨nofun, _, _, htoken, fun _ _ => ?_⟩
    rw [← toChar_of_class hc]
    exact says_operator_iff
  | other =>
    obtain rfl : .unrecognized = k := by rwa [hc] at hclass
    exact .inr ⟨nofun, _, _, by simp only [Token.ofRun?, hc], fun _ _ => Iff.rfl⟩

/-- **The token of a run** describes it, and there is no other. -/
theorem Stands.ofRun?_iff (h : k.Stands before run after) (outer : List Char) (t : Token) :
    Token.ofRun? (spanOf outer run) run = some t ↔ t.Describes k outer run := by
  rcases h.ofRun?_cases (spanOf outer run) with ⟨rfl, hnone⟩ | ⟨-, value, error, hsome, hsaid⟩
  · rw [hnone]
    exact ⟨nofun, fun hdescribes => absurd hdescribes.content id⟩
  · rw [hsome, Option.some.injEq, Token.eq_iff]
    constructor
    · rintro ⟨hspan, hvalue, hkind, hroll, hresult⟩
      exact ⟨hspan, (hsaid ..).2 hvalue, hkind, hroll, hresult⟩
    · rintro ⟨hspan, hvalue, hkind, hroll, hresult⟩
      exact ⟨hspan, (hsaid ..).1 hvalue, hkind, hroll, hresult⟩

/-- A run that is not blank has a token. -/
theorem Stands.ofRun?_eq_none_iff (h : k.Stands before run after) (span : Span) :
    Token.ofRun? span run = none ↔ k = .blank := by
  rcases h.ofRun?_cases span with ⟨rfl, hnone⟩ | ⟨hblank, value, error, hsome, -⟩
  · exact ⟨fun _ => rfl, fun _ => hnone⟩
  · rw [hsome]
    exact ⟨nofun, fun hk => absurd hk hblank⟩

end Lexeme

/-! ## Tokens of texts -/

/-- The tokens of what stands after others in a text. -/
def tokensFrom (before text : List Char) : List Token :=
  (locate (byteLength before) (text.splitBy CharClass.joins)).filterMap fun (span, run) =>
    Token.ofRun? span run

theorem scan_tokens (text : String) :
    (Expression.scan text).tokens = tokensFrom [] text.toList := rfl

variable {k : Lexeme} {before run after : List Char}

/-- The tokens of a text on either side of a run, and of the run. -/
theorem Lexeme.Stands.tokensFrom_eq (h : k.Stands before run after) (outer : List Char) :
    tokensFrom outer (before ++ (run ++ after)) =
      tokensFrom outer before ++ (Token.ofRun? (spanOf (outer ++ before) run) run).toList ++
        tokensFrom (outer ++ before ++ run) after := by
  have hspan := spanOf_eq (outer ++ before) run
  rw [byteLength_append] at hspan
  unfold tokensFrom
  rw [h.splitBy_eq, locate_append, List.flatten_splitBy, List.filterMap_append, List.append_assoc,
    byteLength_append, byteLength_append, hspan, locate]
  simp only [List.filterMap_cons]
  cases Token.ofRun? _ run <;> rfl

/-- **The tokens of a text** describe its runs. -/
theorem mem_tokensFrom {text : List Char} {t : Token} :
    t ∈ tokensFrom [] text ↔ ∃ (k : Lexeme) (before run after : List Char),
      text = before ++ (run ++ after) ∧ k.Stands before run after ∧ t.Describes k before run := by
  constructor
  · intro ht
    obtain ⟨⟨span, run⟩, hmem, hrun⟩ := List.mem_filterMap.1 ht
    obtain ⟨first, rest, hsplit, rfl⟩ := mem_locate hmem
    obtain ⟨k, hstands⟩ := Lexeme.stands_of_splitBy hsplit
    have htext : text = first.flatten ++ (run ++ rest.flatten) := by
      rw [← List.flatten_splitBy CharClass.joins text, hsplit,
        List.flatten_append, List.flatten_cons]
    refine ⟨k, first.flatten, run, rest.flatten, htext, hstands, (hstands.ofRun?_iff _ t).1 ?_⟩
    rw [spanOf_eq]
    simpa [byteLength] using hrun
  · rintro ⟨k, before, run, after, rfl, hstands, hdescribes⟩
    rw [hstands.tokensFrom_eq, List.nil_append, (hstands.ofRun?_iff _ t).2 hdescribes]
    simp

/-- A run that is not blank has a token. -/
theorem exists_token (h : k.Stands before run after) (hblank : k ≠ .blank) :
    ∃ t ∈ tokensFrom [] (before ++ (run ++ after)), t.Describes k before run := by
  cases htoken : Token.ofRun? (spanOf before run) run with
  | none => exact absurd ((h.ofRun?_eq_none_iff _).1 htoken) hblank
  | some t =>
    have hdescribes := (h.ofRun?_iff before t).1 htoken
    exact ⟨t, mem_tokensFrom.2 ⟨k, before, run, after, rfl, h, hdescribes⟩, hdescribes⟩

/-! ## Longest matches -/

/-- Tokens that are read from a text by longest matches, where it stands after others. -/
inductive Tokenizes : List Char → List Char → List Token → Prop
  | done {before : List Char} : Tokenizes before [] []
  | skip {before text run rest : List Char} {tokens : List Token} :
      Lexeme.Munch .blank text run rest → Tokenizes (before ++ run) rest tokens →
      Tokenizes before text tokens
  | token {before text run rest : List Char} {tokens : List Token} {k : Lexeme} {t : Token} :
      k.Munch text run rest → t.Describes k before run → Tokenizes (before ++ run) rest tokens →
      Tokenizes before text (t :: tokens)

theorem tokensFrom_of_munch {text rest : List Char} (h : k.Munch text run rest)
    (before : List Char) :
    tokensFrom before text = (Token.ofRun? (spanOf before run) run).toList ++
      tokensFrom (before ++ run) rest := by
  obtain ⟨rfl, hstands⟩ := Lexeme.munch_iff.1 h
  have heq := hstands.tokensFrom_eq before
  rwa [List.append_nil, List.nil_append] at heq

/-- At the front of a text stands a longest match. -/
theorem exists_munch {text : List Char} (h : text ≠ []) :
    ∃ (k : Lexeme) (run rest : List Char), k.Munch text run rest := by
  obtain ⟨c, more, rfl⟩ := List.exists_cons_of_ne_nil h
  obtain ⟨k, hk⟩ := Lexeme.exists_admits c
  obtain ⟨first, left, right, rest, hbefore, rfl, hstands⟩ := Lexeme.exists_stands [] more hk
  obtain ⟨rfl, rfl⟩ := List.append_eq_nil_iff.1 hbefore.symm
  exact ⟨k, c :: right, rest, Lexeme.munch_iff.2 ⟨rfl, hstands⟩⟩

/-- **Splitting a text** is reading it by longest matches. -/
theorem tokenizes_iff {before text : List Char} {tokens : List Token} :
    Tokenizes before text tokens ↔ tokens = tokensFrom before text := by
  constructor
  · intro h
    induction h with
    | done => rfl
    | skip hmunch _ ih =>
      have hstands := (Lexeme.munch_iff.1 hmunch).2
      rw [tokensFrom_of_munch hmunch, (hstands.ofRun?_eq_none_iff _).2 rfl, ← ih]
      rfl
    | token hmunch hdescribes _ ih =>
      have hstands := (Lexeme.munch_iff.1 hmunch).2
      rw [tokensFrom_of_munch hmunch, (hstands.ofRun?_iff _ _).2 hdescribes, ← ih]
      rfl
  · rintro rfl
    induction hlength : text.length using Nat.strong_induction_on generalizing before text with
    | _ n ih =>
      by_cases hempty : text = []
      · subst hempty
        exact .done
      · obtain ⟨k, run, rest, hmunch⟩ := exists_munch hempty
        obtain ⟨hsplit, hstands⟩ := Lexeme.munch_iff.1 hmunch
        have hshorter : rest.length < n := by
          have := List.length_pos_of_ne_nil hstands.nonempty
          rw [← hlength, hsplit, List.length_append]
          omega
        have hrest : Tokenizes (before ++ run) rest (tokensFrom (before ++ run) rest) :=
          ih rest.length hshorter rfl
        rw [tokensFrom_of_munch hmunch]
        cases htoken : Token.ofRun? (spanOf before run) run with
        | none =>
          obtain rfl := (hstands.ofRun?_eq_none_iff _).1 htoken
          exact .skip hmunch hrest
        | some t => exact .token hmunch ((hstands.ofRun?_iff before t).1 htoken) hrest

/-! ## Texts -/

/-- An expression that is split as its text is written: the tokens are the longest matches of the
patterns, which are the runs of the text, and the spaces between them are what is blank. -/
structure Expression.Splits (e : Expression) (text : String) : Prop where
  text_eq : e.text = text
  /-- Reading by longest matches gives the tokens, and no others. -/
  longest : ∀ tokens, Tokenizes [] text.toList tokens ↔ tokens = e.tokens
  /-- Every token describes a run of the text, and its span covers it. -/
  runs : ∀ t ∈ e.tokens, ∃ (k : Lexeme) (before run after : List Char),
    text.toList = before ++ (run ++ after) ∧ k.Stands before run after ∧ t.Describes k before run ∧
      t.span.Covers text run
  /-- Every run of the text has a token, unless it is blank. -/
  complete : ∀ (k : Lexeme) (before run after : List Char),
    text.toList = before ++ (run ++ after) → k.Stands before run after → k ≠ .blank →
      ∃ t ∈ e.tokens, t.Describes k before run
  /-- The tokens are in the order of the text, and apart. -/
  ordered : e.tokens.Pairwise fun s t => s.span.stop ≤ t.span.start
  /-- A byte is in a token unless it is of a character that is blank. -/
  bytes : ∀ b < text.utf8ByteSize, ∃ (before : List Char) (c : Char) (after : List Char),
    text.toList = before ++ c :: after ∧ (spanOf before [c]).Has b ∧
      ((∃ t ∈ e.tokens, t.span.Has b) ↔ 0x20 < c.toNat)
  hasError_iff : e.hasError = true ↔ text = "" ∨ ∃ t ∈ e.tokens, t.error ≠ none

/-- Tokens are in order, and apart. -/
theorem pairwise_tokensFrom (before text : List Char) :
    (tokensFrom before text).Pairwise fun s t => s.span.stop ≤ t.span.start := by
  refine (pairwise_locate _ _).filterMap _ ?_
  rintro ⟨span, run⟩ ⟨span', run'⟩ hordered t ht t' ht'
  rw [Token.span_of_ofRun? ht, Token.span_of_ofRun? ht']
  exact hordered

/-- **The tokens of a text cover it** but for what is blank. -/
theorem tokensFrom_has_iff {before after : List Char} {c : Char} {b : Nat}
    (h : (spanOf before [c]).Has b) :
    (∃ t ∈ tokensFrom [] (before ++ c :: after), t.span.Has b) ↔ 0x20 < c.toNat := by
  have hblank : ∀ k : Lexeme, k.admits c = true → (k ≠ .blank ↔ 0x20 < c.toNat) := by
    intro k hk
    rw [← Nat.not_le, not_iff_not]
    constructor
    · rintro rfl
      exact of_decide_eq_true hk
    · exact fun hle => Lexeme.eq_of_admits hk (decide_eq_true hle)
  constructor
  · rintro ⟨t, ht, hbyte⟩
    obtain ⟨k, first, run, rest, hsplit, hstands, hdescribes⟩ := mem_tokensFrom.1 ht
    rw [hdescribes.span] at hbyte
    refine (hblank k (hstands.admits c (mem_of_byte hsplit h hbyte))).1 ?_
    rintro rfl
    exact hdescribes.content
  · intro hc
    obtain ⟨k, hk⟩ := Lexeme.exists_admits c
    obtain ⟨first, left, right, rest, rfl, rfl, hstands⟩ := Lexeme.exists_stands before after hk
    obtain ⟨t, ht, hdescribes⟩ := exists_token hstands ((hblank k hk).2 hc)
    refine ⟨t, by simpa using ht, ?_⟩
    rw [hdescribes.span]
    rw [spanOf_has_iff] at h ⊢
    simp only [byteLength_append, byteLength] at h ⊢
    omega

/-- **Splitting a text is exact.** -/
theorem Expression.scan_splits (text : String) : (Expression.scan text).Splits text where
  text_eq := rfl
  longest _ := tokenizes_iff
  runs t ht := by
    obtain ⟨k, before, run, after, hsplit, hstands, hdescribes⟩ := mem_tokensFrom.1 ht
    refine ⟨k, before, run, after, hsplit, hstands, hdescribes, ?_⟩
    rw [hdescribes.span]
    exact Span.covers_of_split hstands.nonempty hsplit
  complete k before run after hsplit hstands hblank := by
    rw [scan_tokens, hsplit]
    exact exists_token hstands hblank
  ordered := pairwise_tokensFrom [] text.toList
  bytes b hb := by
    have hlength : text.utf8ByteSize = byteLength text.toList := by
      rw [byteLength_eq, String.ofList_toList]
    obtain ⟨before, c, after, hsplit, hbyte⟩ := exists_char_at (hlength ▸ hb)
    refine ⟨before, c, after, hsplit, hbyte, ?_⟩
    rw [scan_tokens, hsplit]
    exact tokensFrom_has_iff hbyte
  hasError_iff := by
    unfold Expression.hasError
    rw [Bool.or_eq_true, String.isEmpty_iff, List.any_eq_true]
    simp only [Token.hasError, Option.isSome_iff_ne_none]
    exact Iff.rfl

/-- A run of characters of more than one byte, and numbers on either side of a space. -/
example : (Expression.scan "é€2 .5.D").tokens =
    [⟨.text "é€", ⟨0, 5⟩, .number, some .unrecognized, none, none⟩,
      ⟨.number (.int 2), ⟨5, 6⟩, .number, none, none, none⟩,
      ⟨.text ".5.", ⟨7, 10⟩, .number, some .notANumber, none, none⟩,
      ⟨.operator (.dice true), ⟨10, 11⟩, .operator, none, none, none⟩] := by
  decide +kernel

end DiceNotation
