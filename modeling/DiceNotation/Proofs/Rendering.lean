import DiceNotation.Proofs.RoundTrip

/-!
# DiceNotation.Proofs.Rendering

Tokens can be written with a space between any two, and are read back from that text.

* `TokenValue.Legible`: the values that the text of a token can say;
* `TokenValue.flaw?`: the error that such a value is read with;
* `TokenValue.Legible.exists_writtenAs`: each is one run, which says the value again;
* `TokenValue.render`, `TokenValue.renderedTokens`: the text of a row of values, and its tokens;
* `Expression.scan_render`: splitting undoes writing.

A minus sign is a token of its own, so only numbers without one are the value of a token; and an
exponent would be read as an unrecognized run.
-/

namespace DiceNotation

open Binary64 Decimal

namespace TokenValue

/-! ## What a token can say -/

/-- The values that the text of a token can say. -/
inductive Legible : TokenValue → Prop
  | operator (op : Operator) : Legible (.operator op)
  /-- Integers without a sign. -/
  | int {n : Int64} : 0 ≤ n.toInt → Legible (.number (.int n))
  /-- Doubles without a sign, also before zero, that are written without an exponent. -/
  | float {x : Float} : x.isFinite = true → (exact x).negative = false →
      'e' ∉ (Number.toText (.float x)).toList → Legible (.number (.float x))
  /-- Characters that mean nothing. -/
  | unrecognized {raw : String} : raw.toList ≠ [] →
      (∀ c ∈ raw.toList, Lexeme.unrecognized.admits c = true) → Legible (.text raw)
  /-- Digits and points that are no number. -/
  | malformed {raw : String} : raw.toList ≠ [] → (∀ c ∈ raw.toList, isNumeric c = true) →
      ¬ (raw.toList.any Char.isDigit = true ∧ raw.toList.count '.' ≤ 1) → Legible (.text raw)

/-- The error that a value is read with. -/
def flaw? : TokenValue → Option TokenError
  | .number _ | .operator _ => none
  | .text raw => some (if raw.toList.all isNumeric then .notANumber else .unrecognized)

/-- A value whose text is one run and says the value. -/
structure WrittenAs (v : TokenValue) (k : Lexeme) : Prop where
  not_blank : k ≠ .blank
  nonempty : v.toText.toList ≠ []
  admits : ∀ c ∈ v.toText.toList, k.admits c = true
  single : k = .operator → v.toText.toList.length = 1
  content : k.Says v.toText.toList v v.flaw?

/-- Digits and points that are read as a number are its text. -/
theorem writtenAs_of_reads {x : Number} (h : ReadsAs x.toText.toList x) :
    WrittenAs (.number x) .number where
  not_blank := nofun
  nonempty := h.nonempty
  admits := h.numeric
  single := nofun
  content := by
    refine (Token.ofNumeric_iff h.numeric h.nonempty ⟨0, 0⟩ _ _).2 ?_
    simp [Token.ofNumeric, h.ofLiteral?, flaw?]

/-- The text of an integer without a sign. -/
theorem readsAs_int {n : Int64} (h : 0 ≤ n.toInt) :
    ReadsAs (Number.toText (.int n)).toList (.int n) := by
  have hfits : Number.Fits n.toInt := ⟨n.le_toInt, Int.le_of_lt_add_one n.toInt_lt⟩
  have hleast : n.toInt ≠ Number.least := fun heq => absurd (heq ▸ h) (by decide)
  have hsign : ¬ n.toInt < 0 := Int.not_lt.2 h
  have hnatural := (Number.withSign_natural hfits hleast).2
  rw [Number.withSign, if_neg (by simpa using hsign), Int64.ofInt_toInt] at hnatural
  have hreads := readsAs_toDigits n.toInt.natAbs
  rw [hnatural] at hreads
  rw [Number.toText_int, String.toList_ofList, signed, if_neg (by simpa using hsign)]
  exact hreads

/-- The text of a double without a sign and without an exponent. -/
theorem readsAs_float {x : Float} (hfinite : x.isFinite = true) (hsign : (exact x).negative = false)
    (hplain : 'e' ∉ (Number.toText (.float x)).toList) :
    ReadsAs (Number.toText (.float x)).toList (.float x) := by
  have htext : (Number.toText (.float x)).toList = Number.style.writeMagnitude (exact x) := by
    show (Number.floatText x).toList = _
    rw [Number.floatText_eq hfinite, String.toList_ofList, signed, hsign]
    rfl
  rw [htext] at hplain ⊢
  obtain ⟨y, a, hliteral, hreads, hexact⟩ := writeMagnitude_plain hfinite hplain
  have ha : exact a = exact x := by
    rw [hexact]
    exact (ExactFloat.eq_mk hsign ⟨rfl, rfl⟩).symm
  rw [eq_of_exact ha] at hreads
  exact ⟨hliteral.ne_nil, hliteral.isNumeric, hreads⟩

theorem writtenAs_operator (op : Operator) : WrittenAs (.operator op) .operator where
  not_blank := nofun
  nonempty := by simp [toText, Operator.toText]
  admits := by
    have hop : op.toChar ∈ Lexeme.operators :=
      Lexeme.mem_operators_of_ofChar? (Operator.ofChar?_toChar op)
    simpa [toText, Operator.toText, Lexeme.admits] using hop
  single _ := by simp [toText, Operator.toText]
  content := ⟨op, by simp [toText, Operator.toText], rfl, rfl⟩

/-- Characters that mean nothing are kept as they are. -/
theorem writtenAs_unrecognized {raw : String} (hne : raw.toList ≠ [])
    (hadmits : ∀ c ∈ raw.toList, Lexeme.unrecognized.admits c = true) :
    WrittenAs (.text raw) .unrecognized where
  not_blank := nofun
  nonempty := hne
  admits := hadmits
  single := nofun
  content := by
    have hnumeric : raw.toList.all isNumeric = false := by
      obtain ⟨c, more, hraw⟩ := List.exists_cons_of_ne_nil hne
      have hc := hadmits c (by simp [hraw])
      simp only [Lexeme.admits, Bool.not_eq_true', Bool.or_eq_false_iff] at hc
      simp [hraw, hc.1.2]
    simp [Lexeme.Says, flaw?, toText, hnumeric]

/-- So are digits and points that are no number. -/
theorem writtenAs_malformed {raw : String} (hne : raw.toList ≠ [])
    (hnumeric : ∀ c ∈ raw.toList, isNumeric c = true)
    (hbad : ¬ (raw.toList.any Char.isDigit = true ∧ raw.toList.count '.' ≤ 1)) :
    WrittenAs (.text raw) .number where
  not_blank := nofun
  nonempty := hne
  admits := hnumeric
  single := nofun
  content := by
    have hall : raw.toList.all isNumeric = true := List.all_eq_true.2 hnumeric
    have hwhole : ¬ ('.' ∉ raw.toList ∧ (placeValue raw.toList : ℤ) ≤ Number.greatest) := by
      rintro ⟨hpoint, -⟩
      have hdigits := List.all_eq_true.1 ((all_isDigit_iff hnumeric).2 hpoint)
      exact hbad ⟨by simpa [any_isDigit hdigits] using hne, by simp [count_point hdigits]⟩
    show Spells raw.toList _ _
    rw [Spells, if_neg hwhole, if_neg hbad]
    simp [flaw?, hall]

/-- **What a token can say** is written as one run, and the run says it. -/
theorem Legible.exists_writtenAs {v : TokenValue} (h : v.Legible) : ∃ k, v.WrittenAs k := by
  cases h with
  | operator op => exact ⟨.operator, writtenAs_operator op⟩
  | int hn => exact ⟨.number, writtenAs_of_reads (readsAs_int hn)⟩
  | float hfinite hsign hplain =>
    exact ⟨.number, writtenAs_of_reads (readsAs_float hfinite hsign hplain)⟩
  | unrecognized hne hadmits => exact ⟨.unrecognized, writtenAs_unrecognized hne hadmits⟩
  | malformed hne hnumeric hbad => exact ⟨.number, writtenAs_malformed hne hnumeric hbad⟩

end TokenValue

/-! ## Runs and spaces -/

namespace TokenValue

variable {v : TokenValue} {k : Lexeme}

/-- A value is not written with a blank. -/
theorem WrittenAs.head_not_blank (h : v.WrittenAs k) (more : List Char) :
    ∀ c ∈ (v.toText.toList ++ more).head?, Lexeme.blank.admits c = false := by
  intro c hc
  obtain ⟨first, rest, htext⟩ := List.exists_cons_of_ne_nil h.nonempty
  obtain rfl : first = c := by simpa [htext] using hc
  by_contra hblank
  exact h.not_blank (Lexeme.eq_of_admits (h.admits first (by simp [htext])) (by simpa using hblank))

/-- **A value before a blank**, or at the end, is the first token. -/
theorem WrittenAs.tokensFrom_eq (h : v.WrittenAs k) (before : List Char) {after : List Char}
    (hafter : ∀ c ∈ after.head?, Lexeme.blank.admits c = true) :
    tokensFrom before (v.toText.toList ++ after) =
      { value := v, span := spanOf before v.toText.toList, error := v.flaw? } ::
        tokensFrom (before ++ v.toText.toList) after := by
  have hright : ∀ c ∈ after.head?, k.admits c = false := by
    intro c hc
    by_contra hadmits
    exact h.not_blank (Lexeme.eq_of_admits (by simpa using hadmits) (hafter c hc))
  have hstands : k.Stands [] v.toText.toList after :=
    ⟨h.nonempty, h.admits, h.single, nofun, fun _ => hright⟩
  have htoken := (hstands.ofRun?_iff before
    { value := v, span := spanOf before v.toText.toList, error := v.flaw? }).2
    ⟨rfl, h.content, rfl, rfl, rfl⟩
  rw [tokensFrom_of_munch (Lexeme.munch_iff.2 ⟨rfl, hstands⟩), htoken]
  rfl

end TokenValue

/-- A space before what is not blank is left out. -/
theorem tokensFrom_space (before : List Char) {after : List Char}
    (hafter : ∀ c ∈ after.head?, Lexeme.blank.admits c = false) :
    tokensFrom before (' ' :: after) = tokensFrom (before ++ [' ']) after := by
  have hstands : Lexeme.Stands .blank [] [' '] after :=
    ⟨List.cons_ne_nil _ _, List.forall_mem_singleton.2 (by decide), nofun, nofun, fun _ => hafter⟩
  have hmunch : Lexeme.Munch .blank (' ' :: after) [' '] after := Lexeme.munch_iff.2 ⟨rfl, hstands⟩
  rw [tokensFrom_of_munch hmunch, (hstands.ofRun?_eq_none_iff _).2 rfl]
  rfl

/-! ## Rows of values -/

namespace TokenValue

/-- A row of values, with a space between any two. -/
def render (values : List TokenValue) : String := " ".intercalate (values.map toText)

/-- The tokens of a row of values, the first of which begins at `start`. -/
def renderedTokens (start : Nat) : List TokenValue → List Token
  | [] => []
  | v :: more =>
    { value := v, span := ⟨start, start + v.toText.utf8ByteSize⟩, error := v.flaw? } ::
      renderedTokens (start + v.toText.utf8ByteSize + 1) more

theorem map_renderedTokens (start : Nat) (values : List TokenValue) :
    (renderedTokens start values).map Token.value = values ∧
      (renderedTokens start values).map Token.error = values.map flaw? := by
  induction values generalizing start with
  | nil => exact ⟨rfl, rfl⟩
  | cons v more ih => simp [renderedTokens, ih]

/-- A space stands after every value but the last. -/
theorem toList_render_cons (v : TokenValue) (more : List TokenValue) :
    (render (v :: more)).toList =
      v.toText.toList ++ if more = [] then [] else ' ' :: (render more).toList := by
  cases more with
  | nil => simp [render]
  | cons w rest => simp [render, String.toList_intercalate]

theorem byteLength_toList (text : String) : byteLength text.toList = text.utf8ByteSize := by
  rw [byteLength_eq, String.ofList_toList]

/-- **A row of values** is read back, wherever it stands. -/
theorem tokensFrom_render {values : List TokenValue} (h : ∀ v ∈ values, v.Legible)
    (before : List Char) :
    tokensFrom before (render values).toList = renderedTokens (byteLength before) values := by
  induction values generalizing before with
  | nil => rfl
  | cons v more ih =>
    obtain ⟨hv, hmore⟩ := List.forall_mem_cons.1 h
    obtain ⟨k, hk⟩ := hv.exists_writtenAs
    have hspan : spanOf before v.toText.toList =
        ⟨byteLength before, byteLength before + v.toText.utf8ByteSize⟩ := by
      rw [spanOf_eq, byteLength_toList]
    rw [toList_render_cons]
    cases more with
    | nil =>
      rw [if_pos rfl, hk.tokensFrom_eq before (by simp), hspan]
      rfl
    | cons w rest =>
      obtain ⟨k', hk'⟩ := (hmore w List.mem_cons_self).exists_writtenAs
      have hhead : ∀ c ∈ (render (w :: rest)).toList.head?, Lexeme.blank.admits c = false := by
        rw [toList_render_cons]
        exact hk'.head_not_blank _
      rw [if_neg (List.cons_ne_nil w rest), hk.tokensFrom_eq before (by simp [Lexeme.admits]),
        tokensFrom_space _ hhead, ih hmore, hspan, byteLength_append, byteLength_append,
        byteLength_toList]
      rfl

/-- The span of a token is where its value is written. -/
theorem span_of_mem_renderedTokens {values : List TokenValue} (before : List Char) {t : Token}
    (h : t ∈ renderedTokens (byteLength before) values) :
    ∃ first rest, before ++ (render values).toList = first ++ (t.value.toText.toList ++ rest) ∧
      t.span = spanOf first t.value.toText.toList := by
  induction values generalizing before with
  | nil => cases h
  | cons v more ih =>
    rw [toList_render_cons]
    rcases List.mem_cons.1 h with rfl | hmem
    · refine ⟨before, _, rfl, ?_⟩
      rw [spanOf_eq, byteLength_toList]
    · have hmore : more ≠ [] := by
        rintro rfl
        cases hmem
      have hbefore : byteLength before + v.toText.utf8ByteSize + 1 =
          byteLength (before ++ v.toText.toList ++ [' ']) := by
        rw [byteLength_append, byteLength_append, byteLength_toList]
        rfl
      rw [hbefore] at hmem
      obtain ⟨first, rest, hsplit, hspan⟩ := ih _ hmem
      refine ⟨first, rest, ?_, hspan⟩
      rw [if_neg hmore, ← hsplit]
      simp

end TokenValue

/-- **Splitting undoes writing.** Operators, numbers without a sign or an exponent,
unrecognized runs and runs of digits and points that are no number are written with a
space between any two. The text is split into tokens with these values in order and no
others. The runs that are no number and those that are not recognized carry an error that
says so, and nothing else carries one. Every span covers the text of its own value. -/
theorem Expression.scan_render {values : List TokenValue} (h : ∀ v ∈ values, v.Legible) :
    let text := TokenValue.render values
    let tokens := (Expression.scan text).tokens
    tokens = TokenValue.renderedTokens 0 values ∧ tokens.map Token.value = values ∧
      tokens.map Token.error = values.map TokenValue.flaw? ∧
      ∀ t ∈ tokens, t.span.Covers text t.value.toText.toList := by
  intro text tokens
  have htokens : tokens = TokenValue.renderedTokens 0 values := TokenValue.tokensFrom_render h []
  obtain ⟨hvalues, herrors⟩ := TokenValue.map_renderedTokens 0 values
  refine ⟨htokens, htokens ▸ hvalues, htokens ▸ herrors, fun t ht => ?_⟩
  have hmem : t.value ∈ values := by
    rw [← hvalues, ← htokens]
    exact List.mem_map_of_mem ht
  obtain ⟨k, hk⟩ := (h t.value hmem).exists_writtenAs
  obtain ⟨first, rest, hsplit, hspan⟩ := TokenValue.span_of_mem_renderedTokens [] (htokens ▸ ht)
  rw [hspan]
  exact Span.covers_of_split hk.nonempty hsplit

/-- The greatest integer, a whole double, and runs that are no number or not recognized. -/
theorem Expression.scan_render_mixed :
    let values : List TokenValue := [.number (.int 9223372036854775807), .operator (.dice true),
      .number (.float (ofRatio false 2 1)), .text "é€", .text "1.2.3"]
    (∀ v ∈ values, v.Legible) ∧
      TokenValue.render values = "9223372036854775807 D 2.0 é€ 1.2.3" ∧
      (Expression.scan (TokenValue.render values)).tokens.map Token.value = values ∧
      (Expression.scan (TokenValue.render values)).tokens.map Token.span =
        [⟨0, 19⟩, ⟨20, 21⟩, ⟨22, 25⟩, ⟨26, 31⟩, ⟨32, 37⟩] := by
  intro values
  have hlegible : ∀ v ∈ values, v.Legible := by
    simp only [values, List.forall_mem_cons]
    refine ⟨.int (by decide), .operator _, .float (by decide +kernel) (by decide +kernel) ?_,
      .unrecognized (by simp) (by simp [Lexeme.admits, isNumeric, Lexeme.operators]),
      .malformed (by simp) (by simp [isNumeric]) (by simp), List.forall_mem_nil _⟩
    decide +kernel
  obtain ⟨htokens, hvalues, -, -⟩ := scan_render hlegible
  refine ⟨hlegible, by decide +kernel, hvalues, ?_⟩
  rw [htokens]
  decide +kernel

end DiceNotation
