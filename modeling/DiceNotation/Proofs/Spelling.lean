import DiceNotation.Proofs.Meaning
import DiceNotation.Proofs.Scanning.Words
import DiceNotation.Roller.Stepping
import Mathlib.Logic.Relation

/-!
# DiceNotation.Proofs.Spelling

The spelling of an expression: blanks between its tokens, and the letter that dice are written with.

* `Respelling`: one change of the spelling;
* `Respelling.words`: it leaves the words as they are, but for the letter of dice;
* `Token.Respelt`, `forall₂_respelt`: so the tokens say the same, from other places in the text;
* `Tray.evaluateText_respelled`: and the text is evaluated alike.
-/

namespace DiceNotation

/-! ## Spelling a text otherwise -/

/-- A text and the same with one change in its spelling. -/
inductive Respelling : String → String → Prop
  /-- Blanks are put in before, after or between tokens: anywhere, unless a token is torn apart. -/
  | blanks {before blanks after : String} : (∀ c ∈ blanks.toList, c.toNat ≤ 0x20) →
      (∀ t ∈ (Expression.scan (before ++ after)).tokens,
        ¬ (t.span.start < before.utf8ByteSize ∧ before.utf8ByteSize < t.span.stop)) →
      Respelling (before ++ after) (before ++ blanks ++ after)
  /-- Dice are written with a letter of either case. -/
  | letter {before after : String} (upper upper' : Bool) :
      Respelling (before ++ (Operator.dice upper).toText ++ after)
        (before ++ (Operator.dice upper').toText ++ after)

/-- The words on either side of dice. -/
theorem words_dice (before after : String) (upper : Bool) :
    (words (before ++ (Operator.dice upper).toText ++ after).toList).map lowerWord =
      (words before.toList).map lowerWord ++ ['d'] :: (words after.toList).map lowerWord := by
  have hstands : Lexeme.Stands .operator before.toList [(Operator.dice upper).toChar]
      after.toList := by
    refine ⟨List.cons_ne_nil _ _, List.forall_mem_singleton.2 ?_, fun _ => rfl, ?_, ?_⟩
    · cases upper <;> rfl
    · exact fun h => absurd rfl h
    · exact fun h => absurd rfl h
  have hletter : lowerWord [(Operator.dice upper).toChar] = ['d'] := by
    cases upper <;> rfl
  rw [Operator.toText, String.toList_append, String.toList_append, String.toList_singleton,
    List.append_assoc, hstands.words_eq nofun, List.map_append, List.map_cons, hletter]

/-- **A text that is spelt otherwise has the same words**, but for the letter of dice. -/
theorem Respelling.words {text text' : String} (h : Respelling text text') :
    (words text.toList).map lowerWord = (words text'.toList).map lowerWord := by
  cases h with
  | @blanks before blanks after hblanks hapart =>
    have hlength : before.utf8ByteSize = byteLength before.toList := by
      rw [byteLength_eq, String.ofList_toList]
    rw [scan_tokens, String.toList_append, hlength] at hapart
    rw [String.toList_append, String.toList_append, String.toList_append, List.append_assoc,
      words_insert (fun c hc => decide_eq_true (hblanks c hc)) hapart]
  | letter upper upper' => rw [words_dice, words_dice]

/-! ## Tokens of texts with the same words -/

/-- What is read from a run does not depend on where it stands. -/
theorem Token.ofRun?_span {span : Span} {run : List Char} {t : Token}
    (h : Token.ofRun? span run = some t) (span' : Span) :
    Token.ofRun? span' run = some { t with span := span' } := by
  cases run with
  | nil => cases h
  | cons c more =>
    unfold Token.ofRun? at h ⊢
    cases hc : CharClass.of c <;> simp only [hc, Option.some.injEq, reduceCtorEq] at h ⊢ <;> subst h
    · unfold Token.ofNumeric
      cases Number.ofLiteral? (c :: more) <;> rfl
    · rfl
    · rfl

/-- Tokens of two texts that say the same, and had the same happen to them. They may stand at
different places, and what stands there may be another letter for dice. -/
structure Token.Respelt (text text' : String) (t t' : Token) : Prop where
  kind : t.kind = t'.kind
  value : t.value.lower = t'.value.lower
  error : t.error = t'.error
  roll : t.roll = t'.roll
  rollResult : t.rollResult = t'.rollResult
  slice : ∃ word word', t.span.Covers text word ∧ t'.span.Covers text' word' ∧
    lowerWord word = lowerWord word'

/-- **Tokens that are read from the same word**, or from dice, say the same. -/
theorem Token.ReadFrom.respelt {text text' : String} {t t' : Token} {word word' : List Char}
    (h : t.ReadFrom text word) (h' : t'.ReadFrom text' word')
    (hsame : lowerWord word = lowerWord word') : Token.Respelt text text' t t' := by
  obtain ⟨k, before, after, hstands⟩ := h.stands
  have hslice : ∃ word word', t.span.Covers text word ∧ t'.span.Covers text' word' ∧
      lowerWord word = lowerWord word' := ⟨word, word', h.covers, h'.covers, hsame⟩
  have htoken := h.token
  have htoken' := h'.token
  rcases hstands.eq_or_dice hsame with rfl | ⟨upper, upper', rfl, rfl⟩
  · rw [Token.ofRun?_span htoken t'.span, Option.some.injEq] at htoken'
    rw [← htoken'] at hslice ⊢
    exact ⟨rfl, rfl, rfl, rfl, rfl, hslice⟩
  · have hdice : ∀ (span : Span) (upper : Bool),
        Token.ofRun? span [(Operator.dice upper).toChar] =
          some { value := .operator (.dice upper), span } := by
      intro span upper
      cases upper <;> rfl
    rw [hdice, Option.some.injEq] at htoken htoken'
    rw [← htoken, ← htoken'] at hslice ⊢
    exact ⟨rfl, rfl, rfl, rfl, rfl, hslice⟩

/-- What is read from equal things is related. -/
theorem forall₂_of_map_eq {α β γ δ : Type} {R : α → β → Prop} {R' : γ → β → Prop} {S : α → γ → Prop}
    {f : β → δ} (hS : ∀ {a b c b'}, R a b → R' c b' → f b = f b' → S a c)
    {as : List α} {bs bs' : List β} {cs : List γ} (h : List.Forall₂ R as bs)
    (h' : List.Forall₂ R' cs bs') (hbs : bs.map f = bs'.map f) : List.Forall₂ S as cs := by
  induction h generalizing bs' cs with
  | nil =>
    obtain rfl : bs' = [] := List.map_eq_nil_iff.1 hbs.symm
    cases h'
    exact .nil
  | cons hfirst _ ih =>
    obtain ⟨b', rest', rfl, hb', hrest'⟩ := List.map_eq_cons_iff.1 hbs.symm
    cases h' with
    | cons hfirst' hrest => exact .cons (hS hfirst hfirst' hb'.symm) (ih hrest hrest'.symm)

/-- Texts with the same words have tokens that say the same. -/
theorem forall₂_respelt {text text' : String}
    (h : (words text.toList).map lowerWord = (words text'.toList).map lowerWord) :
    List.Forall₂ (Token.Respelt text text') (Expression.scan text).tokens
      (Expression.scan text').tokens :=
  forall₂_of_map_eq (fun hread hread' => hread.respelt hread') (forall₂_words text)
    (forall₂_words text') h

/-! ## Evaluating -/

theorem Token.Respelt.meaning {text text' : String} {t t' : Token}
    (h : Token.Respelt text text' t t') : t.meaning = t'.meaning := by
  rw [Token.meaning_eq, Token.meaning_eq, h.error, h.value]

/-- Tokens that say the same still do when the same has happened to them. -/
theorem forall₂_respelt_annotate {text text' : String} {tokens tokens' : List Token}
    (h : List.Forall₂ (Token.Respelt text text') tokens tokens') (rolls : List RollEvent)
    (result : Except EvalError Number) :
    List.Forall₂ (Token.Respelt text text') (annotate tokens rolls result)
      (annotate tokens' rolls result) := by
  refine annotate_forall₂ ?_ ?_ ?_ h rolls result
  · intro mark t t' h
    exact { h with error := congrArg (·.or (some mark)) h.error }
  · intro r t t' h
    exact { h with roll := rfl }
  · intro r t t' h
    exact { h with rollResult := rfl }

variable {σ : Type} [Roller σ]

/-- **Spacing and the letter of dice make no difference.** If a text is spelt
otherwise, by blanks anywhere but inside of tokens and by dice in either letter, its
evaluation has the same outcome and the same rolls, and leaves the same tray. Its
tokens say the same, have the same errors and rolls, and stand at the same words. -/
theorem Tray.evaluateText_respelled {text text' : String}
    (h : Relation.ReflTransGen Respelling text text') (tray : Tray σ) :
    let result := (tray.evaluateText text).1
    let result' := (tray.evaluateText text').1
    result.outcome = result'.outcome ∧ result.rolls = result'.rolls ∧
    (tray.evaluateText text).2 = (tray.evaluateText text').2 ∧
    List.Forall₂ (Token.Respelt text text') result.tokens result'.tokens := by
  intro result result'
  have hwords : (words text.toList).map lowerWord = (words text'.toList).map lowerWord := by
    induction h with
    | refl => rfl
    | tail _ hlast ih => exact ih.trans hlast.words
  have htokens := forall₂_respelt hwords
  have hmeaning : (Expression.scan text).tokens.map Token.meaning =
      (Expression.scan text').tokens.map Token.meaning := by
    rw [← List.forall₂_eq_eq_eq, List.forall₂_map_left_iff, List.forall₂_map_right_iff]
    exact htokens.imp fun _ _ hrespelt => hrespelt.meaning
  have heval := evaluate_congr hmeaning tray
  refine ⟨(congrArg (·.1.outcome) heval).symm, (congrArg (·.1.rolls) heval).symm,
    (congrArg (·.2) heval).symm, ?_⟩
  have htokens' : result'.tokens = annotate (Expression.scan text').tokens
      ((Program.ofTokens (Expression.scan text).tokens).run tray.reset).rolls
      ((Program.ofTokens (Expression.scan text).tokens).run tray.reset).result :=
    congrArg (·.1.tokens) heval
  rw [htokens']
  exact forall₂_respelt_annotate htokens _ _

/-- A blank after dice that are written with the other letter, and one before a
run of characters that mean nothing. -/
theorem Tray.evaluateText_respelled_twice :
    let tray : Tray Roller.Stepping := ⟨some 9, 0, ⟨3, 1⟩⟩
    Relation.ReflTransGen Respelling "2d6é" "2D6\té" ∧
      (tray.evaluateText "2d6é").1.outcome = .error (.lexical "Unrecognized characters") ∧
      (tray.evaluateText "2d6é").1.outcome = (tray.evaluateText "2D6\té").1.outcome := by
  intro tray
  have hletter : Respelling "2d6é" "2D6é" := @Respelling.letter "2" "6é" false true
  have hblank : Respelling "2D6é" "2D6\té" :=
    @Respelling.blanks "2D6" "\t" "é" (by simp) (by decide +kernel)
  have hrespelt : Relation.ReflTransGen Respelling "2d6é" "2D6\té" :=
    .tail (.single hletter) hblank
  obtain ⟨houtcome, -⟩ := evaluateText_respelled hrespelt tray
  exact ⟨hrespelt, by decide +kernel, houtcome⟩

end DiceNotation
