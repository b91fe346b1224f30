import DiceNotation.Proofs.Scanning
import Mathlib.Data.List.Forall2

/-!
# DiceNotation.Proofs.Scanning.Words

The words of a text: its runs without the blank ones. Words know nothing of where they stand, so
they say what of a text does not depend on its spacing.

* `words_insert`: blanks that are put in between tokens, or within blanks, leave
  the words as they are;
* `forall₂_words`: the tokens of a text are read from its words, one from each;
* `Lexeme.Stands.eq_or_dice`: words that only differ in the letter of dice are
  the same word, or dice.
-/

namespace DiceNotation

/-- The runs of a text that are not blank. -/
def words (text : List Char) : List (List Char) :=
  (text.splitBy CharClass.joins).filter fun run => !run.all Lexeme.blank.admits

@[simp] theorem words_nil : words [] = [] := rfl

/-! ## Words on either side -/

namespace Lexeme

variable {k : Lexeme} {before run after : List Char}

/-- A run is blank if its characters are. -/
theorem Stands.all_blank (h : k.Stands before run after) :
    run.all Lexeme.blank.admits = true ↔ k = .blank := by
  obtain ⟨c, more, rfl⟩ := List.exists_cons_of_ne_nil h.nonempty
  rw [List.all_eq_true]
  constructor
  · intro hall
    exact eq_of_admits (h.admits c List.mem_cons_self) (hall c List.mem_cons_self)
  · rintro rfl
    exact h.admits

theorem Stands.not_all_blank (h : k.Stands before run after) (hk : k ≠ .blank) :
    run.all Lexeme.blank.admits = false := by
  rw [← Bool.not_eq_true, h.all_blank]
  exact hk

/-- The words on either side of a run, which is a word unless it is blank. -/
theorem Stands.words_eq (h : k.Stands before run after) (hk : k ≠ .blank) :
    words (before ++ (run ++ after)) = words before ++ run :: words after := by
  simp [words, h.splitBy_eq, h.not_all_blank hk]

theorem Stands.words_of_blank (h : Stands .blank before run after) :
    words (before ++ (run ++ after)) = words before ++ words after := by
  have hblank := h.all_blank.2 rfl
  simp only [words, h.splitBy_eq, List.filter_append, List.filter_cons, hblank]
  rfl

end Lexeme

/-- Blanks at the end of a text are part of no word. -/
theorem words_append_blanks {before blanks : List Char}
    (hblanks : ∀ c ∈ blanks, Lexeme.blank.admits c = true)
    (hbefore : ∀ c ∈ before.getLast?, Lexeme.blank.admits c = false) :
    words (before ++ blanks) = words before := by
  cases blanks with
  | nil => rw [List.append_nil]
  | cons c more =>
    have hstands : Lexeme.Stands .blank before (c :: more) [] :=
      ⟨List.cons_ne_nil c more, hblanks, nofun, fun _ => hbefore, nofun⟩
    have hwords := hstands.words_of_blank
    rwa [List.append_nil, words_nil, List.append_nil] at hwords

/-- Nor are blanks at its front. -/
theorem words_blanks_append {blanks after : List Char}
    (hblanks : ∀ c ∈ blanks, Lexeme.blank.admits c = true)
    (hafter : ∀ c ∈ after.head?, Lexeme.blank.admits c = false) :
    words (blanks ++ after) = words after := by
  cases blanks with
  | nil => rw [List.nil_append]
  | cons c more =>
    have hstands : Lexeme.Stands .blank [] (c :: more) after :=
      ⟨List.cons_ne_nil c more, hblanks, nofun, nofun, fun _ => hafter⟩
    exact hstands.words_of_blank

/-- **A blank character parts the words** before it from those after it. -/
theorem words_append_blank {c : Char} (hc : Lexeme.blank.admits c = true)
    (before after : List Char) :
    words (before ++ c :: after) = words before ++ words after := by
  obtain ⟨first, left, right, rest, rfl, rfl, hstands⟩ := Lexeme.exists_stands before after hc
  have hleft : words (first ++ left) = words first :=
    words_append_blanks (fun d hd => hstands.admits d (List.mem_append_left _ hd))
      (hstands.left nofun)
  have hright : words (right ++ rest) = words rest :=
    words_blanks_append
      (fun d hd => hstands.admits d (List.mem_append_right _ (List.mem_cons_of_mem _ hd)))
      (hstands.right nofun)
  have hwhole := hstands.words_of_blank
  rw [hleft, hright, ← hwhole]
  simp

/-- Where two characters of a word meet, its token is torn apart. -/
theorem exists_torn {k : Lexeme} (hk : k ≠ .operator) (hblank : k ≠ .blank) {c d : Char}
    (hc : k.admits c = true) (hd : k.admits d = true) (before after : List Char) :
    ∃ t ∈ tokensFrom [] (before ++ c :: d :: after),
      t.span.start < byteLength (before ++ [c]) ∧ byteLength (before ++ [c]) < t.span.stop := by
  obtain ⟨first, left, right, rest, rfl, hsplit, hstands⟩ :=
    Lexeme.exists_stands before (d :: after) hc
  have hright : right ≠ [] := by
    rintro rfl
    obtain rfl : rest = d :: after := hsplit.symm
    have hend := hstands.right hk d rfl
    rw [hd] at hend
    cases hend
  obtain ⟨t, ht, hdescribes⟩ := exists_token hstands hblank
  have htext : first ++ (left ++ c :: right ++ rest) = first ++ left ++ c :: d :: after := by
    rw [hsplit]
    simp
  rw [htext] at ht
  refine ⟨t, ht, ?_⟩
  have hlength := byteLength_pos hright
  have hchar := c.utf8Size_pos
  rw [hdescribes.span, spanOf_eq]
  simp only [byteLength_append, byteLength]
  omega

/-- **Words are parted wherever no token is torn apart.** -/
theorem words_append {before after : List Char}
    (hapart : ∀ t ∈ tokensFrom [] (before ++ after),
      ¬ (t.span.start < byteLength before ∧ byteLength before < t.span.stop)) :
    words (before ++ after) = words before ++ words after := by
  rcases List.eq_nil_or_concat before with rfl | ⟨init, c, rfl⟩
  · rfl
  cases after with
  | nil => rw [List.append_nil, words_nil, List.append_nil]
  | cons d after =>
    rw [List.concat_eq_append] at hapart ⊢
    by_cases hjoins : CharClass.joins c d = true
    · obtain ⟨k, hc⟩ := Lexeme.exists_admits c
      obtain ⟨hoperator, hd⟩ := (Lexeme.joins_iff hc d).1 hjoins
      rw [List.append_assoc] at hapart ⊢
      by_cases hk : k = .blank
      · subst hk
        have hend : words (init ++ [c]) = words init := by
          rw [words_append_blank hc init [], words_nil, List.append_nil]
        rw [hend]
        exact words_append_blank hc init (d :: after)
      · obtain ⟨t, ht, htorn⟩ := exists_torn hoperator hk hc hd init after
        exact absurd htorn (hapart t ht)
    · have hsplit : (init ++ [c] ++ d :: after).splitBy CharClass.joins =
          (init ++ [c]).splitBy CharClass.joins ++ (d :: after).splitBy CharClass.joins := by
        apply List.splitBy_append
        intro x hx y hy
        rw [List.getLast?_concat] at hx
        cases hx
        cases hy
        simpa using hjoins
      rw [words, hsplit, List.filter_append, words, words]

/-- Blanks at the front of a text are part of no word, whatever comes after them. -/
theorem words_skip {blanks : List Char} (hblanks : ∀ c ∈ blanks, Lexeme.blank.admits c = true)
    (after : List Char) : words (blanks ++ after) = words after := by
  induction blanks with
  | nil => rfl
  | cons c blanks ih =>
    obtain ⟨hc, hmore⟩ := List.forall_mem_cons.1 hblanks
    have hfront := words_append_blank hc [] (blanks ++ after)
    rw [List.nil_append, words_nil, List.nil_append, ih hmore] at hfront
    exact hfront

/-- **Blanks that tear no token apart** leave the words as they are. -/
theorem words_insert {before blanks after : List Char}
    (hblanks : ∀ c ∈ blanks, Lexeme.blank.admits c = true)
    (hapart : ∀ t ∈ tokensFrom [] (before ++ after),
      ¬ (t.span.start < byteLength before ∧ byteLength before < t.span.stop)) :
    words (before ++ (blanks ++ after)) = words (before ++ after) := by
  cases blanks with
  | nil => rfl
  | cons c more =>
    obtain ⟨hc, hmore⟩ := List.forall_mem_cons.1 hblanks
    rw [List.cons_append, words_append_blank hc, words_skip hmore, words_append hapart]

/-! ## Tokens of words -/

/-- What is read from some elements, next to what is kept of them. -/
theorem forall₂_filterMap_filter {α β γ : Type} {R : β → γ → Prop} {f : α → Option β} {g : α → γ}
    {p : γ → Bool} {xs : List α}
    (h : ∀ x ∈ xs, (f x = none ∧ p (g x) = false) ∨
      ∃ y, f x = some y ∧ p (g x) = true ∧ R y (g x)) :
    List.Forall₂ R (xs.filterMap f) ((xs.map g).filter p) := by
  induction xs with
  | nil => exact .nil
  | cons x xs ih =>
    obtain ⟨hx, hxs⟩ := List.forall_mem_cons.1 h
    rcases hx with ⟨hnone, hp⟩ | ⟨y, hy, hp, hr⟩
    · rw [List.filterMap_cons_none hnone, List.map_cons, List.filter_cons_of_neg (by simp [hp])]
      exact ih hxs
    · rw [List.filterMap_cons_some hy, List.map_cons, List.filter_cons_of_pos hp]
      exact .cons hr (ih hxs)

/-- A token that was read from a word of a text, where it stands. -/
structure Token.ReadFrom (text : String) (t : Token) (word : List Char) : Prop where
  stands : ∃ (k : Lexeme) (before after : List Char), k.Stands before word after
  covers : t.span.Covers text word
  token : Token.ofRun? t.span word = some t

/-- **The tokens of a text are read from its words**, one from each and in their order. -/
theorem forall₂_words (text : String) :
    List.Forall₂ (Token.ReadFrom text) (Expression.scan text).tokens (words text.toList) := by
  have hwords : words text.toList = ((locate 0 (runs text)).map Prod.snd).filter
      fun run => !run.all Lexeme.blank.admits := by
    rw [map_snd_locate]
    rfl
  rw [hwords]
  apply forall₂_filterMap_filter
  rintro ⟨span, run⟩ hmem
  obtain ⟨first, rest, hsplit, hspan⟩ := mem_locate hmem
  obtain ⟨k, hstands⟩ := Lexeme.stands_of_splitBy hsplit
  have htext : text.toList = first.flatten ++ (run ++ rest.flatten) := by
    rw [← List.flatten_splitBy CharClass.joins text.toList, ← runs, hsplit, List.flatten_append,
      List.flatten_cons]
  have hcovers : span.Covers text run := by
    rw [hspan, Nat.zero_add, ← spanOf_eq]
    exact Span.covers_of_split hstands.nonempty htext
  rcases hstands.ofRun?_cases span with ⟨hblank, hnone⟩ | ⟨hblank, value, error, hsome, -⟩
  · left
    refine ⟨hnone, ?_⟩
    simp only [hstands.all_blank.2 hblank, Bool.not_true]
  · right
    refine ⟨_, hsome, ?_, ⟨k, _, _, hstands⟩, hcovers, hsome⟩
    simp only [hstands.not_all_blank hblank, Bool.not_false]

/-! ## The letter of dice -/

/-- The character with dice in lower case. -/
def lowerDice (c : Char) : Char := if c = 'D' then 'd' else c

/-- A word with dice in lower case. -/
def lowerWord (word : List Char) : List Char := word.map lowerDice

theorem lowerDice_eq_d_iff {c : Char} :
    lowerDice c = 'd' ↔ ∃ upper, c = (Operator.dice upper).toChar := by
  unfold lowerDice
  constructor
  · intro h
    split at h
    · next hupper => exact ⟨true, hupper⟩
    · exact ⟨false, h⟩
  · rintro ⟨upper, rfl⟩
    cases upper <;> rfl

/-- A word of dice has no other character. -/
theorem Lexeme.Stands.eq_dice {k : Lexeme} {before word after : List Char}
    (h : k.Stands before word after) {upper : Bool} (hmem : (Operator.dice upper).toChar ∈ word) :
    word = [(Operator.dice upper).toChar] := by
  have hoperator : Lexeme.operator.admits (Operator.dice upper).toChar = true := by
    cases upper <;> rfl
  obtain rfl := Lexeme.eq_of_admits (h.admits _ hmem) hoperator
  obtain ⟨c, rfl⟩ := List.length_eq_one_iff.1 (h.single rfl)
  rw [List.mem_singleton.1 hmem]

theorem lowerWord_eq_self {word : List Char} (h : 'd' ∉ lowerWord word) :
    lowerWord word = word := by
  have hself : ∀ c ∈ word, lowerDice c = id c := by
    intro c hc
    apply if_neg
    rintro rfl
    exact h (List.mem_map.2 ⟨'D', hc, rfl⟩)
  rw [lowerWord, List.map_congr_left hself, List.map_id]

/-- **Words that differ in the letter of dice only** are the same, or dice. -/
theorem Lexeme.Stands.eq_or_dice {k : Lexeme} {before word word' after : List Char}
    (h : k.Stands before word after) (hsame : lowerWord word = lowerWord word') :
    word = word' ∨ ∃ upper upper', word = [(Operator.dice upper).toChar] ∧
      word' = [(Operator.dice upper').toChar] := by
  by_cases hdice : 'd' ∈ lowerWord word
  · right
    obtain ⟨c, hc, hlower⟩ := List.mem_map.1 hdice
    obtain ⟨upper, rfl⟩ := lowerDice_eq_d_iff.1 hlower
    obtain rfl := h.eq_dice hc
    have hlower' : word'.map lowerDice = ['d'] := by
      rw [← lowerWord, ← hsame, lowerWord, List.map_singleton, hlower]
    obtain ⟨c', rfl, hc'⟩ := List.map_eq_singleton_iff.1 hlower'
    obtain ⟨upper', rfl⟩ := lowerDice_eq_d_iff.1 hc'
    exact ⟨upper, upper', rfl, rfl⟩
  · left
    have hdice' : 'd' ∉ lowerWord word' := hsame ▸ hdice
    rw [← lowerWord_eq_self hdice, ← lowerWord_eq_self hdice', hsame]

end DiceNotation
