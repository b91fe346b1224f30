import Mathlib.Data.List.DropRight
import Mathlib.Data.List.SplitBy
import DiceNotation.Proofs.Scanning.Literals

/-!
# DiceNotation.Proofs.Scanning.Runs

The runs of a text. A run is as long as it can be: it is made of characters of one kind, and the
characters next to it are of others; an operator is a run by itself.

* `Lexeme.admits`, `Lexeme.admits_iff`: the kinds, told by their characters.
  Every character is of one kind and no other;
* `Lexeme.Stands`: where a run stands in a text;
* `Lexeme.Stands.splitBy_eq`, `Lexeme.stands_of_splitBy`: these are the runs
  that a text is split into;
* `Lexeme.exists_stands`: every character is in one.
-/

namespace DiceNotation

/-! ## Kinds of characters -/

/-- The kinds of runs. -/
inductive Lexeme where
  | number
  | operator
  | unrecognized
  | blank
  deriving DecidableEq, Repr

namespace Lexeme

/-- The characters that are operators. -/
def operators : List Char := ['+', '-', '*', '/', '^', '(', ')', 'd', 'D']

/-- Whether a run of a kind can have a character in it. -/
def admits : Lexeme → Char → Bool
  | .number, c => isNumeric c
  | .operator, c => c ∈ operators
  | .unrecognized, c => !(c.toNat ≤ 0x20 || isNumeric c || c ∈ operators)
  | .blank, c => c.toNat ≤ 0x20

/-- The kind of a class. -/
def ofClass : CharClass → Lexeme
  | .blank => .blank
  | .numeric => .number
  | .operator _ => .operator
  | .other => .unrecognized

theorem mem_operators_of_ofChar? {c : Char} {op : Operator} (h : Operator.ofChar? c = some op) :
    c ∈ operators := by
  obtain rfl := Operator.toChar_of_ofChar? h
  cases op with
  | dice upper => cases upper <;> decide
  | _ => decide

theorem not_mem_operators_of_ofChar? {c : Char} (h : Operator.ofChar? c = none) :
    c ∉ operators := by
  have hall : ∀ d ∈ operators, Operator.ofChar? d ≠ none := by simp [operators, Operator.ofChar?]
  exact fun hmem => hall c hmem h

/-- Digits and points come after the space. -/
theorem not_blank_of_isNumeric {c : Char} (h : isNumeric c = true) : ¬ c.toNat ≤ 0x20 := by
  rcases Decimal.isNumeric_iff.1 h with hdigit | rfl
  · have hzero : '0'.toNat ≤ c.toNat := by
      simp only [Char.isDigit, Bool.and_eq_true, decide_eq_true_eq] at hdigit
      exact UInt32.le_iff_toNat_le.1 hdigit.1
    exact Nat.not_le.2 (Nat.lt_of_lt_of_le (by decide) hzero)
  · decide

/-- **Every character is of one kind and no other.** -/
theorem admits_iff (k : Lexeme) (c : Char) : k.admits c = true ↔ ofClass (CharClass.of c) = k := by
  unfold CharClass.of
  cases hop : Operator.ofChar? c with
  | some op =>
    have hmem := mem_operators_of_ofChar? hop
    have hother : ∀ d ∈ operators, ¬ d.toNat ≤ 0x20 ∧ isNumeric d = false := by
      simp [operators, isNumeric]
    obtain ⟨hblank, hnumeric⟩ := hother c hmem
    cases k <;> simp [admits, ofClass, hblank, hnumeric, hmem]
  | none =>
    have hmem := not_mem_operators_of_ofChar? hop
    by_cases hblank : c.toNat ≤ 0x20
    · have hnumeric : isNumeric c = false := by
        by_contra hnumeric
        exact not_blank_of_isNumeric (by simpa using hnumeric) hblank
      cases k <;> simp [admits, ofClass, hblank, hnumeric, hmem]
    · cases hnumeric : isNumeric c with
      | true =>
        have hclass : (c.isDigit || c == '.') = true := hnumeric
        cases k <;> simp [admits, ofClass, hblank, hnumeric, hclass, hmem]
      | false =>
        have hclass : (c.isDigit || c == '.') = false := hnumeric
        cases k <;> simp [admits, ofClass, hblank, hnumeric, hclass, hmem]

theorem exists_admits (c : Char) : ∃ k : Lexeme, k.admits c = true :=
  ⟨_, (admits_iff _ c).2 rfl⟩

theorem eq_of_admits {k k' : Lexeme} {c : Char} (h : k.admits c = true) (h' : k'.admits c = true) :
    k = k' := by
  rw [← (admits_iff k c).1 h, (admits_iff k' c).1 h']

/-- Neighbours are in one run if they are of one kind and no operators. -/
theorem joins_iff {k : Lexeme} {c : Char} (h : k.admits c = true) (d : Char) :
    CharClass.joins c d = true ↔ k ≠ .operator ∧ k.admits d = true := by
  rw [admits_iff] at h
  rw [admits_iff, ← h]
  unfold CharClass.joins
  cases hc : CharClass.of c with
  | operator op => simp [ofClass]
  | _ => cases hd : CharClass.of d <;> simp [ofClass]

/-! ## Runs -/

/-- Where a run of a kind stands: it could not be longer on either side, or it is an operator. -/
structure Stands (k : Lexeme) (before run after : List Char) : Prop where
  nonempty : run ≠ []
  admits : ∀ c ∈ run, k.admits c = true
  single : k = .operator → run.length = 1
  left : k ≠ .operator → ∀ c ∈ before.getLast?, k.admits c = false
  right : k ≠ .operator → ∀ c ∈ after.head?, k.admits c = false

variable {k : Lexeme} {before run after : List Char}

theorem Stands.isChain (h : k.Stands before run after) :
    run.IsChain fun c d => CharClass.joins c d = true := by
  by_cases hk : k = .operator
  · obtain ⟨c, rfl⟩ := List.length_eq_one_iff.1 (h.single hk)
    exact .singleton c
  · apply List.Pairwise.isChain
    apply List.pairwise_of_forall_mem_list
    intro c hc d hd
    exact (joins_iff (h.admits c hc) d).2 ⟨hk, h.admits d hd⟩

/-- **A text is split on either side of a run.** -/
theorem Stands.splitBy_eq (h : k.Stands before run after) :
    (before ++ (run ++ after)).splitBy CharClass.joins =
      before.splitBy CharClass.joins ++ run :: after.splitBy CharClass.joins := by
  have hleft : ∀ c ∈ before.getLast?, ∀ d ∈ (run ++ after).head?, CharClass.joins c d = false := by
    intro c hc d hd
    have hd : k.admits d = true := by
      rw [List.head?_append_of_ne_nil _ h.nonempty] at hd
      exact h.admits d (List.mem_of_mem_head? hd)
    by_contra hjoins
    obtain ⟨k', hk'⟩ := exists_admits c
    obtain ⟨hoperator, hd'⟩ := (joins_iff hk' d).1 (by simpa using hjoins)
    obtain rfl := eq_of_admits hd hd'
    rw [h.left hoperator c hc] at hk'
    cases hk'
  have hright : ∀ c ∈ run.getLast?, ∀ d ∈ after.head?, CharClass.joins c d = false := by
    intro c hc d hd
    by_contra hjoins
    have hc := h.admits c (List.mem_of_getLast? hc)
    obtain ⟨hoperator, hd'⟩ := (joins_iff hc d).1 (by simpa using hjoins)
    rw [h.right hoperator d hd] at hd'
    cases hd'
  rw [List.splitBy_append hleft, List.splitBy_append hright,
    List.splitBy_of_isChain h.nonempty h.isChain, List.singleton_append]

/-- What joins a character of a kind, one after the other, is of that kind. -/
theorem admits_of_isChain (run : List Char)
    (hchain : run.IsChain fun c d => CharClass.joins c d = true)
    (hhead : ∀ c ∈ run.head?, k.admits c = true) :
    (∀ c ∈ run, k.admits c = true) ∧ (k = .operator → run.length ≤ 1) := by
  induction run with
  | nil => exact ⟨nofun, fun _ => Nat.zero_le 1⟩
  | cons c more ih =>
    have hc : k.admits c = true := hhead c rfl
    cases more with
    | nil => exact ⟨List.forall_mem_singleton.2 hc, fun _ => Nat.le_refl 1⟩
    | cons d more =>
      obtain ⟨hjoins, hchain⟩ := List.isChain_cons_cons.1 hchain
      obtain ⟨hoperator, hd⟩ := (joins_iff hc d).1 hjoins
      have hmore := (ih hchain fun x hx => by cases hx; exact hd).1
      exact ⟨List.forall_mem_cons.2 ⟨hc, hmore⟩, fun hk => absurd hk hoperator⟩

/-- **What a text is split into** are its runs, each where it stands. -/
theorem stands_of_splitBy {text : List Char} {first rest : List (List Char)}
    (h : text.splitBy CharClass.joins = first ++ run :: rest) :
    ∃ k : Lexeme, k.Stands first.flatten run rest.flatten := by
  have hmem : run ∈ text.splitBy CharClass.joins := by
    rw [h]
    exact List.mem_append_right _ List.mem_cons_self
  have hne : run ≠ [] := List.ne_nil_of_mem_splitBy hmem
  have hapart := List.isChain_getLast_head_splitBy CharClass.joins text
  rw [h, List.isChain_append] at hapart
  obtain ⟨-, hrest, hfirst⟩ := hapart
  obtain ⟨k, hk⟩ := exists_admits (run.head hne)
  obtain ⟨hadmits, hsingle⟩ := admits_of_isChain run (List.isChain_of_mem_splitBy hmem)
    fun c hc => by
      rw [List.head?_eq_some_head hne] at hc
      cases hc
      exact hk
  refine ⟨k, hne, hadmits, fun hoperator => ?_, fun hoperator c hc => ?_, fun hoperator c hc => ?_⟩
  · exact Nat.le_antisymm (hsingle hoperator) (List.length_pos_of_ne_nil hne)
  · rcases List.eq_nil_or_concat first with rfl | ⟨init, last, rfl⟩
    · cases hc
    · rw [List.concat_eq_append] at hc hfirst
      obtain ⟨hlast, _, hjoins⟩ := hfirst last List.getLast?_concat run rfl
      rw [List.flatten_append, List.flatten_singleton, List.getLast?_append_of_ne_nil _ hlast,
        List.getLast?_eq_some_getLast hlast] at hc
      cases hc
      by_contra hc
      rw [(joins_iff (by simpa using hc) _).2 ⟨hoperator, hk⟩] at hjoins
      cases hjoins
  · cases rest with
    | nil => cases hc
    | cons next rest =>
      obtain ⟨⟨_, hnext, hjoins⟩, -⟩ := List.isChain_cons_cons.1 hrest
      rw [List.flatten_cons, List.head?_append_of_ne_nil _ hnext,
        List.head?_eq_some_head hnext] at hc
      cases hc
      by_contra hc
      have hlast := hadmits _ (List.getLast_mem hne)
      rw [(joins_iff hlast _).2 ⟨hoperator, by simpa using hc⟩] at hjoins
      cases hjoins

/-- **Every character is in a run.** -/
theorem exists_stands (before after : List Char) {k : Lexeme} {c : Char} (h : k.admits c = true) :
    ∃ first left right rest, before = first ++ left ∧ after = right ++ rest ∧
      k.Stands first (left ++ c :: right) rest := by
  by_cases hoperator : k = .operator
  · refine ⟨before, [], [], after, (List.append_nil before).symm, rfl, List.cons_ne_nil c [],
      List.forall_mem_singleton.2 h, fun _ => rfl, fun hk => absurd hoperator hk,
      fun hk => absurd hoperator hk⟩
  · refine ⟨before.rdropWhile k.admits, before.rtakeWhile k.admits, after.takeWhile k.admits,
      after.dropWhile k.admits, List.rdropWhile_append_rtakeWhile.symm,
      List.takeWhile_append_dropWhile.symm, ?_⟩
    refine ⟨by simp, fun d hd => ?_, fun hk => absurd hk hoperator, fun _ d hd => ?_,
      fun _ d hd => ?_⟩
    · rcases List.mem_append.1 hd with hleft | hright
      · exact List.mem_rtakeWhile_imp hleft
      · rcases List.mem_cons.1 hright with rfl | hright
        · exact h
        · exact List.mem_takeWhile_imp hright
    · obtain ⟨hne, rfl⟩ := List.mem_getLast?_eq_getLast hd
      simpa using List.rdropWhile_last_not k.admits before hne
    · have hne : after.dropWhile k.admits ≠ [] := by
        intro hnil
        rw [hnil] at hd
        cases hd
      rw [List.head?_eq_some_head hne] at hd
      cases hd
      exact List.head_dropWhile_not k.admits hne

end Lexeme

end DiceNotation
