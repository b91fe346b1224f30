import Mathlib.Computability.Language
import DiceNotation.Proofs.Scanning.Runs

/-!
# DiceNotation.Proofs.Scanning.Patterns

The patterns that a text is read with, and the runs that they give when each match is the longest
there is. The pattern of numbers is an elaborate one: it reads digits and then, after the first
point, points as well. It still reads whatever is made of digits and points and nothing else.

* `Lexeme.pattern`, `Lexeme.mem_pattern`: the patterns, and what they match;
* `Lexeme.Munch`, `Lexeme.munch_iff`: a longest match is a run that stands at the front.
-/

namespace DiceNotation

open Computability

/-! ## Patterns -/

/-- Any one character with a property. -/
def oneOf (p : Char → Bool) : Language Char := {cs | ∃ c, p c = true ∧ cs = [c]}

/-- A row of characters with a property. -/
theorem mem_kstar_oneOf {p : Char → Bool} {cs : List Char} :
    cs ∈ (oneOf p)∗ ↔ ∀ c ∈ cs, p c = true := by
  rw [Language.mem_kstar]
  constructor
  · rintro ⟨rows, rfl, hrows⟩ c hc
    obtain ⟨row, hrow, hc⟩ := List.mem_flatten.1 hc
    obtain ⟨d, hd, rfl⟩ := hrows row hrow
    rwa [List.mem_singleton.1 hc]
  · intro hcs
    refine ⟨cs.map fun c => [c], List.flatMap_singleton' cs |>.symm, ?_⟩
    intro row hrow
    obtain ⟨c, hc, rfl⟩ := List.mem_map.1 hrow
    exact ⟨c, hcs c hc, rfl⟩

theorem mem_oneOf_mul {p : Char → Bool} {l : Language Char} {cs : List Char} :
    cs ∈ oneOf p * l ↔ ∃ c more, p c = true ∧ more ∈ l ∧ cs = c :: more := by
  rw [Language.mem_mul]
  constructor
  · rintro ⟨_, ⟨c, hc, rfl⟩, more, hmore, rfl⟩
    exact ⟨c, more, hc, hmore, rfl⟩
  · rintro ⟨c, more, hc, hmore, rfl⟩
    exact ⟨[c], ⟨c, hc, rfl⟩, more, hmore, rfl⟩

/-- A row of at least one character with a property. -/
theorem mem_oneOf_mul_kstar {p : Char → Bool} {cs : List Char} :
    cs ∈ oneOf p * (oneOf p)∗ ↔ cs ≠ [] ∧ ∀ c ∈ cs, p c = true := by
  rw [mem_oneOf_mul]
  constructor
  · rintro ⟨c, more, hc, hmore, rfl⟩
    exact ⟨List.cons_ne_nil c more, List.forall_mem_cons.2 ⟨hc, mem_kstar_oneOf.1 hmore⟩⟩
  · rintro ⟨hne, hcs⟩
    obtain ⟨c, more, rfl⟩ := List.exists_cons_of_ne_nil hne
    obtain ⟨hc, hmore⟩ := List.forall_mem_cons.1 hcs
    exact ⟨c, more, hc, mem_kstar_oneOf.2 hmore, rfl⟩

namespace Lexeme

/-- The pattern of a kind of runs. A number begins with a digit or a point and goes on with digits;
from the first point after that it goes on with points too. -/
def pattern : Lexeme → Language Char
  | .number => oneOf isNumeric *
      ((oneOf Char.isDigit)∗ * (1 + oneOf (· == '.') * (oneOf isNumeric)∗))
  | .operator => oneOf (admits .operator)
  | .unrecognized => oneOf (admits .unrecognized) * (oneOf (admits .unrecognized))∗
  | .blank => oneOf (admits .blank) * (oneOf (admits .blank))∗

/-- **The pattern of numbers** matches what is made of digits and points. -/
theorem mem_pattern_number {cs : List Char} :
    cs ∈ pattern .number ↔ cs ≠ [] ∧ ∀ c ∈ cs, isNumeric c = true := by
  have hdigit : ∀ {c : Char}, c.isDigit = true → isNumeric c = true :=
    fun h => Decimal.isNumeric_iff.2 (.inl h)
  unfold pattern
  rw [mem_oneOf_mul]
  constructor
  · rintro ⟨c, more, hc, hmore, rfl⟩
    refine ⟨List.cons_ne_nil c more, List.forall_mem_cons.2 ⟨hc, ?_⟩⟩
    obtain ⟨whole, hwhole, rest, hrest, rfl⟩ := Language.mem_mul.1 hmore
    intro d hd
    rcases List.mem_append.1 hd with hd | hd
    · exact hdigit (mem_kstar_oneOf.1 hwhole d hd)
    · rcases (Language.mem_add _ _ _).1 hrest with hnil | hpoint
      · rw [(Language.mem_one rest).1 hnil] at hd
        cases hd
      · obtain ⟨point, fraction, hfirst, hfraction, rfl⟩ := mem_oneOf_mul.1 hpoint
        rcases List.mem_cons.1 hd with rfl | hd
        · exact Decimal.isNumeric_iff.2 (.inr (beq_iff_eq.1 hfirst))
        · exact mem_kstar_oneOf.1 hfraction d hd
  · rintro ⟨hne, hcs⟩
    obtain ⟨c, more, rfl⟩ := List.exists_cons_of_ne_nil hne
    obtain ⟨hc, hmore⟩ := List.forall_mem_cons.1 hcs
    refine ⟨c, more, hc, Language.mem_mul.2 ?_, rfl⟩
    obtain ⟨whole, hwhole, rfl | ⟨fraction, rfl⟩⟩ := Decimal.split_run hmore
    · refine ⟨more, mem_kstar_oneOf.2 hwhole, [], ?_, List.append_nil more⟩
      exact (Language.mem_add _ _ _).2 (.inl Language.nil_mem_one)
    · refine ⟨whole, mem_kstar_oneOf.2 hwhole, '.' :: fraction, ?_, rfl⟩
      have hfraction : ∀ d ∈ fraction, isNumeric d = true := fun d hd =>
        hmore d (List.mem_append_right _ (List.mem_cons_of_mem _ hd))
      refine (Language.mem_add _ _ _).2 (.inr (mem_oneOf_mul.2 ?_))
      exact ⟨'.', fraction, rfl, mem_kstar_oneOf.2 hfraction, rfl⟩

/-- **What a pattern matches**: characters of its kind, at least one, and of the
operators just one. -/
theorem mem_pattern {k : Lexeme} {cs : List Char} :
    cs ∈ k.pattern ↔
      cs ≠ [] ∧ (∀ c ∈ cs, k.admits c = true) ∧ (k = .operator → cs.length = 1) := by
  cases k with
  | number => rw [mem_pattern_number]; simp [admits]
  | unrecognized => unfold pattern; rw [mem_oneOf_mul_kstar]; simp
  | blank => unfold pattern; rw [mem_oneOf_mul_kstar]; simp
  | operator =>
    constructor
    · rintro ⟨c, hc, rfl⟩
      exact ⟨List.cons_ne_nil c [], List.forall_mem_singleton.2 hc, fun _ => rfl⟩
    · rintro ⟨-, hcs, hsingle⟩
      obtain ⟨c, rfl⟩ := List.length_eq_one_iff.1 (hsingle rfl)
      exact ⟨c, hcs c List.mem_cons_self, rfl⟩

/-! ## Longest matches -/

/-- A match at the front of a text that is no shorter than any other, of any pattern. -/
structure Munch (k : Lexeme) (text run rest : List Char) : Prop where
  split : text = run ++ rest
  mem : run ∈ k.pattern
  longest : ∀ (k' : Lexeme) (run' : List Char), run' <+: text → run' ∈ k'.pattern →
    run'.length ≤ run.length

/-- **A longest match** is a run that stands at the front. -/
theorem munch_iff {k : Lexeme} {text run rest : List Char} :
    k.Munch text run rest ↔ text = run ++ rest ∧ k.Stands [] run rest := by
  constructor
  · rintro ⟨rfl, hmem, hlongest⟩
    obtain ⟨hne, hadmits, hsingle⟩ := mem_pattern.1 hmem
    refine ⟨rfl, hne, hadmits, hsingle, nofun, fun hoperator c hc => ?_⟩
    by_contra hc'
    -- One character more would make a longer match.
    obtain ⟨more, rfl⟩ : ∃ more, rest = c :: more := List.head?_eq_some_iff.1 hc
    have hlonger : run ++ [c] ∈ k.pattern := by
      refine mem_pattern.2 ⟨by simp, ?_, fun hk => absurd hk hoperator⟩
      exact List.forall_mem_append.2 ⟨hadmits, List.forall_mem_singleton.2 (by simpa using hc')⟩
    have hprefix : run ++ [c] <+: run ++ c :: more := ⟨more, by simp⟩
    have hle := hlongest k (run ++ [c]) hprefix hlonger
    simp at hle
  · rintro ⟨rfl, hstands⟩
    refine ⟨rfl, mem_pattern.2 ⟨hstands.nonempty, hstands.admits, hstands.single⟩, ?_⟩
    intro k' run' hprefix hmem
    obtain ⟨hne', hadmits', hsingle'⟩ := mem_pattern.1 hmem
    by_contra hlonger
    replace hlonger : run.length < run'.length := Nat.not_le.1 hlonger
    obtain ⟨tail, rfl⟩ : run <+: run' :=
      List.prefix_of_prefix_length_le (List.prefix_append run rest) hprefix (Nat.le_of_lt hlonger)
    -- A longer match is of the same kind, and goes on with a character of it.
    obtain rfl : k = k' := by
      have hhead := List.head_mem hstands.nonempty
      exact eq_of_admits (hstands.admits _ hhead) (hadmits' _ (List.mem_append_left tail hhead))
    have hoperator : k ≠ .operator := by
      intro hk
      rw [hsingle' hk, hstands.single hk] at hlonger
      exact Nat.lt_irrefl 1 hlonger
    obtain ⟨more, rfl⟩ := (List.prefix_append_right_inj run).1 hprefix
    cases tail with
    | nil => simp at hlonger
    | cons c tail =>
      have hnext := hstands.right hoperator c rfl
      rw [hadmits' c (List.mem_append_right run List.mem_cons_self)] at hnext
      cases hnext

end Lexeme

end DiceNotation
