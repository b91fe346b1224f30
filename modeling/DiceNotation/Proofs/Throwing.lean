import DiceNotation.Evaluation
import DiceNotation.Proofs.Running
import DiceNotation.Roller.Sampler
import DiceNotation.Roller.Stepping

/-!
# DiceNotation.Proofs.Throwing

What a tray asks of its roller. A request for dice has two sides: the count, which may refuse it,
and the throw, which depends on the roller alone.

* `Roller.throw`, `Tray.roll_of_exceeded`, `Tray.roll_of_allowed`: the two sides;
* `Roller.Exact`, `Roller.Honest`: what may be expected of a roller. Sources of random numbers that
  keep to their bounds (`Sampler.Honest`) are honest rollers;
* `Roller.Watched`: a roller that keeps what it was asked, and what it answered;
* `Tray.evaluate_watch`: watching changes nothing;
* `Tray.asked_sublist`, `Tray.evaluate_roller`: an evaluation asks for throws
  that it records, and the roller moves by them alone;
* `Tray.Fixed`, `Tray.Fixed.evaluate_eq`: dice with one side, which show the same with every roller.
-/

namespace DiceNotation

open Tray

/-! ## Throws -/

/-- How many dice a quantity counts as. -/
def Tray.diceOf (quantity : Number) : Nat :=
  if 0 < wholeOf quantity then (wholeOf quantity).toNat else 1

theorem Tray.diceOf_pos (quantity : Number) : 0 < diceOf quantity := by
  unfold diceOf
  split <;> omega

theorem Tray.wholeOf_le (x : Number) : wholeOf x ≤ Number.greatest := by
  unfold wholeOf
  exact Int64.toInt_le _

namespace Roller

variable {σ : Type} [Roller σ]

/-- Whether the dice of a request are the roller's to throw. -/
def Asks (quantity sides : Number) : Prop := 0 < wholeOf quantity ∧ 0 < wholeOf sides

instance (quantity sides : Number) : Decidable (Asks quantity sides) :=
  inferInstanceAs (Decidable (_ ∧ _))

/-- The faces for a request that is not refused. Without dice or without sides the roller is not
asked, and every die shows a zero. -/
def throw (roller : σ) (quantity sides : Number) : List Int64 × σ :=
  if Asks quantity sides then
    Roller.roll roller (diceOf quantity) (wholeOf sides).toNat
  else (List.replicate (diceOf quantity) 0, roller)

theorem throw_of_asks {quantity sides : Number} (h : Asks quantity sides) (roller : σ) :
    throw roller quantity sides = Roller.roll roller (diceOf quantity) (wholeOf sides).toNat := by
  rw [throw, if_pos h]

theorem throw_of_not_asks {quantity sides : Number} (h : ¬ Asks quantity sides) (roller : σ) :
    throw roller quantity sides = (List.replicate (diceOf quantity) 0, roller) := by
  rw [throw, if_neg h]

end Roller

namespace Tray

variable {σ : Type} [Roller σ]

/-- **The two sides of a request.** The dice are counted, which may refuse them, and then thrown. -/
theorem roll_eq (tray : Tray σ) (quantity sides : Number) :
    tray.roll quantity sides =
      if (tray.count (diceOf quantity)).exceeded then
        (.error .tooManyRolls, tray.count (diceOf quantity))
      else
        match Roller.throw tray.roller quantity sides with
        | ([], roller) => (.error .noFaces, { tray.count (diceOf quantity) with roller })
        | (faces, roller) => (.ok faces, { tray.count (diceOf quantity) with roller }) := by
  by_cases hdice : 0 < wholeOf quantity
  · have hcount : diceOf quantity = (wholeOf quantity).toNat := by rw [diceOf, if_pos hdice]
    have hfaces : (tray.count (diceOf quantity)).faces (diceOf quantity) (wholeOf sides) =
        ((Roller.throw tray.roller quantity sides).1,
          { tray.count (diceOf quantity) with
            roller := (Roller.throw tray.roller quantity sides).2 }) := by
      by_cases hsides : 0 < wholeOf sides
      · rw [Roller.throw_of_asks ⟨hdice, hsides⟩, Tray.faces, if_pos hsides]
        rfl
      · rw [Roller.throw_of_not_asks (fun hasks => hsides hasks.2), Tray.faces, if_neg hsides]
        rfl
    simp only [roll, hdice, if_true, ← hcount, hfaces]
    rcases Roller.throw tray.roller quantity sides with ⟨_ | ⟨face, faces⟩, roller⟩ <;> rfl
  · -- No dice show one zero, which is what a die without sides shows.
    have hcount : diceOf quantity = 1 := by rw [diceOf, if_neg hdice]
    have hthrow : Roller.throw tray.roller quantity sides = ([0], tray.roller) := by
      rw [Roller.throw_of_not_asks (fun hasks => hdice hasks.1), hcount]
      rfl
    simp only [roll, hdice, if_false, hcount, hthrow]
    rfl

end Tray

/-- What every request for dice keeps, an evaluation keeps. -/
theorem Tray.evaluate_invariant {σ : Type} [Roller σ] {I : Tray σ → List RollRecord → Prop}
    (herror : ∀ {tray tray' : Tray σ} {records quantity sides e},
      I tray records → tray.roll quantity sides = (.error e, tray') → I tray' records)
    (hok : ∀ {tray tray' : Tray σ} {records quantity sides faces},
      I tray records → tray.roll quantity sides = (.ok faces, tray') →
        I tray' (records ++ [⟨sides, faces⟩]))
    (tray : Tray σ) (e : Expression) (h : I tray.reset []) :
    I (tray.evaluate e).2 (tray.evaluate e).1.rolls :=
  Program.runSteps_invariant (I := I) herror hok (Program.ofTokens e.tokens).seen
    (Program.ofTokens e.tokens).steps [] tray.reset [] h

theorem Tray.roll_ceiling {σ : Type} [Roller σ] {t t' : Tray σ} {quantity sides : Number}
    {result : Except RollError (List Int64)} (h : t.roll quantity sides = (result, t')) :
    t'.ceiling = t.ceiling := by
  rw [roll_eq] at h
  split at h
  · cases h
    rfl
  · split at h <;> cases h <;> rfl

theorem Tray.evaluate_ceiling_eq {σ : Type} [Roller σ] (t : Tray σ) (e : Expression) :
    (t.evaluate e).2.ceiling = t.ceiling :=
  evaluate_invariant (I := fun t' _ => t'.ceiling = t.ceiling)
    (fun h hroll => (roll_ceiling hroll).trans h)
    (fun h hroll => (roll_ceiling hroll).trans h) t e rfl

/-! ## Rollers that do as they are asked -/

namespace Roller

/-- A roller that gives as many faces as it is asked for. -/
class Exact (σ : Type) [Roller σ] : Prop where
  length_roll : ∀ (roller : σ) {count sides : Nat}, 0 < count → 0 < sides →
    (Roller.roll roller count sides).1.length = count

/-- A roller that gives as many faces as it is asked for, each a face of the
die. No die has more sides than the greatest number. -/
class Honest (σ : Type) [Roller σ] : Prop extends Exact σ where
  one_le_face : ∀ (roller : σ) {count sides : Nat}, 0 < count → 0 < sides →
    sides ≤ Number.greatest.toNat → ∀ face ∈ (Roller.roll roller count sides).1, 1 ≤ face.toInt
  face_le : ∀ (roller : σ) {count sides : Nat}, 0 < count → 0 < sides →
    sides ≤ Number.greatest.toNat → ∀ face ∈ (Roller.roll roller count sides).1,
      face.toInt ≤ sides

variable {σ : Type} [Roller σ]

theorem length_throw [Exact σ] (roller : σ) (quantity sides : Number) :
    (throw roller quantity sides).1.length = diceOf quantity := by
  by_cases h : Asks quantity sides
  · rw [throw_of_asks h]
    exact Exact.length_roll roller (diceOf_pos quantity) (by have := h.2; omega)
  · rw [throw_of_not_asks h, List.length_replicate]

end Roller

namespace Tray

variable {σ : Type} [Roller σ]

/-- A request over the ceiling is refused, and the roller is not asked. -/
theorem roll_of_exceeded {tray : Tray σ} {quantity : Number}
    (h : (tray.count (diceOf quantity)).exceeded = true) (sides : Number) :
    tray.roll quantity sides = (.error .tooManyRolls, tray.count (diceOf quantity)) := by
  rw [roll_eq, if_pos h]

/-- Any other request is granted by an exact roller. -/
theorem roll_of_allowed [Roller.Exact σ] {tray : Tray σ} {quantity : Number}
    (h : (tray.count (diceOf quantity)).exceeded = false) (sides : Number) :
    tray.roll quantity sides =
      (.ok (Roller.throw tray.roller quantity sides).1,
        { tray.count (diceOf quantity) with
          roller := (Roller.throw tray.roller quantity sides).2 }) := by
  have hlength := Roller.length_throw tray.roller quantity sides
  rw [roll_eq, h, if_neg Bool.false_ne_true]
  rcases hthrow : Roller.throw tray.roller quantity sides with ⟨_ | ⟨face, faces⟩, roller⟩
  · -- There is at least one die, so there are faces.
    rw [hthrow] at hlength
    exact absurd hlength (Nat.ne_of_lt (diceOf_pos quantity))
  · rfl

end Tray

/-! ## The rollers of this library -/

namespace Roller

theorem forall_mem_draws {σ α : Type} {draw : σ → α × σ} {P : α → Prop}
    (h : ∀ state, P (draw state).1) (count : Nat) (state : σ) :
    ∀ x ∈ (draws draw count state).1, P x := by
  suffices ∀ count state (drawn : List α), (∀ x ∈ drawn, P x) →
      ∀ x ∈ (drawsOnto draw count state drawn).1, P x from this count state [] nofun
  intro count
  induction count with
  | zero => exact fun _ drawn hdrawn x hx => hdrawn x (List.mem_reverse.1 hx)
  | succ count ih =>
    intro state drawn hdrawn
    exact ih _ _ (List.forall_mem_cons.2 ⟨h state, hdrawn⟩)

/-- A face lies on its die, and so does the word it is kept in. -/
theorem Generator.toInt_face {sides : Nat} (hpos : 0 < sides) (g : Generator) :
    1 ≤ (Generator.face sides g).1.toInt ∧ (Generator.face sides g).1.toInt ≤ sides := by
  have hmost : 0 < min sides Generator.mostSides := Nat.lt_min.2 ⟨hpos, Nat.zero_lt_succ _⟩
  have hone := Generator.one_le_face (min sides Generator.mostSides) g.tries g
  have hle := Generator.face_le hmost g.tries g
  rw [Generator.face]
  generalize (Generator.faceWithin (min sides Generator.mostSides) g.tries g).1 = n at hone hle ⊢
  have hfits : n ≤ Generator.mostSides := Nat.le_trans hle (Nat.min_le_right ..)
  have hword : (Int64.ofNat n).toInt = (n : Int) :=
    Int64.toInt_ofNat_of_lt (by unfold Generator.mostSides at hfits; omega)
  have hsides : n ≤ sides := Nat.le_trans hle (Nat.min_le_left ..)
  rw [hword]
  omega

instance : Honest Generator where
  length_roll _ _ := by simp [Roller.roll]
  one_le_face g count sides _ hsides _ :=
    forall_mem_draws (fun g => (Generator.toInt_face hsides g).1) count g
  face_le g count sides _ hsides _ :=
    forall_mem_draws (fun g => (Generator.toInt_face hsides g).2) count g

end Roller

/-- A source of random numbers that draws no number beyond its bounds. -/
class Sampler.Honest (σ : Type) [Sampler σ] : Prop where
  one_le_sample : ∀ {high : Nat} (source : σ), 0 < high → high ≤ Number.greatest.toNat →
    1 ≤ (Sampler.sample high source).1.toInt
  sample_le : ∀ {high : Nat} (source : σ), 0 < high → high ≤ Number.greatest.toNat →
    (Sampler.sample high source).1.toInt ≤ high

instance : Sampler.Honest Roller.Generator where
  one_le_sample g hhigh _ := (Roller.Generator.toInt_face hhigh g).1
  sample_le g hhigh _ := (Roller.Generator.toInt_face hhigh g).2

namespace Roller

/-- A face that is drawn lies on its die, also where the die has more sides than
can be drawn from. -/
theorem Sampled.toInt_face {σ : Type} [Sampler σ] [Sampler.Honest σ] {sides : Nat}
    (hpos : 0 < sides) (s : Sampled σ) :
    1 ≤ (Sampled.face sides s).1.toInt ∧ (Sampled.face sides s).1.toInt ≤ sides := by
  have hhigh : 0 < min sides Generator.mostSides := Nat.lt_min.2 ⟨hpos, Nat.zero_lt_succ _⟩
  have hmost : min sides Generator.mostSides ≤ Number.greatest.toNat := Nat.min_le_right ..
  have hsides : min sides Generator.mostSides ≤ sides := Nat.min_le_left ..
  have hle := Sampler.Honest.sample_le s.source hhigh hmost
  exact ⟨Sampler.Honest.one_le_sample s.source hhigh hmost, Int.le_trans hle (by omega)⟩

instance {σ : Type} [Sampler σ] [Sampler.Honest σ] : Honest (Sampled σ) where
  length_roll _ _ := by simp [Roller.roll]
  one_le_face s count sides _ hsides _ :=
    forall_mem_draws (fun s => (Sampled.toInt_face hsides s).1) count s
  face_le s count sides _ hsides _ :=
    forall_mem_draws (fun s => (Sampled.toInt_face hsides s).2) count s

theorem Stepping.toInt_face {sides : Nat} (hpos : 0 < sides)
    (hmost : sides ≤ Number.greatest.toNat) (s : Stepping) :
    1 ≤ (Stepping.face sides s).1.toInt ∧ (Stepping.face sides s).1.toInt ≤ sides := by
  have hbound : sides < 2 ^ 63 := by
    have : Number.greatest.toNat = 9223372036854775807 := rfl
    omega
  have hsides : (UInt64.ofNat sides).toNat = sides := UInt64.toNat_ofNat_of_lt (by
    have : UInt64.size = 2 ^ 64 := rfl
    omega)
  have hmod : ((s.next - 1) % UInt64.ofNat sides).toNat < sides := by
    rw [UInt64.toNat_mod, hsides]
    exact Nat.mod_lt _ hpos
  rw [Stepping.face]
  generalize (s.next - 1) % UInt64.ofNat sides = w at hmod ⊢
  have hface : (w + 1).toNat = w.toNat + 1 := by
    rw [UInt64.toNat_add]
    exact Nat.mod_eq_of_lt (by simp; omega)
  have hword : (w + 1).toInt64.toInt = ((w + 1).toNat : Int) := by
    have hnat : (w + 1).toInt64 = Int64.ofNat (w + 1).toNat :=
      (congrArg UInt64.toInt64 UInt64.ofNat_toNat).symm
    rw [hnat]
    exact Int64.toInt_ofNat_of_lt (by omega)
  simp only [hword, hface]
  omega

instance : Honest Stepping where
  length_roll _ _ := by simp [Roller.roll]
  one_le_face s count sides _ hsides hmost :=
    forall_mem_draws (fun s => (Stepping.toInt_face hsides hmost s).1) count s
  face_le s count sides _ hsides hmost :=
    forall_mem_draws (fun s => (Stepping.toInt_face hsides hmost s).2) count s

/-! ## Watched rollers -/

/-- What a roller was asked for, and its answer. -/
structure Throw where
  count : Nat
  sides : Nat
  faces : List Int64
  deriving DecidableEq, Repr

/-- A roller after it has been asked for throws. -/
def afterThrows {σ : Type} [Roller σ] (roller : σ) (throws : List Throw) : σ :=
  throws.foldl (fun roller t => (Roller.roll roller t.count t.sides).2) roller

theorem afterThrows_append {σ : Type} [Roller σ] (roller : σ) (first second : List Throw) :
    afterThrows roller (first ++ second) = afterThrows (afterThrows roller first) second :=
  List.foldl_append

@[simp] theorem afterThrows_singleton {σ : Type} [Roller σ] (roller : σ) (t : Throw) :
    afterThrows roller [t] = (Roller.roll roller t.count t.sides).2 := rfl

/-- A roller that keeps what it was asked. -/
structure Watched (σ : Type) where
  inner : σ
  asked : List Throw := []

variable {σ : Type} [Roller σ]

instance : Roller (Watched σ) where
  roll w count sides :=
    let (faces, inner) := Roller.roll w.inner count sides
    (faces, ⟨inner, w.asked ++ [⟨count, sides, faces⟩]⟩)

instance [Exact σ] : Exact (Watched σ) where
  length_roll w _ _ := Exact.length_roll w.inner

instance [Honest σ] : Honest (Watched σ) where
  one_le_face w _ _ := Honest.one_le_face w.inner
  face_le w _ _ := Honest.face_le w.inner

/-- Watching does not change a throw. What was asked grows by the throw, if it was the roller's. -/
theorem throw_watched (w : Watched σ) (quantity sides : Number) :
    throw w quantity sides =
      ((throw w.inner quantity sides).1,
        ⟨(throw w.inner quantity sides).2,
          if Asks quantity sides then
            w.asked ++ [⟨diceOf quantity, (wholeOf sides).toNat, (throw w.inner quantity sides).1⟩]
          else w.asked⟩) := by
  by_cases h : Asks quantity sides
  · rw [throw_of_asks h, throw_of_asks h, if_pos h]
    rfl
  · rw [throw_of_not_asks h, throw_of_not_asks h, if_neg h]

end Roller

namespace RollRecord

/-- The throw that a record is of, if its dice were the roller's to throw. -/
def thrown (r : RollRecord) : Roller.Throw := ⟨r.faces.length, (wholeOf r.sides).toNat, r.faces⟩

end RollRecord

namespace Tray

variable {σ : Type}

/-- The tray with its roller watched from now on. -/
def watch (t : Tray σ) : Tray (Roller.Watched σ) := ⟨t.ceiling, t.rolled, ⟨t.roller, []⟩⟩

/-- The tray without the watch on its roller. -/
def unwatch (t : Tray (Roller.Watched σ)) : Tray σ := ⟨t.ceiling, t.rolled, t.roller.inner⟩

variable [Roller σ]

/-- Watching does not change the answer to a request. -/
theorem roll_unwatch (t : Tray (Roller.Watched σ)) (quantity sides : Number) :
    (t.roll quantity sides).1 = (t.unwatch.roll quantity sides).1 ∧
      (t.roll quantity sides).2.unwatch = (t.unwatch.roll quantity sides).2 := by
  have hexceeded : (t.unwatch.count (diceOf quantity)).exceeded =
      (t.count (diceOf quantity)).exceeded := rfl
  have hinner : t.unwatch.roller = t.roller.inner := rfl
  rw [roll_eq, roll_eq, hexceeded, hinner, Roller.throw_watched]
  rcases Roller.throw t.roller.inner quantity sides with ⟨_ | ⟨face, faces⟩, roller⟩ <;>
    split <;> exact ⟨rfl, rfl⟩

/-- **Watching changes nothing.** -/
theorem evaluate_watch (t : Tray σ) (e : Expression) :
    (t.watch.evaluate e).1 = (t.evaluate e).1 ∧
      (t.watch.evaluate e).2.unwatch = (t.evaluate e).2 := by
  have hrelated := Program.runSteps_related (R := fun w t => unwatch w = t)
    (fun {w t} h quantity sides => by subst h; exact w.roll_unwatch quantity sides)
    (Program.ofTokens e.tokens).seen (Program.ofTokens e.tokens).steps []
    t.watch.reset t.reset rfl
  obtain ⟨hresult, hrolls, -, htray⟩ := hrelated
  refine ⟨?_, htray⟩
  simp only [evaluate, Program.run, Program.runOn, hresult, hrolls]

/-- What an evaluation asks of the roller. -/
def asked (t : Tray σ) (e : Expression) : List Roller.Throw := (t.watch.evaluate e).2.roller.asked

variable [Roller.Exact σ]

/-- A granted request of a watched tray: its faces, and the roller after it. -/
theorem roll_watched_ok {t t' : Tray (Roller.Watched σ)} {quantity sides : Number}
    {faces : List Int64} (h : t.roll quantity sides = (.ok faces, t')) :
    faces = (Roller.throw t.roller.inner quantity sides).1 ∧
      t'.roller.inner = (Roller.throw t.roller.inner quantity sides).2 ∧
      t'.roller.asked = t.roller.asked ++
        if Roller.Asks quantity sides then [RollRecord.thrown ⟨sides, faces⟩] else [] := by
  by_cases hexceeded : (t.count (diceOf quantity)).exceeded = true
  · rw [roll_of_exceeded hexceeded] at h
    cases h
  · rw [roll_of_allowed (by simpa using hexceeded), Roller.throw_watched] at h
    cases h
    refine ⟨rfl, rfl, ?_⟩
    simp only [RollRecord.thrown, Roller.length_throw]
    split <;> simp

/-- A request that is refused does not reach the roller. -/
theorem roll_error {t t' : Tray σ} {quantity sides : Number} {e : RollError}
    (h : t.roll quantity sides = (.error e, t')) : t'.roller = t.roller := by
  by_cases hexceeded : (t.count (diceOf quantity)).exceeded = true
  · rw [roll_of_exceeded hexceeded] at h
    cases h
    rfl
  · rw [roll_of_allowed (by simpa using hexceeded)] at h
    cases h

/-- A roller is asked for nothing but the throws of the records, in their order. -/
theorem asked_sublist (t : Tray σ) (e : Expression) :
    (t.asked e).Sublist ((t.evaluate e).1.rolls.map RollRecord.thrown) := by
  rw [← (t.evaluate_watch e).1]
  refine evaluate_invariant (I := fun (t : Tray (Roller.Watched σ)) records =>
    t.roller.asked.Sublist (records.map RollRecord.thrown)) ?_ ?_ t.watch e (List.nil_sublist _)
  · intro t t' records quantity sides why h hroll
    rw [roll_error hroll]
    exact h
  · intro t t' records quantity sides faces h hroll
    rw [(roll_watched_ok hroll).2.2, List.map_append]
    refine h.append ?_
    split
    · exact List.Sublist.refl _
    · exact List.nil_sublist _

/-- Nothing else moves the roller. -/
theorem evaluate_roller (t : Tray σ) (e : Expression) :
    (t.evaluate e).2.roller = Roller.afterThrows t.roller (t.asked e) := by
  rw [← (t.evaluate_watch e).2]
  refine evaluate_invariant (I := fun (t' : Tray (Roller.Watched σ)) _ =>
    t'.roller.inner = Roller.afterThrows t.roller t'.roller.asked) ?_ ?_ t.watch e rfl
  · intro t' t'' _ quantity sides why h hroll
    rw [roll_error hroll]
    exact h
  · intro t' t'' _ quantity sides faces h hroll
    obtain ⟨hfaces, hinner, hasked⟩ := roll_watched_ok hroll
    -- The record has as many faces as the roller was asked for.
    have hlength := Roller.length_throw t'.roller.inner quantity sides
    rw [hinner, hasked]
    by_cases hasks : Roller.Asks quantity sides
    · rw [if_pos hasks, Roller.afterThrows_append, ← h, Roller.throw_of_asks hasks]
      simp only [Roller.afterThrows_singleton, RollRecord.thrown, hfaces, hlength]
    · rw [if_neg hasks, List.append_nil, ← h, Roller.throw_of_not_asks hasks]

end Tray

/-! ## Fixed dice -/

/-- Dice with one side show ones. -/
theorem Roller.throw_of_single {σ : Type} [Roller σ] [Honest σ] (roller : σ)
    {quantity sides : Number} (h : Asks quantity sides → wholeOf sides ≤ 1) :
    (throw roller quantity sides).1 =
      List.replicate (diceOf quantity) (if Asks quantity sides then 1 else 0) := by
  by_cases hasks : Asks quantity sides
  · have hsingle : wholeOf sides = 1 := Int.le_antisymm (h hasks) hasks.2
    rw [if_pos hasks, List.eq_replicate_iff]
    refine ⟨length_throw roller quantity sides, fun face hface => ?_⟩
    rw [throw_of_asks hasks, hsingle] at hface
    have hone := Honest.one_le_face roller (diceOf_pos quantity) Nat.one_pos (by decide) face hface
    have hle := Honest.face_le roller (diceOf_pos quantity) Nat.one_pos (by decide) face hface
    exact Int64.toInt_inj.1 (Int.le_antisymm hle hone)
  · rw [if_neg hasks, throw_of_not_asks hasks]

namespace Tray

variable {σ τ : Type} [Roller σ] [Roller τ]

/-- Whether no die that an evaluation throws can show more than one face. -/
def Fixed (t : Tray σ) (e : Expression) : Prop := ∀ throw ∈ t.asked e, throw.sides ≤ 1

instance (t : Tray σ) (e : Expression) : Decidable (t.Fixed e) :=
  inferInstanceAs (Decidable (∀ throw ∈ t.asked e, throw.sides ≤ 1))

/-- What was asked stays asked. -/
theorem asked_roll [Roller.Exact σ] (t : Tray (Roller.Watched σ)) (quantity sides : Number) :
    t.roller.asked ⊆ (t.roll quantity sides).2.roller.asked := by
  rcases hroll : t.roll quantity sides with ⟨result, t'⟩
  cases result with
  | error e => rw [roll_error hroll]; exact List.Subset.refl _
  | ok faces => rw [(roll_watched_ok hroll).2.2]; exact List.subset_append_left ..

/-- A request for dice with one side, if any is thrown, is answered alike by honest rollers. -/
theorem roll_alike [Roller.Honest σ] [Roller.Honest τ] {t : Tray (Roller.Watched σ)} {t' : Tray τ}
    (hceiling : t.ceiling = t'.ceiling) (hrolled : t.rolled = t'.rolled) (quantity sides : Number)
    (h : ∀ throw ∈ (t.roll quantity sides).2.roller.asked, throw.sides ≤ 1) :
    (t.roll quantity sides).1 = (t'.roll quantity sides).1 ∧
      (t.roll quantity sides).2.ceiling = (t'.roll quantity sides).2.ceiling ∧
      (t.roll quantity sides).2.rolled = (t'.roll quantity sides).2.rolled := by
  have hcounted : (t.count (diceOf quantity)).rolled = (t'.count (diceOf quantity)).rolled := by
    simp [count, hrolled]
  have hexceeded : (t.count (diceOf quantity)).exceeded =
      (t'.count (diceOf quantity)).exceeded := by
    simp [exceeded, hceiling, hcounted]
  cases hover : (t'.count (diceOf quantity)).exceeded with
  | true =>
    rw [roll_of_exceeded (hexceeded.trans hover), roll_of_exceeded hover]
    exact ⟨rfl, hceiling, hcounted⟩
  | false =>
    have hroll := roll_of_allowed (hexceeded.trans hover) sides
    have hsingle : Roller.Asks quantity sides → wholeOf sides ≤ 1 := by
      intro hasks
      have hmem := h (RollRecord.thrown ⟨sides, (Roller.throw t.roller quantity sides).1⟩) (by
        rw [hroll, (roll_watched_ok hroll).2.2, if_pos hasks]
        simp)
      have hpos := hasks.2
      simp only [RollRecord.thrown] at hmem
      omega
    rw [hroll, roll_of_allowed hover, Roller.throw_of_single t.roller hsingle,
      Roller.throw_of_single t'.roller hsingle]
    exact ⟨rfl, hceiling, hcounted⟩

/-- **Fixed dice.** An evaluation whose dice can show one face each is the same
with every roller. -/
theorem Fixed.evaluate_eq [Roller.Honest σ] [Roller.Honest τ] {t : Tray σ} {e : Expression}
    (h : t.Fixed e) {t' : Tray τ} (hceiling : t'.ceiling = t.ceiling) :
    (t'.evaluate e).1 = (t.evaluate e).1 := by
  rw [← (t.evaluate_watch e).1]
  obtain ⟨hresult, hrolls, -, -⟩ := Program.runSteps_related_while
    (R := fun (w : Tray (Roller.Watched σ)) (t : Tray τ) =>
      w.ceiling = t.ceiling ∧ w.rolled = t.rolled)
    (G := fun w => ∀ throw ∈ w.roller.asked, throw.sides ≤ 1)
    (fun {w quantity sides} h throw hmem => h throw (w.asked_roll quantity sides hmem))
    (fun hR quantity sides => roll_alike hR.1 hR.2 quantity sides)
    (Program.ofTokens e.tokens).seen (Program.ofTokens e.tokens).steps [] t.watch.reset t'.reset
    ⟨hceiling.symm, rfl⟩ h
  simp only [evaluate, Program.run, Program.runOn, hresult, hrolls]

end Tray

end DiceNotation
