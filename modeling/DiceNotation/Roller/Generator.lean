import DiceNotation.Roller

/-!
# DiceNotation.Roller.Generator

A roller that makes faces of random 64-bit words, without favouring any face.

* `Generator.next`: the words, first those given and then those of the SplitMix generator;
* `Generator.zone`, `Generator.face`: one face of a die. A word `w` falls on the face
  `1 + w · sides / 2 ^ 64`. That would favour some faces, so a word is passed over when the low half
  of `w · sides` lies above the zone in which all faces have equally many words.

The product is below `sides · 2 ^ 64`, so every face lies on the die (`one_le_face`, `face_le`).
-/

namespace DiceNotation.Roller

/-- A generator of 64-bit words: words to give out first, and the state of the words after them. -/
structure Generator where
  words : List UInt64 := []
  state : UInt64
  deriving DecidableEq, Repr

namespace Generator

/-- The word that a state of the SplitMix generator stands for. -/
def mix (state : UInt64) : UInt64 :=
  let z := (state ^^^ (state >>> 30)) * 0xBF58476D1CE4E5B9
  let z := (z ^^^ (z >>> 27)) * 0x94D049BB133111EB
  z ^^^ (z >>> 31)

/-- The next word. -/
def next (g : Generator) : UInt64 × Generator :=
  match g.words with
  | word :: words => (word, { g with words })
  | [] =>
    let state := g.state + 0x9E3779B97F4A7C15
    (mix state, { g with state })

/-- The greatest low half with which a word counts for a die. -/
def zone (sides : Nat) : Nat := UInt64.size - 1 - (UInt64.size - sides) % sides

/-- The face of the first of at most `tries` words that counts. -/
def faceWithin (sides : Nat) : (tries : Nat) → Generator → Nat × Generator
  | 0, g => (1, g)
  | tries + 1, g =>
    let (word, g) := g.next
    let product := word.toNat * sides
    if product % UInt64.size ≤ zone sides then (1 + product / UInt64.size, g)
    else faceWithin sides tries g

/-- More words than a generator has before it repeats itself: every given word, and one for every
state. -/
def tries (g : Generator) : Nat := g.words.length + UInt64.size

/-- The most sides a die can show, for faces are 64-bit integers. -/
def mostSides : Nat := 9223372036854775807

/-- One face of a die. -/
def face (sides : Nat) (g : Generator) : Int64 × Generator :=
  let drawn := faceWithin (min sides mostSides) g.tries g
  (Int64.ofNat drawn.1, drawn.2)

instance : Roller Generator where
  roll g count sides := draws (face sides) count g

theorem one_le_face (sides tries : Nat) (g : Generator) : 1 ≤ (faceWithin sides tries g).1 := by
  induction tries generalizing g with
  | zero => exact Nat.le_refl 1
  | succ tries ih =>
    simp only [faceWithin]
    split
    · exact Nat.le_add_right 1 _
    · exact ih _

theorem face_le {sides : Nat} (h : 0 < sides) (tries : Nat) (g : Generator) :
    (faceWithin sides tries g).1 ≤ sides := by
  induction tries generalizing g with
  | zero => exact h
  | succ tries ih =>
    simp only [faceWithin]
    split
    · have hw : g.next.1.toNat < UInt64.size := g.next.1.toNat_lt
      have : g.next.1.toNat * sides / UInt64.size < sides :=
        Nat.div_lt_of_lt_mul ((Nat.mul_lt_mul_right h).2 hw)
      omega
    · exact ih _

end Generator

end DiceNotation.Roller
