import DiceNotation.Program

/-!
# DiceNotation.Program.Frame

Binding powers, and the operators that wait for their right operand while it is read.

An operator that follows an operand takes it over from a waiting operator that binds less tightly,
and leaves it to one that binds at least as tightly. So a row of equal operators groups to the left.
Powers are the exception: they wait with one less than their own power and group to the right.

* `BinaryOp.power`, `Frame.power`: how tightly an operator binds to the left, and to the right;
* `Frame`: an operator or an open group that waits;
* `Operator.opening?`, `Operator.continuing?`: what an operator does where an
  operand is expected, and after one;
* `Frame.released`, `Frame.held`: the waiting operators that get the operand
  just read, and the rest;
* `Frame.close?`, `Frame.unclosed?`: what becomes of the innermost group.
-/

namespace DiceNotation

/-! ## Binding powers -/

/-- The binding power of sums and differences. -/
def sumPower : Nat := 10

/-- The binding power of products and quotients, written out or not. -/
def productPower : Nat := 20

/-- The binding power of a minus sign to the operand after it. -/
def negationPower : Nat := 25

/-- The binding power of powers. -/
def powPower : Nat := 30

/-- The binding power of dice. -/
def dicePower : Nat := 100

namespace BinaryOp

/-- How tightly an operator binds to the operand before it. -/
def power : BinaryOp → Nat
  | .add | .sub => sumPower
  | .mul | .div => productPower
  | .pow => powPower

/-- How tightly an operator binds to the operand after it. -/
def rightPower : BinaryOp → Nat
  | .pow => powPower - 1
  | op => op.power

/-- The operator that a binary operator is written as. -/
def operator : BinaryOp → Operator
  | .add => .add
  | .sub => .sub
  | .mul => .mul
  | .div => .div
  | .pow => .pow

end BinaryOp

/-! ## Frames -/

/-- What waits for an operand to be read. -/
inductive Frame where
  /-- A group, opened at `index` where an operand was expected. -/
  | group (index : Nat)
  /-- A group, opened at `index` after an operand, which it is to be multiplied with. -/
  | product (index : Nat)
  /-- The product with such a group once it is closed. The group is taken like any right factor: a
  power or dice operator after it belongs to it. -/
  | factor (index : Nat)
  /-- A minus sign where an operand was expected. -/
  | negation
  /-- The dice operator at `index`, its quantity being known. -/
  | dice (index : Nat)
  /-- The operator at `index`, its left operand being known. -/
  | binary (op : BinaryOp) (index : Nat)
  deriving DecidableEq, Repr

namespace Frame

/-- How tightly a frame holds the operand that it waits for. -/
def power : Frame → Nat
  | .group _ | .product _ => 0
  | .factor _ => productPower
  | .negation => negationPower
  | .dice _ => dicePower
  | .binary op _ => op.rightPower

/-- Whether a frame gets its operand when an operator of the given power follows it. A group waits
for its parenthesis and gets nothing else. -/
def yields (power : Nat) : Frame → Bool
  | .group _ | .product _ => false
  | frame => power ≤ frame.power

/-- Whether the operand of a frame is an expression one level deeper. The right factor of an
unwritten product is the one that is not, for its group has been read already. -/
def deepens : Frame → Bool
  | .factor _ => false
  | _ => true

/-- What a frame does with its operand. -/
def action? : Frame → Option Action
  | .group _ | .product _ => none
  | .factor index => some (.apply .mul index)
  | .negation => some .negate
  | .dice index => some (.roll index)
  | .binary op index => some (.apply op index)

/-! ## Rows of frames, the innermost first -/

/-- The frames that get their operand when an operator of the given power follows it. -/
def released (power : Nat) (frames : List Frame) : List Frame := frames.takeWhile (yields power)

/-- The frames that wait on when an operator of the given power follows. -/
def held (power : Nat) (frames : List Frame) : List Frame := frames.dropWhile (yields power)

/-- The steps that the frames take when they get their operand and the token at `seen` follows. -/
def steps (seen : Nat) (frames : List Frame) : List Step :=
  frames.filterMap fun frame => frame.action?.map (⟨·, seen⟩)

/-- The frames after the innermost group is closed, if there is a group. -/
def close? : List Frame → Option (List Frame)
  | .group _ :: outer => some outer
  | .product index :: outer => some (.factor index :: outer)
  | _ => none

/-- Where the innermost group was opened, if there is a group. -/
def unclosed? : List Frame → Option Nat
  | .group index :: _ | .product index :: _ => some index
  | _ => none

/-- How many levels of expressions the frames make. -/
def levels (frames : List Frame) : Nat := frames.countP deepens

theorem levels_cons (frame : Frame) (frames : List Frame) :
    levels (frame :: frames) = levels frames + if frame.deepens then 1 else 0 :=
  List.countP_cons

@[simp] theorem released_append_held (power : Nat) (frames : List Frame) :
    released power frames ++ held power frames = frames :=
  List.takeWhile_append_dropWhile

end Frame

/-! ## Operators between operands -/

namespace Operator

/-- What an operator does where an operand is expected: the actions that come first, and the frame
that waits for the operand. Dice without a quantity are one die. -/
def opening? (op : Operator) (index : Nat) : Option (List Action × Frame) :=
  match op with
  | .sub => some ([], .negation)
  | .leftParen => some ([], .group index)
  | .dice _ => some ([.push (.int 1)], .dice index)
  | .add | .mul | .div | .pow | .rightParen => none

/-- What an operator does after an operand: its binding power to the left, and the frame that waits
for the right operand. A closing parenthesis continues nothing. -/
def continuing? (op : Operator) (index : Nat) : Option (Nat × Frame) :=
  match op with
  | .add => some (BinaryOp.add.power, .binary .add index)
  | .sub => some (BinaryOp.sub.power, .binary .sub index)
  | .mul => some (BinaryOp.mul.power, .binary .mul index)
  | .div => some (BinaryOp.div.power, .binary .div index)
  | .pow => some (BinaryOp.pow.power, .binary .pow index)
  | .dice _ => some (dicePower, .dice index)
  | .leftParen => some (productPower, .product index)
  | .rightParen => none

@[simp] theorem continuing?_operator (op : BinaryOp) (index : Nat) :
    op.operator.continuing? index = some (op.power, .binary op index) := by
  cases op <;> rfl

end Operator

end DiceNotation
