import DiceNotation.Proofs.Running
import DiceNotation.Program.Reading

/-!
# DiceNotation.Proofs.Tree

Expressions as trees: how a tree is written, where it needs parentheses, how deeply it is nested,
and what it evaluates to. Nothing here knows of binding powers waiting on a stack or of steps; the
next modules show that the reader and the run come to the same.

* `Tree`, `Tree.symbols`: trees, and the tokens that they are written as;
* `Tree.grouped`: whether there are parentheses wherever the powers of the operators ask for them;
* `Tree.levels`: how many expressions stand inside each other, beyond the outermost;
* `Tree.run`: the value of a tree. An operator evaluates its left operand, then its right one, and
  then applies itself; the tray goes through in this order, and the first failure ends it all.
-/

namespace DiceNotation

variable {σ : Type}

/-- An expression. -/
inductive Tree where
  | literal (x : Number)
  | negation (operand : Tree)
  | binary (op : BinaryOp) (left right : Tree)
  /-- One die, the letter being upper-case or not. -/
  | die (upper : Bool) (sides : Tree)
  | dice (upper : Bool) (quantity sides : Tree)
  /-- An expression in parentheses. -/
  | group (inner : Tree)
  /-- A product that is not written out: the right factor begins with a group. -/
  | product (left right : Tree)
  deriving DecidableEq

namespace Tree

/-! ## Writing trees -/

/-- The tokens that a tree is written as. -/
def symbols : Tree → List Symbol
  | literal x => [.number x]
  | negation t => .operator .sub :: t.symbols
  | binary op l r => l.symbols ++ .operator op.operator :: r.symbols
  | die upper t => .operator (.dice upper) :: t.symbols
  | dice upper l r => l.symbols ++ .operator (.dice upper) :: r.symbols
  | group t => .operator .leftParen :: (t.symbols ++ [.operator .rightParen])
  | product l r => l.symbols ++ r.symbols

/-- The number of tokens that a tree is written with. -/
def width : Tree → Nat
  | literal _ => 1
  | negation t | die _ t => 1 + t.width
  | binary _ l r | dice _ l r => l.width + 1 + r.width
  | group t => 1 + t.width + 1
  | product l r => l.width + r.width

/-! ## Parentheses -/

/-- Whether an operator of the given power that follows a tree takes all of it: no operator at the
right end of the tree holds its own operand more loosely than that. -/
def yields (power : Nat) : Tree → Bool
  | literal _ | group _ => true
  | negation t => power ≤ negationPower && t.yields power
  | die _ t | dice _ _ t => power ≤ dicePower && t.yields power
  | binary op _ r => power ≤ op.rightPower && r.yields power
  | product _ r => power ≤ productPower && r.yields power

/-- Whether an operator that holds its operand with the given power holds all of a tree: the
operator that the tree is split at binds more tightly. -/
def within (power : Nat) : Tree → Bool
  | literal _ | negation _ | die _ _ | group _ => true
  | binary op _ _ => power < op.power
  | dice _ _ _ => power < dicePower
  | product _ _ => power < productPower

/-- Whether the first token of a tree opens a group. -/
def opensGroup : Tree → Bool
  | literal _ | negation _ | die _ _ => false
  | group _ => true
  | binary _ l _ | dice _ l _ | product l _ => l.opensGroup

/-- Whether a tree has parentheses wherever they are needed. It may have more. -/
def grouped : Tree → Bool
  | literal _ => true
  | negation t => t.grouped && t.within negationPower
  | binary op l r => l.grouped && r.grouped && l.yields op.power && r.within op.rightPower
  | die _ t => t.grouped && t.within dicePower
  | dice _ l r => l.grouped && r.grouped && l.yields dicePower && r.within dicePower
  | group t => t.grouped
  | product l r =>
    l.grouped && r.grouped && l.yields productPower && r.within productPower && r.opensGroup

-- `2 ^ -3 d 4` keeps the dice with the minus sign, and `(2 ^ -3) d 4` needs its parentheses
example :
    grouped (.binary .pow (.literal (.int 2))
      (.negation (.dice false (.literal (.int 3)) (.literal (.int 4))))) = true ∧
    grouped (.dice false (.binary .pow (.literal (.int 2)) (.negation (.literal (.int 3))))
      (.literal (.int 4))) = false := by decide

/-! ## Nesting -/

/-- How many expressions stand inside each other below the outermost: groups, the operands of minus
signs and dice, and right operands are expressions of their own. Left operands are not, nor is the
right factor of a product that is not written out, whose group has a level anyway. -/
def levels : Tree → Nat
  | literal _ => 0
  | negation t | die _ t | group t => t.levels + 1
  | binary _ l r | dice _ l r => max l.levels (r.levels + 1)
  | product l r => max l.levels r.levels

/-! ## Evaluating trees -/

/-- The value of a tree whose first token has the index `start`. -/
def run [Roller σ] : Tree → (start : Nat) → Tray σ → Run σ Number
  | literal x, start, tray => ⟨finite x, [], start + 1, tray⟩
  | negation t, start, tray =>
    (t.run (start + 1) tray).bind fun x tray => ⟨finite (-x), [], start + 1 + t.width, tray⟩
  | binary op l r, start, tray =>
    let index := start + l.width
    (l.run start tray).bind fun x tray =>
      (r.run (index + 1) tray).bind fun y tray =>
        ⟨(op.apply index x y).bind finite, [], index + 1 + r.width, tray⟩
  | die _ t, start, tray =>
    (t.run (start + 1) tray).bind fun sides tray =>
      tray.rollAt start (start + 1 + t.width) (.int 1) sides
  | dice _ l r, start, tray =>
    let index := start + l.width
    (l.run start tray).bind fun quantity tray =>
      (r.run (index + 1) tray).bind fun sides tray =>
        tray.rollAt index (index + 1 + r.width) quantity sides
  | group t, start, tray =>
    (t.run (start + 1) tray).bind fun x tray => ⟨.ok x, [], start + 1 + t.width + 1, tray⟩
  | product l r, start, tray =>
    let index := start + l.width
    (l.run start tray).bind fun x tray =>
      (r.run index tray).bind fun y tray =>
        ⟨finite (x * y), [], index + r.width, tray⟩

end Tree

end DiceNotation
