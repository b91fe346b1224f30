import DiceNotation.Operator
import DiceNotation.RollRecord

/-!
# DiceNotation.Token

The tokens of an expression. A token knows where it stands in the text, and
carries what is known about it:

* `TokenError`: what is wrong at a token, found when the text was split or when it was evaluated;
* the record of the roll that a dice operator made;
* the record of the roll whose operand ended at the token.

An error that a token carries is never replaced (`Token.mark`); a later roll
replaces an earlier one.
-/

namespace DiceNotation

/-! ## Errors at a token -/

/-- The kinds of errors at a token. -/
inductive ErrorKind where
  /-- A run of digits and points that is no number. -/
  | badNumber
  /-- A run of characters that mean nothing. -/
  | badCharacters
  /-- A token that does not fit its place, or an operator that failed. -/
  | badOperator
  /-- A dice operator that would roll too many dice. -/
  | tooManyRolls
  deriving DecidableEq, Repr

namespace ErrorKind

/-- The name that a kind is reported by. -/
def name : ErrorKind → String
  | .badNumber => "badNum"
  | .badCharacters => "badChars"
  | .badOperator => "badOp"
  | .tooManyRolls => "tooManyRolls"

end ErrorKind

/-- What is wrong at a token. -/
structure TokenError where
  kind : ErrorKind
  message : String
  deriving DecidableEq, Repr

namespace TokenError

/-- A run of digits and points that is no number. -/
def notANumber : TokenError := ⟨.badNumber, "Unrecognized number"⟩

/-- A run of characters that mean nothing. -/
def unrecognized : TokenError := ⟨.badCharacters, "Unrecognized characters"⟩

/-- An opening parenthesis that is never closed. -/
def missingParen : TokenError := ⟨.badOperator, "Missing )"⟩

/-- The token after which a value, or the lack of one, was not expected. -/
def unexpectedValue : TokenError := ⟨.badOperator, "Unexpected value"⟩

/-- A division by zero. -/
def zeroDivision : TokenError := ⟨.badOperator, "Cannot divide by zero."⟩

/-- A dice operator over the ceiling. -/
def tooManyRolls : TokenError := ⟨.tooManyRolls, "Too many dice rolled."⟩

/-- The text of an error: its kind and its message. -/
def toText (e : TokenError) : String := e.kind.name ++ ": " ++ e.message

instance : ToString TokenError := ⟨toText⟩

end TokenError

/-! ## Tokens -/

/-- A range of bytes of the text in UTF-8, from `start` to before `stop`. -/
structure Span where
  start : Nat
  stop : Nat
  deriving DecidableEq, Repr

/-- What a token says. -/
inductive TokenValue where
  | number (value : Number)
  | operator (op : Operator)
  /-- Text that means nothing, kept as it stands. -/
  | text (raw : String)
  deriving DecidableEq

namespace TokenValue

/-- The text of a value. -/
def toText : TokenValue → String
  | .number x => x.toText
  | .operator op => op.toText
  | .text raw => raw

instance : ToString TokenValue := ⟨toText⟩

end TokenValue

/-- The two kinds of tokens. -/
inductive TokenKind where
  | number
  | operator
  deriving DecidableEq, Repr

/-- The kind of tokens with a value: everything but an operator stands where a number can. -/
def TokenValue.kind : TokenValue → TokenKind
  | .operator _ => .operator
  | .number _ | .text _ => .number

/-- One unit of an expression. -/
structure Token where
  value : TokenValue
  span : Span
  /-- What the token is reported as. Evaluating goes by the value. -/
  kind : TokenKind := value.kind
  error : Option TokenError := none
  /-- The roll that this dice operator made. -/
  roll : Option RollRecord := none
  /-- The roll of the dice operator whose operand ended at this token. -/
  rollResult : Option RollRecord := none
  deriving DecidableEq

namespace Token

/-- Whether a token carries an error. -/
def hasError (t : Token) : Bool := t.error.isSome

/-- Puts an error on a token, unless there is one already. -/
def mark (t : Token) (e : TokenError) : Token :=
  { t with error := t.error.or (some e) }

/-- Puts the roll that it made on a dice operator. -/
def withRoll (t : Token) (r : RollRecord) : Token := { t with roll := some r }

/-- Puts a roll on the token that ended its operand. -/
def withRollResult (t : Token) (r : RollRecord) : Token := { t with rollResult := some r }

@[simp] theorem mark_of_error {t : Token} {e : TokenError} (h : t.error = some e)
    (e' : TokenError) :
    (t.mark e').error = some e := by simp [mark, h]

@[simp] theorem mark_of_none {t : Token} (h : t.error = none) (e : TokenError) :
    (t.mark e).error = some e := by simp [mark, h]

@[simp] theorem mark_value (t : Token) (e : TokenError) : (t.mark e).value = t.value := rfl

@[simp] theorem withRoll_error (t : Token) (r : RollRecord) : (t.withRoll r).error = t.error := rfl

@[simp] theorem withRollResult_error (t : Token) (r : RollRecord) :
    (t.withRollResult r).error = t.error := rfl

end Token

end DiceNotation
