import DiceNotation.Token

/-!
# DiceNotation.Token.Scan

Splitting a text into tokens. Nothing is refused here: what cannot be read becomes a token with an
error, and the tokens after it are read all the same.

* `CharClass.of`: characters up to the space are blank, digits and points make numbers, each
  operator is one character, and all others mean nothing;
* `runs`: the text in maximal runs of one class, operators each by themselves;
* `locate`: the byte range of every run;
* `Token.ofRun?`: the token of a run, none for a blank one;
* `Expression.scan`: a text with its tokens.
-/

namespace DiceNotation

/-! ## Runs of characters -/

/-- What a character can be part of. -/
inductive CharClass where
  | blank
  | numeric
  | operator (op : Operator)
  | other
  deriving DecidableEq, Repr

/-- The class of a character. -/
def CharClass.of (c : Char) : CharClass :=
  match Operator.ofChar? c with
  | some op => .operator op
  | none =>
    if c.toNat ≤ 0x20 then .blank
    else if c.isDigit || c == '.' then .numeric
    else .other

/-- Whether two neighbouring characters are part of one run: they are of one
class, and no operator. -/
def CharClass.joins (c d : Char) : Bool :=
  match CharClass.of c with
  | .operator _ => false
  | k => k == CharClass.of d

/-- The maximal runs of a text. -/
def runs (text : String) : List (List Char) := text.toList.splitBy CharClass.joins

/-- The number of bytes of a run in UTF-8. -/
def byteLength : List Char → Nat
  | [] => 0
  | c :: more => c.utf8Size + byteLength more

/-- The runs with their byte ranges, the first of which begins at `start`. -/
def locate (start : Nat) : List (List Char) → List (Span × List Char)
  | [] => []
  | run :: more =>
    let stop := start + byteLength run
    (⟨start, stop⟩, run) :: locate stop more

/-! ## Tokens -/

/-- The value of a run of digits and points; one that is no number is kept as text. -/
def Token.ofNumeric (span : Span) (run : List Char) : Token :=
  match Number.ofLiteral? run with
  | some x => { value := .number x, span }
  | none => { value := .text (String.ofList run), span, error := some .notANumber }

/-- The token of a run. Blank runs have none. -/
def Token.ofRun? (span : Span) : List Char → Option Token
  | [] => none
  | c :: more =>
    match CharClass.of c with
    | .blank => none
    | .operator op => some { value := .operator op, span }
    | .numeric => some (.ofNumeric span (c :: more))
    | .other => some
        { value := .text (String.ofList (c :: more)), span, error := some .unrecognized }

/-- A written expression: its text and its tokens. -/
structure Expression where
  text : String
  tokens : List Token
  deriving DecidableEq

namespace Expression

/-- The expression that a text spells, with all its tokens in order. -/
def scan (text : String) : Expression where
  text := text
  tokens := (locate 0 (runs text)).filterMap fun (span, run) => Token.ofRun? span run

/-- Whether there is nothing to evaluate, or a token carries an error. -/
def hasError (e : Expression) : Bool := e.text.isEmpty || e.tokens.any Token.hasError

end Expression

@[simp] theorem locate_nil (start : Nat) : locate start [] = [] := rfl

/-- Locating keeps the runs and their order. -/
@[simp] theorem map_snd_locate (start : Nat) (rs : List (List Char)) :
    (locate start rs).map Prod.snd = rs := by
  induction rs generalizing start with
  | nil => rfl
  | cons run more ih => simp [locate, ih]

end DiceNotation
