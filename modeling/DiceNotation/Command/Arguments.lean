import DiceNotation.Tray

/-!
# DiceNotation.Command.Arguments

The arguments of the command line: options that begin with hyphens, and one
expression. They are read as by the argument parser that the program's `Args`
declare: `verbose` is a flag, `max_rolls` has a value, the expression may begin
with a hyphen, and the parser itself adds the options for help and version.

* `Options`, `Command`: what is asked for;
* `UsageError`: what is wrong with the arguments;
* `Command.ofArguments`: reads the arguments from left to right.

Since an expression may begin with a hyphen, an argument that looks like an
option but is none is taken as the expression, as long as there is none yet;
after `--` nothing is an option.

The wording of usage errors (`UsageError.message`) is only approximate. It has
the parser's first line, but not the placeholder of a value after the name of
its option, the cause after a value that is invalid, or the tips that follow.
As with the parser, such an error goes to standard error, with exit code 2.
-/

namespace DiceNotation

/-- What the options and the expression ask for. -/
structure Options where
  /-- Whether full accounts are wanted. -/
  verbose : Bool := false
  /-- The most dice that an evaluation may roll, if it was said. -/
  maxRolls : Option Nat := none
  /-- The expression, if one was given. -/
  expression : Option String := none
  deriving DecidableEq, Repr

/-- What the program is to do. -/
inductive Command where
  /-- Evaluate the expression, or those on standard input. -/
  | evaluate (options : Options)
  /-- Explain the arguments. -/
  | help
  /-- Tell the version. -/
  | version
  deriving DecidableEq, Repr

/-- What is wrong with the arguments. -/
inductive UsageError where
  /-- There is no place for this argument. -/
  | unexpected (argument : String)
  /-- An option stands twice. -/
  | repeated (option : String)
  /-- An option lacks its value. -/
  | missingValue (option : String)
  /-- An option has a value that it cannot have. -/
  | invalidValue (option value : String)
  /-- An option has a value that it does not take. -/
  | unneededValue (option : String)
  deriving DecidableEq, Repr

namespace UsageError

/-- The wording of an error, about as the parser has it. -/
def message : UsageError → String
  | .unexpected argument => "error: unexpected argument '" ++ argument ++ "' found"
  | .repeated option => "error: the argument '" ++ option ++ "' cannot be used multiple times"
  | .missingValue option =>
    "error: a value is required for '" ++ option ++ "' but none was supplied"
  | .invalidValue option value => "error: invalid value '" ++ value ++ "' for '" ++ option ++ "'"
  | .unneededValue option =>
    "error: unexpected value for '" ++ option ++ "' found; no more were expected"

end UsageError

namespace Options

/-- The most dice that an evaluation may roll. -/
def ceiling (o : Options) : Nat := o.maxRolls.getD Tray.defaultCeiling

/-- Asks for full accounts. -/
def setVerbose (o : Options) : Except UsageError Options :=
  if o.verbose then .error (.repeated "--verbose") else .ok { o with verbose := true }

/-- The number of dice that a value spells: digits, after a plus sign if one is
wanted, of at most 64 bits. -/
def countOf? (value : String) : Option Nat :=
  let digits := match value.toList with
    | '+' :: digits => digits
    | digits => digits
  if !digits.isEmpty && digits.all Char.isDigit then
    let n := Nat.ofDigitChars 10 digits 0
    if n < UInt64.size then some n else none
  else none

/-- Sets the most dice. -/
def setMaxRolls (o : Options) (value : String) : Except UsageError Options :=
  match countOf? value, o.maxRolls with
  | none, _ => .error (.invalidValue "--max-rolls" value)
  | some _, some _ => .error (.repeated "--max-rolls")
  | some most, none => .ok { o with maxRolls := some most }

/-- Sets the expression. -/
def setExpression (o : Options) (text : String) : Except UsageError Options :=
  match o.expression with
  | some _ => .error (.unexpected text)
  | none => .ok { o with expression := some text }

/-- Reads arguments none of which is an option. -/
def plain (o : Options) (arguments : List String) : Except UsageError Options :=
  arguments.foldlM setExpression o

end Options

/-! ## Single arguments -/

/-- The letters of short options. -/
def shortOptions : List Char := ['v', 'h', 'V']

/-- Reads the letters of an argument such as `-v`, in order. -/
def Options.readLetters (o : Options) : List Char → Except UsageError (Options ⊕ Command)
  | [] => .ok (.inl o)
  | 'v' :: letters => do (← o.setVerbose).readLetters letters
  | 'h' :: _ => .ok (.inr .help)
  | 'V' :: _ => .ok (.inr .version)
  | c :: _ => .error (.unexpected (String.ofList ['-', c]))

/-- Reads an argument whose name follows two hyphens. The value, if there is one, follows an equals
sign. -/
def Options.readLong (o : Options) (argument name : String) (value : Option String) :
    Except UsageError (Options ⊕ Command) :=
  match name, value with
  | "verbose", none => return .inl (← o.setVerbose)
  | "help", none => .ok (.inr .help)
  | "version", none => .ok (.inr .version)
  | "max-rolls", some value => return .inl (← o.setMaxRolls value)
  | "max-rolls", none => .error (.missingValue "--max-rolls")
  | "verbose", some _ | "help", some _ | "version", some _ => .error (.unneededValue argument)
  | _, _ => return .inl (← o.setExpression argument)

/-- Reads one argument that is complete in itself. -/
def Options.readOne (o : Options) (argument : String) : Except UsageError (Options ⊕ Command) :=
  match argument.toList with
  | '-' :: '-' :: rest =>
    let name := rest.takeWhile (· != '=')
    let value := match rest.dropWhile (· != '=') with
      | [] => none
      | _ :: value => some (String.ofList value)
    o.readLong argument (String.ofList name) value
  | '-' :: c :: letters =>
    if o.expression.isNone && (c :: letters).any (!shortOptions.contains ·) then
      return .inl (← o.setExpression argument)
    else o.readLetters (c :: letters)
  | _ => return .inl (← o.setExpression argument)

namespace Command

/-- Reads arguments after those that the given options came from. -/
def readArguments (o : Options) : List String → Except UsageError Command
  | [] => .ok (.evaluate o)
  | "--" :: rest => return .evaluate (← o.plain rest)
  | "--max-rolls" :: value :: rest => do readArguments (← o.setMaxRolls value) rest
  | argument :: rest => do
    match ← o.readOne argument with
    | .inl o => readArguments o rest
    | .inr command => return command

/-- What the arguments of the command line ask for. -/
def ofArguments (arguments : List String) : Except UsageError Command := readArguments {} arguments

end Command

end DiceNotation
