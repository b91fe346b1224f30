import DiceNotation.Command.Arguments
import DiceNotation.Report.Dump
import DiceNotation.Text.Blank
import DiceNotation.Text.Lines

/-!
# DiceNotation.Command.Session

What the program answers: to one expression, to the lines of its standard input,
and to its arguments.

* `Reply`: text for standard output and for standard error;
* `Transcript`: a reply and the exit code that ends the program;
* `report`: the reply to an evaluation;
* `Session.respond`: the reply to a line;
* `Session.interact`: the transcript of all lines;
* `Command.run`: the transcript of the program.
-/

namespace DiceNotation

/-! ## Replies -/

/-- Text for standard output and for standard error. -/
structure Reply where
  output : String := ""
  errors : String := ""
  deriving DecidableEq, Repr

/-- All that a program writes, and the code that it ends with. -/
structure Transcript extends Reply where
  exitCode : UInt32
  deriving DecidableEq, Repr

/-- A transcript with a reply before it. -/
def Transcript.after (t : Transcript) (r : Reply) : Transcript :=
  { t with output := r.output ++ t.output, errors := r.errors ++ t.errors }

/-- A line of standard error. -/
def errorLine (message : String) : String := "Error: " ++ message ++ "\n"

/-- The reply to an evaluation: its value, or a full account if one is wanted,
and what made it fail. -/
def report (verbose : Bool) (e : Evaluation) : Reply where
  output :=
    if verbose then e.dump ++ "\n"
    else if e.failed then ""
    else e.value.toText ++ "\n"
  errors := if e.failed then errorLine e.errorText else ""

/-! ## Sessions -/

namespace Session

variable {σ : Type} [Roller σ]

/-- What is written before a line is read. -/
def prompt : String := "> "

/-- What is written at the end of the input. -/
def farewell : String := "\n"

/-- What is told when a line is not text. -/
def unreadable : String := errorLine "stream did not contain valid UTF-8"

/-- The reply to a line. Lines of white space have none. -/
def respond (verbose : Bool) (tray : Tray σ) (line : String) : Reply × Tray σ :=
  if Text.allBlank line then ({}, tray)
  else
    let (e, tray) := tray.evaluateText line
    (report verbose e, tray)

/-- The transcript of the lines of an input. A line that is not text ends it. -/
def interact (verbose : Bool) (tray : Tray σ) : List (List UInt8) → Transcript
  | [] => { output := prompt ++ farewell, exitCode := 0 }
  | line :: lines =>
    match Text.Lines.decode? line with
    | none => { output := prompt, errors := unreadable, exitCode := 1 }
    | some line =>
      let (reply, tray) := respond verbose tray line
      (interact verbose tray lines).after { reply with output := prompt ++ reply.output }

/-- The transcript of a single expression. -/
def once (verbose : Bool) (tray : Tray σ) (text : String) : Transcript :=
  let e := (tray.evaluateText text).1
  { report verbose e with exitCode := if e.failed then 1 else 0 }

end Session

/-! ## The program -/

namespace Command

/-- The name and the version of the program. -/
def versionText : String := "dicecalc 0.1.0\n"

/-- How the program is used. -/
def usage : String := "Usage: roll [OPTIONS] [EXPRESSION]\n"

/-- What the arguments mean. -/
def helpText : String :=
  "Evaluates arithmetic expressions with dice, such as `3d6 + 2`\n\n" ++ usage ++
  "\nArguments:\n" ++
  "  [EXPRESSION]  The expression to evaluate. Without one, expressions are read from standard " ++
  "input, one per line\n" ++
  "\nOptions:\n" ++
  "  -v, --verbose                Print the whole result, including every roll and token\n" ++
  "      --max-rolls <MAX_ROLLS>  The most dice a single expression may roll [default: 1000]\n" ++
  "  -h, --help                   Print help\n" ++
  "  -V, --version                Print version\n"

/-- The transcript of wrong arguments. -/
def refuse (e : UsageError) : Transcript :=
  { errors := e.message ++ "\n\n" ++ usage ++ "\nFor more information, try '--help'.\n"
    exitCode := 2 }

/-- The tray that the options ask for. -/
def trayFor {σ : Type} (o : Options) (roller : σ) : Tray σ := { ceiling := some o.ceiling, roller }

/-- The transcript of the program, from its arguments and the bytes of its standard input. -/
def run {σ : Type} [Roller σ] (roller : σ) (arguments : List String) (input : List UInt8) :
    Transcript :=
  match ofArguments arguments with
  | .error e => refuse e
  | .ok .help => { output := helpText, exitCode := 0 }
  | .ok .version => { output := versionText, exitCode := 0 }
  | .ok (.evaluate o) =>
    match o.expression with
    | some text => Session.once o.verbose (trayFor o roller) text
    | none => Session.interact o.verbose (trayFor o roller) (Text.Lines.split input)

end Command

end DiceNotation
