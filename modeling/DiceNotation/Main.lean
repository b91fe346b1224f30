import DiceNotation.Command.Session
import DiceNotation.Roller.Generator

/-!
# DiceNotation.Main

The program on the command line. It reads lines, writes replies and ends with an exit code; what
there is to write is decided by `Command.run` and `Session.respond`.
-/

open DiceNotation

/-- A generator that starts anywhere. -/
def randomGenerator : IO Roller.Generator := do
  let seed ← IO.getRandomBytes 8
  return { state := seed.toList.foldl (fun state byte => 256 * state + byte.toUInt64) 0 }

/-- Writes a reply. -/
def writeReply (r : Reply) : IO Unit := do
  let output ← IO.getStdout
  output.putStr r.output
  output.flush
  (← IO.getStderr).putStr r.errors

/-- The bytes up to the next line feed and with it, after those that were read
already, in reverse. -/
partial def readLine (input : IO.FS.Stream) (read : List UInt8) : IO (List UInt8) := do
  match (← input.read 1).toList with
  | [] => return read.reverse
  | byte :: _ =>
    if byte = Text.Lines.lineFeed then return (byte :: read).reverse
    else readLine input (byte :: read)

/-- Answers the lines of standard input as they come. -/
partial def converse (verbose : Bool) (tray : Tray Roller.Generator) : IO UInt32 := do
  writeReply { output := Session.prompt }
  match Text.Lines.split (← readLine (← IO.getStdin) []) with
  | [] =>
    writeReply { output := Session.farewell }
    return 0
  | line :: _ =>
    match Text.Lines.decode? line with
    | none =>
      writeReply { errors := Session.unreadable }
      return 1
    | some line =>
      let (reply, tray) := Session.respond verbose tray line
      writeReply reply
      converse verbose tray

/-- Runs the program. -/
def main (arguments : List String) : IO UInt32 := do
  let roller ← randomGenerator
  match Command.ofArguments arguments with
  | .ok (.evaluate { verbose, maxRolls, expression := none }) =>
    converse verbose (Command.trayFor { verbose, maxRolls } roller)
  | _ =>
    let transcript := Command.run roller arguments []
    writeReply transcript.toReply
    return transcript.exitCode
