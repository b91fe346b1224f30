import DiceNotation.Command.Session
import DiceNotation.Proofs.Throwing

/-!
# DiceNotation.Proofs.Session

A session answers line by line as the program answers a single expression.

* `Text.Lines.Written`: which lines an input has;
* `Command.readArguments_literally`: an expression after the options, taken as it is;
* `Session.answer`: the reply to a line, of a session and of the program alike;
* `Session.interact_append`: the transcript of lines before others;
* `Command.run_lines`: a whole session.

An evaluation counts its dice anew, so all that one line hands to the next is the roller. Where dice
can show only one face each, that is nothing.
-/

namespace DiceNotation

/-! ## Lines -/

namespace Text.Lines

/-- The bytes of a text. -/
def encode (text : String) : List UInt8 := text.toUTF8.data.toList

@[simp] theorem decode?_encode (text : String) : decode? (encode text) = some text := by
  show String.fromUTF8? text.toByteArray = some text
  rw [String.fromUTF8?, dif_pos text.isValidUTF8]
  rfl

/-- An input and its lines. A line feed ends a line, and so does a carriage return with a line feed.
The last line may lack its end, if it is not empty. -/
inductive Written : List UInt8 → List (List UInt8) → Prop
  | nothing : Written [] []
  | unended {line} : line ≠ [] → lineFeed ∉ line → Written line [line]
  | fed {line input lines} : lineFeed ∉ line → line.getLast? ≠ some carriageReturn →
      Written input lines → Written (line ++ lineFeed :: input) (line :: lines)
  | returned {line input lines} : lineFeed ∉ line → Written input lines →
      Written (line ++ carriageReturn :: lineFeed :: input) (line :: lines)

/-- Bytes without a line feed are one line, if there are any. -/
theorem splitAfter_of_not_mem {bytes : List UInt8} (h : lineFeed ∉ bytes) (line : List UInt8) :
    splitAfter line bytes =
      if (bytes.reverse ++ line).isEmpty then [] else [(bytes.reverse ++ line).reverse] := by
  induction bytes generalizing line with
  | nil => rfl
  | cons b bytes ih =>
    simp only [List.mem_cons, not_or] at h
    simp [splitAfter, Ne.symm h.1, ih h.2]

/-- A line without a carriage return at its end. -/
theorem ended_reverse {line : List UInt8} (h : line.getLast? ≠ some carriageReturn) :
    ended line.reverse = line := by
  rw [← List.head?_reverse] at h
  rcases hline : line.reverse with _ | ⟨b, more⟩
  · exact (List.reverse_eq_nil_iff.1 hline).symm
  · rw [hline] at h
    rw [ended, if_neg (by simpa using h), ← hline, List.reverse_reverse]

/-- **Splitting an input** gives the lines that are written in it. -/
theorem Written.split_eq {input : List UInt8} {lines : List (List UInt8)}
    (h : Written input lines) : split input = lines := by
  induction h with
  | nothing => rfl
  | unended hne hfeed => rw [split, splitAfter_of_not_mem hfeed]; simp [hne]
  | fed hfeed hlast _ ih =>
    rw [split, splitAfter_append_lineFeed _ _ _ hfeed, List.append_nil, ended_reverse hlast, ih]
  | @returned line input lines hfeed _ ih =>
    have hreturn : lineFeed ∉ line ++ [carriageReturn] :=
      List.not_mem_append hfeed (by decide)
    rw [List.append_cons, split, splitAfter_append_lineFeed _ _ _ hreturn, ih]
    simp [ended]

/-- Every input has lines. -/
theorem written_splitAfter {line : List UInt8} (h : lineFeed ∉ line) (input : List UInt8) :
    Written (line.reverse ++ input) (splitAfter line input) := by
  have hreverse : lineFeed ∉ line.reverse := fun hmem => h (List.mem_reverse.1 hmem)
  induction input generalizing line with
  | nil =>
    cases line with
    | nil => exact .nothing
    | cons b more => rw [List.append_nil]; exact .unended (by simp) hreverse
  | cons b input ih =>
    by_cases hb : b = lineFeed
    · have hinput : Written input (splitAfter [] input) := ih List.not_mem_nil List.not_mem_nil
      rw [splitAfter, if_pos hb, hb]
      cases line with
      | nil => exact .fed List.not_mem_nil (by simp) hinput
      | cons c line =>
        by_cases hc : c = carriageReturn
        · rw [List.reverse_cons] at hreverse ⊢
          rw [ended, if_pos hc, List.append_assoc, hc]
          exact .returned (fun hmem => hreverse (List.mem_append_left _ hmem)) hinput
        · rw [ended, if_neg hc]
          exact .fed hreverse (by simpa using hc) hinput
    · have hmore : lineFeed ∉ b :: line := by simp [h, Ne.symm hb]
      have hwritten := ih hmore (fun hmem => hmore (List.mem_reverse.1 hmem))
      rw [splitAfter, if_neg hb]
      simpa using hwritten

theorem written_iff {input : List UInt8} {lines : List (List UInt8)} :
    Written input lines ↔ split input = lines :=
  ⟨Written.split_eq, fun h => h ▸ written_splitAfter List.not_mem_nil input⟩

end Text.Lines

/-! ## Arguments -/

namespace Options

theorem inl_ne_evaluate (x : Except UsageError Options) (o : Options) :
    (x >>= fun o => pure (.inl o)) ≠ Except.ok (Sum.inr (Command.evaluate o)) := by
  cases x <;> simp [bind, Except.bind, pure, Except.pure]

theorem readLetters_ne_evaluate (o o' : Options) (letters : List Char) :
    o.readLetters letters ≠ .ok (.inr (.evaluate o')) := by
  fun_induction Options.readLetters o letters with
  | case2 o letters ih =>
    cases o.setVerbose with
    | error e => simp [bind, Except.bind]
    | ok o => exact ih o
  | _ => simp

theorem readLong_ne_evaluate (o o' : Options) (argument name : String) (value : Option String) :
    o.readLong argument name value ≠ .ok (.inr (.evaluate o')) := by
  fun_cases Options.readLong o argument name value
  all_goals first | exact inl_ne_evaluate _ o' | simp

/-- No single argument asks for an evaluation: that is what is left when all of them are read. -/
theorem readOne_ne_evaluate (o o' : Options) (argument : String) :
    o.readOne argument ≠ .ok (.inr (.evaluate o')) := by
  fun_cases Options.readOne o argument with
  | case1 => exact readLong_ne_evaluate o o' argument _ _
  | case2 => exact inl_ne_evaluate _ o'
  | case3 => exact readLetters_ne_evaluate o o' _
  | case4 => exact inl_ne_evaluate _ o'

end Options

namespace Command

/-- An argument that neither ends the options nor takes the next one as its value is read alone. -/
theorem readArguments_cons {argument : String} (hplain : argument ≠ "--")
    (hmost : argument ≠ "--max-rolls") (o : Options) (rest : List String) :
    readArguments o (argument :: rest) =
      (o.readOne argument).bind (Sum.elim (readArguments · rest) .ok) := by
  rw [readArguments.eq_4 o argument rest hplain fun value rest h => absurd h hmost]
  cases o.readOne argument with
  | error e => rfl
  | ok read => cases read <;> rfl

/-- **An expression after two hyphens** is taken as it is, whatever it looks like. -/
theorem readArguments_literally {flags : List String} (hplain : "--" ∉ flags) {o o' : Options}
    (h : readArguments o flags = .ok (.evaluate o')) (hnone : o'.expression = none)
    (text : String) :
    readArguments o (flags ++ ["--", text]) =
      .ok (.evaluate { o' with expression := some text }) := by
  induction o, flags using readArguments.induct with
  | case1 o =>
    obtain rfl : o = o' := by simpa [readArguments] using h
    have hread : o.plain [text] = .ok { o with expression := some text } := by
      rw [Options.plain, List.foldlM_cons, Options.setExpression, hnone]
      rfl
    rw [List.nil_append, readArguments, hread]
    rfl
  | case2 o rest => exact absurd List.mem_cons_self hplain
  | case3 o value rest ih =>
    have hrest : "--" ∉ rest := fun hmem => hplain (by simp [hmem])
    rw [readArguments] at h
    rw [List.cons_append, List.cons_append, readArguments]
    cases hset : o.setMaxRolls value with
    | error e => simp [hset, bind, Except.bind] at h
    | ok o =>
      rw [hset] at h
      exact ih o hrest h
  | case4 o argument rest hend hvalue ih =>
    have hrest : "--" ∉ rest := fun hmem => hplain (by simp [hmem])
    by_cases hmost : argument = "--max-rolls"
    · -- The value is missing.
      subst hmost
      cases rest with
      | nil => cases h
      | cons value rest => exact (hvalue value rest rfl rfl).elim
    · rw [readArguments_cons hend hmost] at h
      rw [List.cons_append, readArguments_cons hend hmost]
      cases hread : o.readOne argument with
      | error e => simp [hread, Except.bind] at h
      | ok read =>
        rw [hread] at h
        cases read with
        | inl o => exact ih o hrest h
        | inr command =>
          obtain rfl : command = .evaluate o' := Except.ok.inj h
          exact absurd hread (o.readOne_ne_evaluate o' argument)

end Command

/-! ## Sessions -/

theorem Transcript.after_after (t : Transcript) (first second : Reply) :
    (t.after second).after first =
      t.after ⟨first.output ++ second.output, first.errors ++ second.errors⟩ := by
  simp [Transcript.after, String.append_assoc]

namespace Session

variable {σ : Type} [Roller σ]

/-- The reply to a line: what the program answers to it as its expression,
nothing if it is blank. -/
def answer (verbose : Bool) (tray : Tray σ) (text : String) : Reply :=
  if Text.allBlank text then {} else (once verbose tray text).toReply

/-- Where the dice are fixed, it makes no difference which tray an expression is evaluated on. -/
theorem once_fixed [Roller.Honest σ] {tray start : Tray σ} {text : String}
    (hfixed : start.Fixed (.scan text)) (verbose : Bool) (hceiling : tray.ceiling = start.ceiling) :
    once verbose tray text = once verbose start text := by
  have heval : (tray.evaluateText text).1 = (start.evaluateText text).1 :=
    hfixed.evaluate_eq hceiling
  simp only [once, heval]

/-- **One line** is answered by a session on any tray as by the program on its own, and the next
line finds the ceiling that this one found. -/
theorem respond_fixed [Roller.Honest σ] {tray start : Tray σ}
    (hceiling : tray.ceiling = start.ceiling) {text : String}
    (hfixed : Text.allBlank text = false → start.Fixed (.scan text)) (verbose : Bool) :
    (respond verbose tray text).1 = answer verbose start text ∧
      (respond verbose tray text).2.ceiling = start.ceiling := by
  cases hblank : Text.allBlank text with
  | true => simp [respond, answer, hblank, hceiling]
  | false =>
    have hreport : report verbose (tray.evaluateText text).1 = (once verbose start text).toReply :=
      congrArg Transcript.toReply (once_fixed (hfixed hblank) verbose hceiling)
    have hsame : (tray.evaluateText text).2.ceiling = tray.ceiling := tray.evaluate_ceiling_eq _
    simp [respond, answer, hblank, hreport, hsame, hceiling]

/-- **Lines before others** are answered one by one, each as by the program on its own. -/
theorem interact_append [Roller.Honest σ] {start : Tray σ} {texts : List String}
    (hfixed : ∀ text ∈ texts, Text.allBlank text = false → start.Fixed (.scan text))
    {verbose : Bool} {rest : List (List UInt8)} {last : Transcript}
    (hlast : ∀ tray : Tray σ, interact verbose tray rest = last) {tray : Tray σ}
    (hceiling : tray.ceiling = start.ceiling) :
    interact verbose tray (texts.map Text.Lines.encode ++ rest) =
      last.after
        { output := String.join (texts.map fun text => prompt ++ (answer verbose start text).output)
          errors := String.join (texts.map fun text => (answer verbose start text).errors) } := by
  induction texts generalizing tray with
  | nil => simpa [Transcript.after] using hlast tray
  | cons text texts ih =>
    obtain ⟨htext, htexts⟩ := List.forall_mem_cons.1 hfixed
    obtain ⟨hreply, hsame⟩ := respond_fixed hceiling htext verbose
    rw [List.map_cons, List.cons_append, interact, Text.Lines.decode?_encode]
    simp only [ih htexts hsame, hreply, Transcript.after_after, List.map_cons, String.join_cons]

end Session

/-! ## The program -/

namespace Command

open Text.Lines

variable {σ : Type} [Roller σ]

/-- The program on an expression after the options. -/
theorem run_literally {flags : List String} {o : Options}
    (hflags : ofArguments flags = .ok (.evaluate o)) (hnone : o.expression = none)
    (hplain : "--" ∉ flags) (text : String) (roller : σ) (input : List UInt8) :
    run roller (flags ++ ["--", text]) input = Session.once o.verbose (trayFor o roller) text := by
  rw [run, ofArguments, readArguments_literally hplain hflags hnone]
  rfl

/-- **A session is the program applied line by line.** Options without an expression make
the program read lines. Before each it writes the prompt, and what it writes then is what
it writes if it is given the same options and the line as its expression, taken as it is;
it writes nothing if the line is blank. This holds whatever the other lines are, and
wherever the rollers of the two programs start, as long as the dice can show one face
each. After the last line there is the prompt once more, and the exit code is zero. A line
that is not text ends the session with an error at its prompt, whatever follows it. -/
theorem run_lines [Roller.Honest σ] {flags : List String} {o : Options}
    (hflags : ofArguments flags = .ok (.evaluate o)) (hnone : o.expression = none)
    (hplain : "--" ∉ flags) {texts : List String} {roller : σ}
    (hfixed : ∀ text ∈ texts, Text.allBlank text = false → (trayFor o roller).Fixed (.scan text))
    (roller' : σ) (input' : List UInt8) :
    let single (text : String) := run roller' (flags ++ ["--", text]) input'
    let output := String.join (texts.map fun text =>
      "> " ++ if Text.allBlank text then "" else (single text).output)
    let errors := String.join (texts.map fun text =>
      if Text.allBlank text then "" else (single text).errors)
    (∀ input, Written input (texts.map encode) →
      run roller flags input = { output := output ++ "> \n", errors, exitCode := 0 }) ∧
    ∀ input line more, decode? line = none → Written input (texts.map encode ++ line :: more) →
      run roller flags input =
        { output := output ++ "> ", errors := errors ++ Session.unreadable, exitCode := 1 } := by
  intro single output errors
  have hanswer : ∀ text ∈ texts, Session.answer o.verbose (trayFor o roller) text =
      if Text.allBlank text then {} else (single text).toReply := by
    intro text htext
    cases hblank : Text.allBlank text with
    | true => simp [Session.answer, hblank]
    | false =>
      have hsingle : single text = Session.once o.verbose (trayFor o roller) text :=
        (run_literally hflags hnone hplain text roller' input').trans
          (Session.once_fixed (hfixed text htext hblank) o.verbose rfl)
      simp [Session.answer, hblank, hsingle]
  have houtput : output = String.join (texts.map fun text =>
      Session.prompt ++ (Session.answer o.verbose (trayFor o roller) text).output) := by
    refine congrArg _ (List.map_congr_left fun text htext => ?_)
    rw [hanswer text htext, apply_ite Reply.output]
    rfl
  have herrors : errors = String.join (texts.map fun text =>
      (Session.answer o.verbose (trayFor o roller) text).errors) := by
    refine congrArg _ (List.map_congr_left fun text htext => ?_)
    rw [hanswer text htext, apply_ite Reply.errors]
  have hlines : ∀ (input : List UInt8) (rest : List (List UInt8)) (last : Transcript),
      Written input (texts.map encode ++ rest) →
      (∀ tray : Tray σ, Session.interact o.verbose tray rest = last) →
      run roller flags input = last.after { output, errors } := by
    intro input rest last hinput hlast
    simp only [run, hflags, hnone, hinput.split_eq, houtput, herrors]
    exact Session.interact_append hfixed hlast rfl
  constructor
  · intro input hinput
    rw [hlines input [] { output := "> \n", exitCode := 0 } (by simpa using hinput) fun _ => rfl]
    simp [Transcript.after]
  · intro input line more hline hinput
    have hlast : ∀ tray : Tray σ, Session.interact o.verbose tray (line :: more) =
        { output := "> ", errors := Session.unreadable, exitCode := 1 } := by
      intro tray
      simp [Session.interact, hline, Session.prompt]
    rw [hlines input (line :: more) _ hinput hlast]
    simp [Transcript.after]

/-- Lines that fail, are blank or use the ceiling up, and then a line that is not text. -/
theorem run_lines_unreadable :
    let roller : Roller.Stepping := ⟨3, 1⟩
    let texts := ["-v", " ", "2d1 + 1d1", "2d1", "1/0"]
    let input := encode "-v\n \r\n2d1 + 1d1\n2d1\r\n1/0\n" ++ 255 :: encode "1\n2"
    ofArguments ["--max-rolls=2"] = .ok (.evaluate { maxRolls := some 2 }) ∧
      (∀ text ∈ texts, Text.allBlank text = false →
        (trayFor { maxRolls := some 2 } roller).Fixed (.scan text)) ∧
      decode? [255, 49] = none ∧ Written input (texts.map encode ++ [[255, 49], [50]]) ∧
      run roller ["--max-rolls=2"] input =
        { output := "> > > > 2\n> > "
          errors := "Error: Unrecognized characters\nError: Too many dice rolled.\n" ++
            "Error: Cannot divide by zero.\nError: stream did not contain valid UTF-8\n"
          exitCode := 1 } := by
  intro roller texts input
  have hflags : ofArguments ["--max-rolls=2"] = .ok (.evaluate { maxRolls := some 2 }) :=
    rfl
  have hfixed : ∀ text ∈ texts, Text.allBlank text = false →
      (trayFor { maxRolls := some 2 } roller).Fixed (.scan text) := by
    decide +kernel
  have hline : decode? [255, 49] = none := by decide +kernel
  have hinput : Written input (texts.map encode ++ [[255, 49], [50]]) :=
    written_iff.2 (by decide +kernel)
  refine ⟨hflags, hfixed, hline, hinput, ?_⟩
  rw [(run_lines hflags rfl (by decide) hfixed roller []).2 input _ _ hline hinput]
  decide +kernel

end Command

end DiceNotation
