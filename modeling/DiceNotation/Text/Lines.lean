/-!
# DiceNotation.Text.Lines

The lines of an input of bytes. A line feed ends a line, and with it a carriage return just before
it; bytes after the last line feed are a line too, kept as they are.

* `Lines.split`: the lines of an input, without their ends;
* `Lines.decode?`: a line as text, if its bytes are UTF-8.
-/

namespace DiceNotation.Text.Lines

/-- The byte that ends a line. -/
def lineFeed : UInt8 := 10

/-- The byte that belongs to the end of a line if it stands before it. -/
def carriageReturn : UInt8 := 13

/-- The bytes of a line that a line feed ended, given in reverse. -/
def ended : List UInt8 → List UInt8
  | [] => []
  | b :: more => if b = carriageReturn then more.reverse else (b :: more).reverse

/-- The lines of an input, of whose first line the given bytes were read, in reverse. -/
def splitAfter (line : List UInt8) : List UInt8 → List (List UInt8)
  | [] => if line.isEmpty then [] else [line.reverse]
  | b :: more =>
    if b = lineFeed then ended line :: splitAfter [] more else splitAfter (b :: line) more

/-- The lines of an input, without their ends. -/
def split (input : List UInt8) : List (List UInt8) := splitAfter [] input

/-- The text of a line, if its bytes are UTF-8. -/
def decode? (line : List UInt8) : Option String := String.fromUTF8? ⟨line.toArray⟩

@[simp] theorem split_nil : split [] = [] := rfl

/-- A line feed after bytes without one ends a line. -/
theorem splitAfter_append_lineFeed (line bytes more : List UInt8) (h : lineFeed ∉ bytes) :
    splitAfter line (bytes ++ lineFeed :: more) =
      ended (bytes.reverse ++ line) :: split more := by
  induction bytes generalizing line with
  | nil => simp [splitAfter, split]
  | cons b bytes ih =>
    simp only [List.mem_cons, not_or] at h
    simp [splitAfter, Ne.symm h.1, ih _ h.2]

end DiceNotation.Text.Lines
