/-!
# DiceNotation.Report.Layout

Writing structured data as indented text.

* `Layout`: a tree of named groups, labelled fields and plain texts;
* `Layout.write`: the tree with every item of a group on a line of its own, four
  spaces deeper than the group and followed by a comma;
* `Layout.inline`: the tree on one line.

A group without items is written without a line break in it.
-/

namespace DiceNotation.Report

/-- The brackets around the items of a group. -/
inductive Brackets where
  | round
  | square
  | curly
  deriving DecidableEq, Repr

namespace Brackets

/-- What opens a group of the given name. -/
def opening (name : String) : Brackets → String
  | .round => name ++ "("
  | .square => name ++ "["
  | .curly => name ++ " \x7b"

/-- What closes a group. -/
def closing : Brackets → String
  | .round => ")"
  | .square => "]"
  | .curly => "\x7d"

/-- What stands on both sides of the items when the group is written on one line. -/
def padding : Brackets → String
  | .round | .square => ""
  | .curly => " "

end Brackets

/-- Data to be written. -/
inductive Layout where
  | plain (text : String)
  | field (label : String) (value : Layout)
  | group (name : String) (brackets : Brackets) (items : List Layout)

namespace Layout

/-- The beginning of a line at a depth. -/
def indentation (depth : Nat) : String := String.ofList (List.replicate (4 * depth) ' ')

mutual

/-- The text of a layout that begins on a line of the given depth. -/
def writeAt (depth : Nat) : Layout → String
  | .plain text => text
  | .field label value => label ++ ": " ++ writeAt depth value
  | .group name brackets [] => brackets.opening name ++ brackets.closing
  | .group name brackets (item :: items) =>
    brackets.opening name ++ "\n" ++ writeItems (depth + 1) (item :: items) ++ indentation depth ++
      brackets.closing

/-- The lines of the items of a group. -/
def writeItems (depth : Nat) : List Layout → String
  | [] => ""
  | item :: items => indentation depth ++ writeAt depth item ++ ",\n" ++ writeItems depth items

end

/-- The text of a layout, over several lines. -/
def write (layout : Layout) : String := writeAt 0 layout

mutual

/-- The text of a layout on one line. -/
def inline : Layout → String
  | .plain text => text
  | .field label value => label ++ ": " ++ inline value
  | .group name brackets [] => brackets.opening name ++ brackets.closing
  | .group name brackets (item :: items) =>
    brackets.opening name ++ brackets.padding ++ inline item ++ inlineRest items ++
      brackets.padding ++ brackets.closing

/-- The items of a group after the first, on one line. -/
def inlineRest : List Layout → String
  | [] => ""
  | item :: items => ", " ++ inline item ++ inlineRest items

end

/-- A list of data. -/
def list (items : List Layout) : Layout := .group "" .square items

/-- Data behind the name of what it is. -/
def named (name : String) (value : Layout) : Layout := .group name .round [value]

/-- Data that may be missing. -/
def optional : Option Layout → Layout
  | some value => named "Some" value
  | none => .plain "None"

end Layout

end DiceNotation.Report
