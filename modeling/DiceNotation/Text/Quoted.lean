import DiceNotation.Text.Extending
import DiceNotation.Text.Unprintable

/-!
# DiceNotation.Text.Quoted

Text in quotes, so that every character of it can be seen:

* `escape`: one character; quotes, backslashes and the common control characters have short escapes,
  and what cannot be seen by itself is written as its code point in hexadecimal;
* `quoteString`, `quoteChar`: a text in double quotes, a character in single quotes.
-/

namespace DiceNotation.Text

/-- A character by its code point in hexadecimal, in braces after `\u`. -/
def codePoint (c : Char) : List Char :=
  '\\' :: 'u' :: '\x7b' :: (Nat.toDigits 16 c.toNat ++ ['\x7d'])

/-- A character as it stands between quotes of the given kind. -/
def escape (quote c : Char) : List Char :=
  match c with
  | '\x00' => ['\\', '0']
  | '\t' => ['\\', 't']
  | '\r' => ['\\', 'r']
  | '\n' => ['\\', 'n']
  | c =>
    if c == quote || c == '\\' then ['\\', c]
    else if isExtending c || isUnprintable c then codePoint c
    else [c]

/-- A text in double quotes. -/
def quoteString (s : String) : String :=
  String.ofList ('"' :: s.toList.flatMap (escape '"') ++ ['"'])

/-- A character in single quotes. -/
def quoteChar (c : Char) : String := String.ofList ('\'' :: escape '\'' c ++ ['\''])

end DiceNotation.Text
