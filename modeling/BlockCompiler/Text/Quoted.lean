import BlockCompiler.Text.Combining
import BlockCompiler.Text.Hidden

/-!
# Quoted text

A text between double quotes on one line. Quotes and backslashes are escaped, and so is every
character that could not be seen on the page or would join the one before it.
-/

namespace BlockCompiler.Text

/-- Whether a quoted text shows the character as it is. -/
def isShown (c : Char) : Bool :=
  !(hidden.contains c || filler.contains c || combining.contains c)

/-- A character by its code point, in lower-case hexadecimal digits without leading zeros. -/
def codePoint (c : Char) : List Char :=
  ['\\', 'u', '\x7b'] ++ Nat.toDigits 16 c.toNat ++ ['\x7d']

/-- A character as it stands between the quotes. -/
def quoteChar (c : Char) : List Char :=
  match c with
  | '\x22' => ['\\', '\x22']
  | '\\' => ['\\', '\\']
  | '\t' => ['\\', 't']
  | '\n' => ['\\', 'n']
  | '\r' => ['\\', 'r']
  | '\x00' => ['\\', '0']
  | c => if isShown c then [c] else codePoint c

/-- The text between double quotes. -/
def quoted (s : String) : String :=
  String.ofList ('\x22' :: s.toList.flatMap quoteChar ++ ['\x22'])

end BlockCompiler.Text
