/-!
# Byte text

Bytes shown as printable ASCII. The quotes, the backslash, tab, line feed and carriage return have
escapes of their own; any other byte outside the printable range is written as two lower-case
hexadecimal digits.
-/

namespace BlockCompiler.Text

def hexDigit (n : Nat) : Char :=
  Nat.digitChar (n % 16)

/-- One byte of a byte text. -/
def byteText (b : UInt8) : List Char :=
  match b.toNat with
  | 0x09 => ['\\', 't']
  | 0x0A => ['\\', 'n']
  | 0x0D => ['\\', 'r']
  | 0x22 => ['\\', '\x22']
  | 0x27 => ['\\', '\x27']
  | 0x5C => ['\\', '\\']
  | n =>
    if 0x20 ≤ n ∧ n ≤ 0x7E then [Char.ofNat n]
    else ['\\', 'x', hexDigit (n / 16), hexDigit n]

/-- The bytes in order, each in its own escape. -/
def bytesText (bs : List UInt8) : String :=
  String.ofList (bs.flatMap byteText)

end BlockCompiler.Text
