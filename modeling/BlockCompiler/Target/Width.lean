/-!
# Integer widths

Target code computes with machine words of one width. An integer of any size is taken as the word
that agrees with it in the low bits, read as two's complement.
-/

namespace BlockCompiler.Target

/-- A sign, and the digits of a magnitude to base `2 ^ 64` from the least significant on. -/
structure Numeral where
  isNegative : Bool
  digits : List UInt64

namespace Numeral

/-- The digits of a number. Zero has none. -/
def digitsOf (n : Nat) : List UInt64 :=
  if n = 0 then [] else UInt64.ofNat n :: digitsOf (n / UInt64.size)
decreasing_by exact Nat.div_lt_self (Nat.pos_of_ne_zero ‹_›) (by decide)

def ofInt (v : Int) : Numeral :=
  ⟨decide (v < 0), digitsOf v.natAbs⟩

/-- The last 64 bits of the number. No other digit than the first bears on them. -/
def lowWord (x : Numeral) : UInt64 :=
  let low := x.digits.headD 0
  if x.isNegative then -low else low

end Numeral

inductive Width where
  | w32
  | w64
deriving DecidableEq

namespace Width

def bits : Width → Nat
  | w32 => 32
  | w64 => 64

/-- The low bits of a word as a signed word. -/
def signed : Width → UInt64 → Int64
  | w32, word => word.toUInt32.toInt32.toInt64
  | w64, word => word.toInt64

/-- The signed value of the low bits of `v`. -/
def wrap (w : Width) (v : Int) : Int :=
  (w.signed (Numeral.ofInt v).lowWord).toInt

end Width

end BlockCompiler.Target
