import BlockCompiler.Target.Width
import Mathlib.Algebra.Ring.Int.Defs
import Mathlib.Data.Int.ModEq
import Mathlib.Data.Nat.Digits.Defs

/-!
# Two's complement

The word an integer is taken as comes from its sign and one digit of its magnitude. It agrees with the
integer modulo the width, since the other digits count multiples of `2 ^ 64`.
-/

namespace BlockCompiler.Target

namespace Numeral

/-- The numeral has the sign and the magnitude of `v`. -/
structure Denotes (x : Numeral) (v : Int) : Prop where
  sign : x.isNegative ↔ v < 0
  magnitude : Nat.ofDigits (2 ^ 64) (x.digits.map UInt64.toNat) = v.natAbs

private theorem ofDigits_digitsOf (n : Nat) :
    Nat.ofDigits (2 ^ 64) ((digitsOf n).map UInt64.toNat) = n := by
  induction n using Nat.strongRecOn with
  | ind n ih =>
    rw [digitsOf]
    split
    · next h => rw [h]; rfl
    · next h =>
      have hlt : n / UInt64.size < n := Nat.div_lt_self (Nat.pos_of_ne_zero h) (by decide)
      rw [List.map_cons, Nat.ofDigits_cons, ih _ hlt, UInt64.toNat_ofNat']
      exact Nat.mod_add_div n (2 ^ 64)

private theorem denotes_ofInt (v : Int) : (ofInt v).Denotes v :=
  ⟨decide_eq_true_iff, ofDigits_digitsOf v.natAbs⟩

private theorem natCast_neg_modEq (word : UInt64) :
    ((-word).toNat : Int) ≡ -word.toNat [ZMOD 2 ^ 64] := by
  have hlt := word.toNat_lt
  rw [UInt64.toNat_neg, UInt64.size, Int.ModEq]
  omega

section Denotes

variable {x : Numeral} {v : Int}

/-- All digits but the first count multiples of `2 ^ 64`. -/
private theorem Denotes.head_modEq (h : x.Denotes v) :
    ((x.digits.headD 0).toNat : Int) ≡ v.natAbs [ZMOD 2 ^ 64] := by
  rw [← h.magnitude]
  cases x.digits with
  | nil => rfl
  | cons digit digits =>
    rw [List.map_cons, Nat.ofDigits_cons, List.headD_cons, Int.ModEq]
    omega

private theorem Denotes.lowWord_modEq (h : x.Denotes v) :
    (x.lowWord.toNat : Int) ≡ v [ZMOD 2 ^ 64] := by
  have hhead := h.head_modEq
  unfold lowWord
  cases hx : x.isNegative with
  | true =>
    have hneg : v < 0 := h.sign.1 hx
    have hv : -(v.natAbs : Int) = v := by omega
    calc ((-x.digits.headD 0).toNat : Int)
        ≡ -(x.digits.headD 0).toNat [ZMOD 2 ^ 64] := natCast_neg_modEq _
      _ ≡ -v.natAbs [ZMOD 2 ^ 64] := hhead.neg
      _ = v := hv
  | false =>
    have hnonneg : ¬v < 0 := fun hv => by simp [h.sign.2 hv] at hx
    have hv : (v.natAbs : Int) = v := by omega
    rwa [hv] at hhead

end Denotes

end Numeral

namespace Width

private theorem toInt_signed (w : Width) (word : UInt64) :
    (w.signed word).toInt = (word.toNat : Int).bmod (2 ^ w.bits) := by
  cases w with
  | w32 =>
    calc word.toUInt32.toInt32.toInt64.toInt
        = word.toUInt32.toInt32.toInt := Int32.toInt_toInt64 _
      _ = (word.toUInt32.toNat : Int).bmod (2 ^ 32) :=
          BitVec.toInt_eq_toNat_bmod word.toUInt32.toBitVec
      _ = ((word.toNat : Int) % (2 ^ 32 : Nat)).bmod (2 ^ 32) := by
          rw [UInt64.toNat_toUInt32, Int.natCast_mod]
      _ = (word.toNat : Int).bmod (2 ^ 32) := Int.emod_bmod _ _
  | w64 => exact BitVec.toInt_eq_toNat_bmod word.toBitVec

/-- Only the residue of a number bears on its wrapped value. -/
theorem toInt_signed_lowWord (w : Width) {x : Numeral} {v : Int} (h : x.Denotes v) :
    (w.signed x.lowWord).toInt = v.bmod (2 ^ w.bits) := by
  have hdvd : ((2 ^ w.bits : Nat) : Int) ∣ 2 ^ 64 := by
    cases w <;> decide
  have hmod : (x.lowWord.toNat : Int) % (2 ^ w.bits : Nat) = v % (2 ^ w.bits : Nat) :=
    h.lowWord_modEq.of_dvd hdvd
  rw [toInt_signed, ← Int.emod_bmod, hmod, Int.emod_bmod]

theorem wrap_eq_bmod (w : Width) (v : Int) : w.wrap v = v.bmod (2 ^ w.bits) :=
  w.toInt_signed_lowWord (Numeral.denotes_ofInt v)

/-- Wrapping an integer keeps the word it stands for. -/
theorem ofInt_wrap (w : Width) (v : Int) :
    BitVec.ofInt w.bits (w.wrap v) = BitVec.ofInt w.bits v := by
  rw [wrap_eq_bmod, ← BitVec.toInt_ofInt, BitVec.ofInt_toInt]

theorem wrap_modEq (w : Width) (v : Int) : w.wrap v ≡ v [ZMOD 2 ^ w.bits] := by
  have hmod : v.bmod (2 ^ w.bits) % (2 ^ w.bits : Nat) = v % (2 ^ w.bits : Nat) := Int.bmod_emod
  rw [wrap_eq_bmod]
  exact_mod_cast hmod

theorem wrap_bounds (w : Width) (v : Int) :
    -2 ^ (w.bits - 1) ≤ w.wrap v ∧ w.wrap v < 2 ^ (w.bits - 1) := by
  have hpos : 0 < 2 ^ w.bits := Nat.two_pow_pos _
  have hle : -(((2 ^ w.bits : Nat) : Int) / 2) ≤ v.bmod (2 ^ w.bits) := Int.le_bmod hpos
  have hlt : v.bmod (2 ^ w.bits) < (((2 ^ w.bits : Nat) : Int) + 1) / 2 := Int.bmod_lt hpos
  rw [wrap_eq_bmod]
  cases w <;> exact ⟨hle, hlt⟩

/-- An integer agrees with its wrapped value in the low bits, and the wrapped value is in the range of
signed words. It comes out the same from every numeral of the integer. -/
theorem wrap_exact (w : Width) (v : Int) :
    w.wrap v ≡ v [ZMOD 2 ^ w.bits] ∧
      (-2 ^ (w.bits - 1) ≤ w.wrap v ∧ w.wrap v < 2 ^ (w.bits - 1)) ∧
      ∀ x : Numeral, x.Denotes v → (w.signed x.lowWord).toInt = w.wrap v := by
  have hnumeral (x : Numeral) (h : x.Denotes v) : (w.signed x.lowWord).toInt = w.wrap v := by
    rw [w.toInt_signed_lowWord h, wrap_eq_bmod]
  exact ⟨w.wrap_modEq v, w.wrap_bounds v, hnumeral⟩

end Width

end BlockCompiler.Target
