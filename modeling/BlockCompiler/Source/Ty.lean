/-!
# Types

The types of the source language. `any` stands for a value whose type is not known; it fits with
every type.
-/

namespace BlockCompiler

inductive Ty where
  | any
  | bool
  | int
  | str
  | void
deriving DecidableEq, Ord

namespace Ty

def render : Ty → String
  | any => "Any"
  | bool => "Bool"
  | int => "Int"
  | str => "String"
  | void => "Void"

/-- Whether a value of one type may stand where the other is asked for. -/
def fits (a b : Ty) : Bool :=
  a = b || a = any || b = any

theorem fits_iff {a b : Ty} : a.fits b ↔ a = b ∨ a = any ∨ b = any := by
  simp [fits, or_assoc]

theorem fits_comm (a b : Ty) : a.fits b = b.fits a := by
  cases a <;> cases b <;> rfl

end Ty

end BlockCompiler
