import BlockCompiler.Source.Operator
import BlockCompiler.Source.Ty

/-!
# Operator types

What operators ask of their operands and what they yield. Arithmetic and ordering compute on the
value itself, so an operand of unknown type does not satisfy them. Equality takes any two values
whose types fit.
-/

namespace BlockCompiler

inductive Side where
  | lhs
  | rhs
deriving DecidableEq

/-- The operand that breaks an operator's rule, and the type it should have had. -/
structure OperandMismatch where
  side : Side
  expected : Ty
  actual : Ty
deriving DecidableEq

namespace OperandMismatch

/-- The operand must have exactly this type. -/
def requireExact (side : Side) (expected actual : Ty) : Except OperandMismatch Unit :=
  if actual = expected then .ok () else .error ⟨side, expected, actual⟩

/-- The operand must be a value, and not the nothing that a call may return. -/
def requireValue (side : Side) (actual : Ty) : Except OperandMismatch Unit :=
  if actual = .void then .error ⟨side, .any, actual⟩ else .ok ()

/-- The operand's type must fit. -/
def requireFit (side : Side) (expected actual : Ty) : Except OperandMismatch Unit :=
  if actual.fits expected then .ok () else .error ⟨side, expected, actual⟩

end OperandMismatch

open OperandMismatch in
/-- The type of a binary operation on operands of the given types. -/
def BinOp.resultType (op : BinOp) (lhs rhs : Ty) : Except OperandMismatch Ty :=
  match op with
  | arith _ => do
    requireExact .lhs .int lhs
    requireExact .rhs .int rhs
    return .int
  | compare op =>
    if op.isEquality then do
      requireValue .lhs lhs
      requireValue .rhs rhs
      requireFit .rhs lhs rhs
      return .bool
    else do
      requireExact .lhs .int lhs
      requireExact .rhs .int rhs
      return .bool

end BlockCompiler
