import BlockCompiler.Source.Stmt
import BlockCompiler.Target.Builder

/-!
# Emission faults

Code is emitted for trees whose expressions all carry their types. These are the reasons why a tree
that was never checked may have no code.
-/

namespace BlockCompiler

inductive EmissionFault where
  | untyped (expr : Expr Unit)
  | doublyTyped (expr : Expr Unit)
  | bareCall (name : String)
  | missingCallee (path : Path)
  /-- A call that returns nothing is used as a value of the type it is ascribed. -/
  | noResult (path : Path) (ty : Ty)
  | noRegister (name : String)
  | negatedNonInteger (operand : Expr Unit)
  | noConversion (source dest : Ty) (value : Target.Operand)
  /-- The block builder refused a step. -/
  | builder (cause : Target.Builder.Fault)
deriving DecidableEq

end BlockCompiler
