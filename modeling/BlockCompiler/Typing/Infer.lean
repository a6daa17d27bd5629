import BlockCompiler.Scope.Basic
import BlockCompiler.Source.Tags
import BlockCompiler.Typing.Operator

/-!
# Types of expressions

The type of an expression follows from its parts, the signature of the function around it and the
scope of its module. Looking for it verifies every part.
-/

namespace BlockCompiler

/-- The places in a program that ask for a type. -/
inductive Construct where
  | branchTest
  | loopTest
  | operand (op : BinOp)
  | negated
  | argument (index : Nat) (callee : Path)
  | returnValue
  | bareReturn
deriving DecidableEq

def Construct.describe : Construct → String
  | branchTest => "condition of `if`"
  | loopTest => "condition of `while`"
  | operand op => "operand of `" ++ op.symbol ++ "`"
  | negated => "operand of unary `-`"
  | argument index callee => "argument " ++ toString index ++ " of `" ++ callee.dotted ++ "`"
  | returnValue => "return value"
  | bareReturn => "`return` without a value"

/-- Trees that cannot come out of name resolution. -/
inductive CheckFault where
  | bareCall (name : String)
  | missingCallee (path : Path)
  | wrongAscription (inner : Expr Unit) (ascribed actual : Ty)
  | unboundVariable (name : String)
deriving DecidableEq

inductive CheckError where
  | mismatch (construct : Construct) (expected actual : Ty) (span? : Option Span)
  | arity (callee : Path) (expected actual : Nat) (span? : Option Span)
  | voidParameter (function name : String) (span? : Option Span)
  | fault (cause : CheckFault)
deriving DecidableEq

variable {τ : Type} [Located τ]

namespace Expr

/-- The span of a node, if its tag knows it. -/
def span? (e : Expr τ) : Option Span :=
  Located.span? e.tag

/-- An operand mismatch as an error at the operand it is about. -/
def operandError (op : BinOp) (lhs rhs : Expr τ) (m : OperandMismatch) : CheckError :=
  .mismatch (.operand op) m.expected m.actual <| match m.side with
    | .lhs => lhs.span?
    | .rhs => rhs.span?

mutual

/-- The type of an expression in a function of signature `sig`. -/
def infer (s : Scope) (sig : Signature) : Expr τ → Except CheckError Ty
  | bareCall _ name _ => .error (.fault (.bareCall name))
  | call tag path args =>
    match s.function? path with
    | none => .error (.fault (.missingCallee path))
    | some symbol =>
      let params := symbol.decl.params
      if args.length = params.length then do
        inferArgs s sig path 1 args params
        return symbol.decl.result
      else .error (.arity path params.length args.length (Located.span? tag))
  | binary _ op lhs rhs => do
    let lhsType ← infer s sig lhs
    let rhsType ← infer s sig rhs
    (op.resultType lhsType rhsType).mapError (operandError op lhs rhs)
  | neg _ operand => do
    let actual ← infer s sig operand
    if actual = .int then return .int
    else throw (.mismatch .negated .int actual operand.span?)
  | ascribed _ ty inner => do
    let actual ← infer s sig inner
    if actual = ty then return ty
    else throw (.fault (.wrongAscription inner.untagged ty actual))
  | lit _ value => .ok value.ty
  | var _ name =>
    match sig.typeOf? name with
    | none => .error (.fault (.unboundVariable name))
    | some ty => .ok ty

/-- Checks the arguments of a call from number `index` on. Each must be a value that fits its
parameter. -/
def inferArgs (s : Scope) (sig : Signature) (callee : Path) (index : Nat) :
    List (Expr τ) → List Param → Except CheckError Unit
  | arg :: args, param :: params => do
    let actual ← infer s sig arg
    if actual ≠ .void ∧ actual.fits param.ty then inferArgs s sig callee (index + 1) args params
    else throw (.mismatch (.argument index callee) param.ty actual arg.span?)
  | _, _ => .ok ()

end

end Expr

end BlockCompiler
