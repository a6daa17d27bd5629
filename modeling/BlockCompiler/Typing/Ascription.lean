import BlockCompiler.Scope.Basic
import BlockCompiler.Typing.Operator

/-!
# Type ascriptions

Wraps every expression of a checked program in an ascription of its type. Ascriptions that are
already there are dropped and found again. The rules are those of type checking, but a tree that
breaks them here should have been refused before.
-/

namespace BlockCompiler

/-- Trees that cannot come out of type checking. -/
inductive AscriptionFault where
  | bareCall (name : String)
  | missingCallee (path : Path)
  | arity (path : Path) (expected actual : Nat)
  | argument (param : Param) (path : Path) (actual : Ty)
  | operand (op : BinOp) (expected actual : Ty)
  | negated (actual : Ty)
  | unboundVariable (name : String)
deriving DecidableEq

variable {τ : Type}

namespace Expr

mutual

/-- The expression with ascriptions at every node, and its type. -/
def addTypes (s : Scope) (sig : Signature) : Expr τ → Except AscriptionFault (Expr τ × Ty)
  | bareCall _ name _ => .error (.bareCall name)
  | call tag path args =>
    match s.function? path with
    | none => .error (.missingCallee path)
    | some symbol =>
      let params := symbol.decl.params
      if args.length = params.length then do
        let args ← addTypesArgs s sig path args params
        return (ascribe symbol.decl.result (call tag path args), symbol.decl.result)
      else .error (.arity path params.length args.length)
  | binary tag op lhs rhs => do
    let (lhs, lhsType) ← addTypes s sig lhs
    let (rhs, rhsType) ← addTypes s sig rhs
    let ty ← (op.resultType lhsType rhsType).mapError fun m => .operand op m.expected m.actual
    return (ascribe ty (binary tag op lhs rhs), ty)
  | neg tag operand => do
    let (operand, actual) ← addTypes s sig operand
    if actual = .int then return (ascribe .int (neg tag operand), .int)
    else throw (.negated actual)
  | ascribed _ _ inner => addTypes s sig inner
  | lit tag value => .ok (ascribe value.ty (lit tag value), value.ty)
  | var tag name =>
    match sig.typeOf? name with
    | none => .error (.unboundVariable name)
    | some ty => .ok (ascribe ty (var tag name), ty)

/-- The arguments of a call, each of which must fit its parameter. -/
def addTypesArgs (s : Scope) (sig : Signature) (callee : Path) :
    List (Expr τ) → List Param → Except AscriptionFault (List (Expr τ))
  | arg :: args, param :: params => do
    let (arg, actual) ← addTypes s sig arg
    if actual.fits param.ty then
      return arg :: (← addTypesArgs s sig callee args params)
    else throw (.argument param callee actual)
  | _, _ => .ok []

end

end Expr

namespace Stmt

mutual

def addTypes (s : Scope) (sig : Signature) : Stmt τ → Except AscriptionFault (Stmt τ)
  | branch tag test thn els => do
    let (test, _) ← test.addTypes s sig
    let thn ← addTypesAll s sig thn
    return branch tag test thn (← addTypesAll s sig els)
  | loop tag test body => do
    let (test, _) ← test.addTypes s sig
    return loop tag test (← addTypesAll s sig body)
  | effect tag value => do
    let (value, _) ← value.addTypes s sig
    return effect tag value
  | ret tag none => return ret tag none
  | ret tag (some value) => do
    let (value, _) ← value.addTypes s sig
    return ret tag (some value)

def addTypesAll (s : Scope) (sig : Signature) :
    List (Stmt τ) → Except AscriptionFault (List (Stmt τ))
  | [] => return []
  | st :: sts => do
    let st ← addTypes s sig st
    return st :: (← addTypesAll s sig sts)

end

end Stmt

def Decl.addTypes (s : Scope) : Decl τ → Except AscriptionFault (Decl τ)
  | function tag decl => do
    return function tag { decl with body := ← Stmt.addTypesAll s decl.signature decl.body }
  | type tag decl => return type tag decl
  | imports tag module => return imports tag module

/-- The program with every expression ascribed its type. -/
def Program.addTypes (s : Scope) (p : Program τ) : Except AscriptionFault (Program τ) := do
  return { p with decls := ← p.decls.mapM (Decl.addTypes s) }

end BlockCompiler
