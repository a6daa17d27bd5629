import BlockCompiler.Scope.Basic
import BlockCompiler.Trace.Traced

/-!
# Name resolution

Resolution replaces every call by bare name with a call by path. A name stands for the module's own
function of that name; if there is none, for the one imported function whose path ends in it. Paths
must lead to visible functions, and variables are the parameters of the function they are used in.
-/

namespace BlockCompiler

inductive ResolveError where
  | undeclared (name : String) (span? : Option Span)
  | ambiguous (name : String) (candidates : List Path) (span? : Option Span)
  | missingImport (module : Path) (span? : Option Span)
deriving DecidableEq

namespace Scope

/-- Whether the module itself declares a function at `path`. -/
def declaresFunction (s : Scope) (path : Path) : Bool :=
  (s.function? path).any Symbol.isOwn

/-- The functions a bare name can stand for, in path order. -/
def candidates (s : Scope) (name : String) : List Path :=
  let own := s.module.child name
  if s.declaresFunction own then [own]
  else (s.functions.imported.map Prod.fst).filter (·.name = name)

/-- The function a bare name stands for. -/
def callee (s : Scope) (name : String) (span? : Option Span) : Except ResolveError Path :=
  match s.candidates name with
  | [] => .error (.undeclared name span?)
  | [path] => .ok path
  | paths => .error (.ambiguous name paths span?)

end Scope

variable {τ : Type} [Located τ]

namespace Expr

/-- A name that is not visible is reported where it stands. -/
def requireVisible (visible : Bool) (name : String) (tag : τ) : Except ResolveError Unit :=
  if visible then .ok () else .error (.undeclared name (Located.span? tag))

mutual

/-- Resolves an expression in a function with the given parameters. A call is looked up before its
arguments are. -/
def resolve (s : Scope) (params : List Param) : Expr τ → Traced ResolveError (Expr τ)
  | bareCall tag name args => do
    let path ← s.callee name (Located.span? tag)
    Traced.report (.callResolved name path)
    return call tag path (← resolveAll s params args)
  | call tag path args => do
    requireVisible (s.function? path).isSome path.dotted tag
    return call tag path (← resolveAll s params args)
  | binary tag op lhs rhs => do
    let lhs ← resolve s params lhs
    return binary tag op lhs (← resolve s params rhs)
  | neg tag operand => do
    return neg tag (← resolve s params operand)
  | ascribed tag ty inner => do
    return ascribed tag ty (← resolve s params inner)
  | lit tag value => return lit tag value
  | var tag name => do
    requireVisible (params.any (·.name = name)) name tag
    return var tag name

def resolveAll (s : Scope) (params : List Param) :
    List (Expr τ) → Traced ResolveError (List (Expr τ))
  | [] => return []
  | e :: es => do
    let e ← resolve s params e
    return e :: (← resolveAll s params es)

end

end Expr

namespace Stmt

mutual

def resolve (s : Scope) (params : List Param) : Stmt τ → Traced ResolveError (Stmt τ)
  | branch tag test thn els => do
    let test ← test.resolve s params
    let thn ← resolveAll s params thn
    return branch tag test thn (← resolveAll s params els)
  | loop tag test body => do
    let test ← test.resolve s params
    return loop tag test (← resolveAll s params body)
  | effect tag value => do
    return effect tag (← value.resolve s params)
  | ret tag none => return ret tag none
  | ret tag (some value) => do
    return ret tag (some (← value.resolve s params))

def resolveAll (s : Scope) (params : List Param) :
    List (Stmt τ) → Traced ResolveError (List (Stmt τ))
  | [] => return []
  | st :: sts => do
    let st ← resolve s params st
    return st :: (← resolveAll s params sts)

end

end Stmt

def Decl.resolve (s : Scope) : Decl τ → Traced ResolveError (Decl τ)
  | function tag decl => do
    return function tag { decl with body := ← Stmt.resolveAll s decl.signature.params decl.body }
  | type tag decl => return type tag decl
  | imports tag module => return imports tag module

/-- Every import must be recorded in the scope. -/
def Scope.requireImports (s : Scope) : List (Path × τ) → Except ResolveError Unit
  | [] => .ok ()
  | (module, tag) :: rest =>
    if s.isImported module then s.requireImports rest
    else .error (.missingImport module (Located.span? tag))

/-- Resolves all bodies of a program, after its imports. -/
def Program.resolve (s : Scope) (p : Program τ) : Traced ResolveError (Program τ) := do
  s.requireImports p.imports
  return { p with decls := ← p.decls.mapM (Decl.resolve s) }

end BlockCompiler
