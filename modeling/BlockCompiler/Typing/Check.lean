import BlockCompiler.Trace.Traced
import BlockCompiler.Typing.Infer

/-!
# Type checking

A program type checks when no function takes a parameter of type `Void` and every statement of every
body is well typed in its function.
-/

namespace BlockCompiler

variable {τ : Type} [Located τ]

/-- A test must be a truth value; a value of unknown type does not decide anything. -/
def Expr.checkTest (s : Scope) (sig : Signature) (construct : Construct) (test : Expr τ) :
    Except CheckError Unit := do
  let actual ← test.infer s sig
  if actual = .bool then return ()
  else throw (.mismatch construct .bool actual test.span?)

/-- Whether a value of type `actual` may be returned where `result` is declared. Returning the
nothing that a call yields is left to functions that return nothing. -/
def Ty.returnable (result actual : Ty) : Bool :=
  actual.fits result && (actual ≠ .void || result = .void)

namespace Stmt

mutual

def check (s : Scope) (sig : Signature) : Stmt τ → Except CheckError Unit
  | branch _ test thn els => do
    test.checkTest s sig .branchTest
    checkAll s sig thn
    checkAll s sig els
  | loop _ test body => do
    test.checkTest s sig .loopTest
    checkAll s sig body
  | effect _ value => do
    let _ ← value.infer s sig
    return ()
  | ret _ (some value) => do
    let actual ← value.infer s sig
    if sig.result.returnable actual then return ()
    else throw (.mismatch .returnValue sig.result actual value.span?)
  | ret tag none =>
    if Ty.void.fits sig.result then .ok ()
    else .error (.mismatch .bareReturn sig.result .void (Located.span? tag))

def checkAll (s : Scope) (sig : Signature) : List (Stmt τ) → Except CheckError Unit
  | [] => .ok ()
  | st :: sts => do
    check s sig st
    checkAll s sig sts

end

end Stmt

/-- Checks one function: its parameters, then its body. -/
def Func.check (s : Scope) (tag : τ) (f : Func τ) : Except CheckError Unit :=
  match f.signature.params.find? (·.ty = .void) with
  | some param => .error (.voidParameter f.name param.name (Located.span? tag))
  | none => Stmt.checkAll s f.signature f.body

def Decl.check (s : Scope) : Decl τ → Traced CheckError Unit
  | function tag decl => do
    decl.check s tag
    Traced.report (.functionChecked decl.name)
  | type .. | imports .. => return ()

/-- Checks the functions of a program in order, external ones too. -/
def Program.check (s : Scope) (p : Program τ) : Traced CheckError Unit :=
  p.decls.forM (Decl.check s)

end BlockCompiler
