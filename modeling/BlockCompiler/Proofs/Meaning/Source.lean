import BlockCompiler.Proofs.Meaning.Effect
import BlockCompiler.Proofs.Straight
import BlockCompiler.Resolution

/-!
# Meaning of source programs

The evaluation of expressions and the runs of statements, for a function that was called with some
arguments. Operands and arguments are evaluated from left to right. Where a value passes between a
type and the unknown type, it is converted; which conversion that is follows from the static types.
-/

namespace BlockCompiler

open Target

/-- A function while it runs: the arguments it was called with and what it refers to. -/
structure Activation (w : Width) (P : Type) where
  world : World w P
  scope : Scope
  signature : Signature
  args : List (Value w P)

variable {w : Width} {P : Type} {τ : Type}

/-- The function a bare name stands for, if there is just one. -/
def Scope.sole? (s : Scope) (name : String) : Option Path :=
  match s.candidates name with
  | [path] => some path
  | _ => none

/-- The type of an expression as far as its head tells. -/
def Expr.headType? (s : Scope) (sig : Signature) : Expr τ → Option Ty
  | bareCall _ name _ => ((s.sole? name).bind s.function?).map (·.decl.result)
  | call _ path _ => (s.function? path).map (·.decl.result)
  | binary _ (.arith _) _ _ => some .int
  | binary _ (.compare _) _ _ => some .bool
  | neg _ _ => some .int
  | ascribed _ _ inner => inner.headType? s sig
  | lit _ value => some value.ty
  | var _ name => sig.typeOf? name

/-- A value of one type as a value of another. -/
def World.convert (world : World w P) (source dest : Ty) (v : Value w P) : Exec w P (Value w P) :=
  match source, dest with
  | .int, .any | .bool, .any => Exec.require (world.box v)
  | .any, .int => Exec.require (world.unboxInt v)
  | .any, .bool => Exec.require (world.unboxBool v)
  | _, _ => pure v

namespace Activation

/-- The value of a parameter. The last parameter of a name hides those before it. -/
def value? (a : Activation w P) (name : String) : Option (Value w P) :=
  ((a.signature.params.zip a.args).reverse.find? (·.1.name = name)).map Prod.snd

/-- Calls a function by its path. `args` computes the arguments for its parameters. -/
def invoke (a : Activation w P) (path : Path) (args : List Param → Exec w P (List (Value w P))) :
    Exec w P (Option (Value w P)) :=
  match a.scope.function? path with
  | none => Exec.stuck
  | some symbol => do
    let args ← args symbol.decl.params
    let v ← a.world.call path.linkName args
    return if symbol.decl.result = .void then none else some v

end Activation

namespace Expr

/-- The value `v` of `e`, converted from the type of `e` to `dest`. -/
def deliver (a : Activation w P) (e : Expr τ) (dest : Ty) (v : Value w P) : Exec w P (Value w P) := do
  let source ← Exec.require (e.headType? a.scope a.signature)
  a.world.convert source dest v

variable [DecidableEq P]

mutual

/-- The value of an expression; a call of a function that returns nothing has none. -/
def eval (a : Activation w P) : Expr τ → Exec w P (Option (Value w P))
  | bareCall _ name args => do
    let path ← Exec.require (a.scope.sole? name)
    a.invoke path (evalArgs a args)
  | call _ path args => a.invoke path (evalArgs a args)
  | binary _ op lhs rhs => do
    let x ← Exec.require (← eval a lhs)
    let y ← Exec.require (← eval a rhs)
    let source ← Exec.require (lhs.headType? a.scope a.signature)
    let source' ← Exec.require (rhs.headType? a.scope a.signature)
    let x ← a.world.convert source (source.against source') x
    let y ← a.world.convert source' (source'.against source) y
    return some (← Value.binary op x y)
  | neg _ operand => do
    let x ← Exec.require (← eval a operand)
    return some (← Exec.require x.negate)
  | ascribed _ _ inner => eval a inner
  | lit _ (.bool value) => return some (.bool value)
  | lit _ (.int value) => return some (.int (BitVec.ofInt w.bits value))
  | lit _ (.str value) => return some (.ptr (a.world.pointer (value.toUTF8.data.toList ++ [0])))
  | var _ name => return some (← Exec.require (a.value? name))

/-- The arguments of a call, one for each parameter and of its type. -/
def evalArgs (a : Activation w P) : List (Expr τ) → List Param → Exec w P (List (Value w P))
  | [], [] => return []
  | arg :: args, param :: params => do
    let v ← Exec.require (← eval a arg)
    let v ← arg.deliver a param.ty v
    return v :: (← evalArgs a args params)
  | _, _ => Exec.stuck

end

/-- The value that `return` hands back for an expression. -/
def evalReturn (a : Activation w P) (e : Expr τ) : Exec w P (Option (Value w P)) := do
  match ← e.eval a with
  | none => return none
  | some v => return some (← e.deliver a a.signature.result v)

end Expr

/-- Where a statement leads to: to the next one, or to the end of the run. -/
inductive Flow (w : Width) (P : Type) where
  | next (calls : History w P)
  | ended (calls : History w P) (ending : Ending w P)

variable [DecidableEq P]

mutual

/-- `st.Runs a calls flow`: run after the given calls, the statement leads to `flow`. -/
inductive Stmt.Runs (a : Activation w P) : Stmt τ → History w P → Flow w P → Prop where
  | effect (t : τ) {value : Expr τ} {v? : Option (Value w P)} {h₀ h₁ : History w P}
      (h : value.eval a h₀ = .ok (v?, h₁)) : Runs a (.effect t value) h₀ (.next h₁)
  | effectTraps (t : τ) {value : Expr τ} {h₀ h₁ : History w P}
      (h : value.eval a h₀ = .error (.trapped h₁)) :
      Runs a (.effect t value) h₀ (.ended h₁ .trapped)
  | bareRet (t : τ) (h₀ : History w P) : Runs a (.ret t none) h₀ (.ended h₀ (.returned none))
  | ret (t : τ) {value : Expr τ} {v? : Option (Value w P)} {h₀ h₁ : History w P}
      (h : value.evalReturn a h₀ = .ok (v?, h₁)) :
      Runs a (.ret t (some value)) h₀ (.ended h₁ (.returned v?))
  | retTraps (t : τ) {value : Expr τ} {h₀ h₁ : History w P}
      (h : value.evalReturn a h₀ = .error (.trapped h₁)) :
      Runs a (.ret t (some value)) h₀ (.ended h₁ .trapped)
  | branchThen (t : τ) {test : Expr τ} {thn els : List (Stmt τ)} {h₀ h₁ : History w P}
      {flow : Flow w P} (h : test.eval a h₀ = .ok (some (.bool true), h₁))
      (arm : Stmt.RunsAll a thn h₁ flow) : Runs a (.branch t test thn els) h₀ flow
  | branchElse (t : τ) {test : Expr τ} {thn els : List (Stmt τ)} {h₀ h₁ : History w P}
      {flow : Flow w P} (h : test.eval a h₀ = .ok (some (.bool false), h₁))
      (arm : Stmt.RunsAll a els h₁ flow) : Runs a (.branch t test thn els) h₀ flow
  | branchTraps (t : τ) {test : Expr τ} {thn els : List (Stmt τ)} {h₀ h₁ : History w P}
      (h : test.eval a h₀ = .error (.trapped h₁)) :
      Runs a (.branch t test thn els) h₀ (.ended h₁ .trapped)
  | loopExit (t : τ) {test : Expr τ} {body : List (Stmt τ)} {h₀ h₁ : History w P}
      (h : test.eval a h₀ = .ok (some (.bool false), h₁)) :
      Runs a (.loop t test body) h₀ (.next h₁)
  | loopAgain (t : τ) {test : Expr τ} {body : List (Stmt τ)} {h₀ h₁ h₂ : History w P}
      {flow : Flow w P} (h : test.eval a h₀ = .ok (some (.bool true), h₁))
      (round : Stmt.RunsAll a body h₁ (.next h₂)) (again : Runs a (.loop t test body) h₂ flow) :
      Runs a (.loop t test body) h₀ flow
  | loopEnded (t : τ) {test : Expr τ} {body : List (Stmt τ)} {h₀ h₁ h₂ : History w P}
      {ending : Ending w P} (h : test.eval a h₀ = .ok (some (.bool true), h₁))
      (round : Stmt.RunsAll a body h₁ (.ended h₂ ending)) :
      Runs a (.loop t test body) h₀ (.ended h₂ ending)
  | loopTraps (t : τ) {test : Expr τ} {body : List (Stmt τ)} {h₀ h₁ : History w P}
      (h : test.eval a h₀ = .error (.trapped h₁)) :
      Runs a (.loop t test body) h₀ (.ended h₁ .trapped)

/-- The same for a block of statements, run one after the other. -/
inductive Stmt.RunsAll (a : Activation w P) : List (Stmt τ) → History w P → Flow w P → Prop where
  | nil (h₀ : History w P) : RunsAll a [] h₀ (.next h₀)
  | cons {st : Stmt τ} {sts : List (Stmt τ)} {h₀ h₁ : History w P} {flow : Flow w P}
      (h : Stmt.Runs a st h₀ (.next h₁)) (rest : RunsAll a sts h₁ flow) :
      RunsAll a (st :: sts) h₀ flow
  | ended {st : Stmt τ} {sts : List (Stmt τ)} {h₀ h₁ : History w P} {ending : Ending w P}
      (h : Stmt.Runs a st h₀ (.ended h₁ ending)) : RunsAll a (st :: sts) h₀ (.ended h₁ ending)

end

/-- How a run ends that has reached the end of a body. -/
def Signature.atEnd (sig : Signature) : Ending w P :=
  if sig.result = .void then .returned none else .fellOff

/-- `f.Ends world s args calls ending`: called with `args`, the function makes these calls and ends
like that. -/
inductive Func.Ends (world : World w P) (s : Scope) (f : Func τ) (args : List (Value w P)) :
    History w P → Ending w P → Prop where
  | ended {calls : History w P} {ending : Ending w P}
      (h : Stmt.RunsAll ⟨world, s, f.signature, args⟩ f.body [] (.ended calls ending)) :
      Ends world s f args calls ending
  | reached {calls : History w P}
      (h : Stmt.RunsAll ⟨world, s, f.signature, args⟩ f.body [] (.next calls)) :
      Ends world s f args calls f.signature.atEnd

end BlockCompiler
