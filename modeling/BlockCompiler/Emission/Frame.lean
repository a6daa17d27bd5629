import BlockCompiler.Emission.Fault
import BlockCompiler.Scope.Basic
import BlockCompiler.Source.Tags
import BlockCompiler.Trace.Traced

/-!
# Emitting into one function

Emission threads a block builder through the statements of a body. The frame holds what stays fixed
meanwhile: the module's scope, the width of integers and the function's signature.
-/

namespace BlockCompiler

open Target

/-- Values of unknown type and strings are both held as pointers. -/
def Ty.target (w : Width) : Ty → Target.Ty
  | any | str => .ptr
  | bool => .bool
  | int => .int w
  | void => .void

structure Frame where
  scope : Scope
  width : Width
  signature : Signature

namespace Frame

/-- The registers that hold the arguments: the first ones, in order. -/
def args (f : Frame) : List Reg :=
  (List.range f.signature.params.length).map Reg.mk

/-- The register of a parameter. The last parameter of a name hides those before it. -/
def register? (f : Frame) (name : String) : Option Reg :=
  ((f.signature.params.zip f.args).reverse.find? (·.1.name = name)).map Prod.snd

end Frame

/-- Emission: steps of a block builder, which may fail and which report events. -/
abbrev Emit :=
  StateT Builder (Traced EmissionFault)

namespace Emit

variable {α β : Type}

def fail (fault : EmissionFault) : Emit α :=
  fun _ => Traced.ofExcept (.error fault)

def report (event : Event) : Emit Unit :=
  StateT.lift (Traced.report event)

/-- A step of the builder that it may refuse. -/
def attempt (step : Builder → Except Builder.Fault Builder) : Emit Unit :=
  fun b => Traced.ofExcept (((step b).map ((), ·)).mapError EmissionFault.builder)

def fresh : Emit Reg :=
  fun b => pure b.fresh

def create (label : String) : Emit BlockId :=
  fun b => pure (b.create label)

def moveTo (id : BlockId) : Emit Unit :=
  fun b => pure ((), b.moveTo id)

def isOpen : Emit Bool :=
  fun b => pure (b.isOpen, b)

def push (i : Instr) : Emit Unit :=
  attempt (·.push i)

def hoist (i : Instr) : Emit Unit :=
  attempt (·.hoist i)

def terminate (t : Terminator) : Emit Unit :=
  attempt (·.terminate t)

/-- Closes the current block unless that has happened. -/
def closeWith (t : Terminator) : Emit Unit := do
  if ← isOpen then terminate t

/-- Pushes an instruction that writes a new register. -/
def define (instr : Reg → Instr) : Emit Operand := do
  let dest ← fresh
  push (instr dest)
  return .reg dest

@[simp] theorem outcome_pure (a : α) (b : Builder) :
    ((pure a : Emit α) b).outcome = .ok (a, b) := rfl

/-- The outcome of two steps is that of the second from where the first has left the builder. -/
@[simp] theorem outcome_bind (x : Emit α) (f : α → Emit β) (b : Builder) :
    ((x >>= f) b).outcome = (x b).outcome >>= fun r => (f r.1 r.2).outcome :=
  Traced.outcome_bind (x b) fun r => f r.1 r.2

/-- Two steps succeed just when each succeeds in turn. -/
theorem bind_eq_ok_iff {x : Emit α} {f : α → Emit β} {b : Builder} {r : β × Builder} :
    ((x >>= f) b).outcome = .ok r ↔
      ∃ a b', (x b).outcome = .ok (a, b') ∧ (f a b').outcome = .ok r := by
  rw [outcome_bind]
  cases (x b).outcome with
  | error e => simp [bind, Except.bind]
  | ok r' =>
    constructor
    · exact fun h => ⟨r'.1, r'.2, rfl, h⟩
    · rintro ⟨a, b', h, hf⟩
      cases h
      exact hf

@[simp] theorem outcome_fail (fault : EmissionFault) (b : Builder) :
    ((fail fault : Emit α) b).outcome = .error fault := rfl

@[simp] theorem outcome_report (event : Event) (b : Builder) :
    (report event b).outcome = .ok ((), b) := rfl

@[simp] theorem outcome_attempt (step : Builder → Except Builder.Fault Builder) (b : Builder) :
    (attempt step b).outcome = ((step b).map ((), ·)).mapError EmissionFault.builder := rfl

@[simp] theorem outcome_fresh (b : Builder) : (fresh b).outcome = .ok b.fresh := rfl

@[simp] theorem outcome_create (label : String) (b : Builder) :
    (create label b).outcome = .ok (b.create label) := rfl

@[simp] theorem outcome_moveTo (id : BlockId) (b : Builder) :
    (moveTo id b).outcome = .ok ((), b.moveTo id) := rfl

@[simp] theorem outcome_isOpen (b : Builder) : (isOpen b).outcome = .ok (b.isOpen, b) := rfl

end Emit

end BlockCompiler
