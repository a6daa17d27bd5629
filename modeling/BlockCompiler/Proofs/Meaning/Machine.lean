import BlockCompiler.Proofs.Meaning.Effect
import BlockCompiler.Target.Code

/-!
# Meaning of target code

A machine with registers and with one cell of memory for each slot that was reserved. It runs the
instructions of a block and then follows the terminator to the next block. Runs are cut off after a
number of blocks; a body ends in some way when it does so within some number.
-/

namespace BlockCompiler.Target

variable {w : Width} {P : Type}

structure Memory (w : Width) (P : Type) where
  regs : Reg → Option (Value w P)
  /-- The bytes in a slot, by the register that stands for its address. -/
  cells : Reg → Option (List UInt8)

namespace Memory

def set (m : Memory w P) (r : Reg) (v : Value w P) : Memory w P :=
  { m with regs := fun r' => if r' = r then some v else m.regs r' }

def setCell (m : Memory w P) (r : Reg) (bytes : List UInt8) : Memory w P :=
  { m with cells := fun r' => if r' = r then some bytes else m.cells r' }

def read (m : Memory w P) : Operand → Option (Value w P)
  | .reg r => m.regs r
  | .int v => some (.int (BitVec.ofInt w.bits v))
  | .bool v => some (.bool v)

/-- Registers hold the arguments, and no memory is reserved yet. -/
def enter (regs : List Reg) (args : List (Value w P)) : Memory w P :=
  ⟨fun r => (regs.zip args).lookup r, fun _ => none⟩

end Memory

variable [DecidableEq P]

/-- One instruction. Memory is reserved with zeros in it, and a store replaces all its bytes. -/
def Instr.exec (world : World w P) (m : Memory w P) : Instr → Exec w P (Memory w P)
  | arith dest op lhs rhs => do
    let x ← Exec.require (m.read lhs)
    let y ← Exec.require (m.read rhs)
    return m.set dest (← Value.arith op x y)
  | compare dest op lhs rhs => do
    let x ← Exec.require (m.read lhs)
    let y ← Exec.require (m.read rhs)
    return m.set dest (← Value.compare op x y)
  | neg dest operand => do
    let x ← Exec.require (m.read operand)
    return m.set dest (← Exec.require x.negate)
  | call dest? callee args => do
    let v ← world.call callee (← Exec.require (args.mapM m.read))
    match dest? with
    | some dest => return m.set dest v
    | none => return m
  | alloca dest length => return m.setCell dest (List.replicate length 0)
  | store ptr data => do
    let _ ← Exec.require (m.cells ptr)
    return m.setCell ptr data
  | bitcast dest value => do
    let bytes ← Exec.require (m.cells value)
    return m.set dest (.ptr (world.pointer bytes))
  | intToPtr dest value => do
    let x ← Exec.require (m.read value)
    return m.set dest (← Exec.require (world.box x))
  | ptrToInt dest value .bool => do
    let x ← Exec.require (m.read value)
    return m.set dest (← Exec.require (world.unboxBool x))
  | ptrToInt dest value (.int w') => do
    let x ← Exec.require (m.read value)
    if w' = w then return m.set dest (← Exec.require (world.unboxInt x)) else Exec.stuck
  | ptrToInt _ _ _ => Exec.stuck

/-- Instructions, one after the other. -/
def execAll (world : World w P) (m : Memory w P) : List Instr → Exec w P (Memory w P)
  | [] => return m
  | i :: is => do
    let m ← i.exec world m
    execAll world m is

/-- Runs what is left of a block. `next` goes on in another block. -/
def complete (world : World w P)
    (next : BlockId → Memory w P → History w P → Option (History w P × Ending w P))
    (is : List Instr) (t : Terminator) (m : Memory w P) (calls : History w P) :
    Option (History w P × Ending w P) :=
  match execAll world m is calls with
  | .error (.trapped calls) => some (calls, .trapped)
  | .error .stuck => none
  | .ok (m, calls) =>
    match t with
    | .jump target => next target m calls
    | .branch test thn els =>
      match m.read test with
      | some (.bool v) => next (if v then thn else els) m calls
      | _ => none
    | .ret none => some (calls, .returned none)
    | .ret (some x) => (m.read x).map fun v => (calls, .returned (some v))
    | .unreachable => some (calls, .fellOff)

/-- Runs at most `n` blocks, from the start of block `id` on. -/
def run (world : World w P) (blocks : List Block) :
    Nat → BlockId → Memory w P → History w P → Option (History w P × Ending w P)
  | 0, _, _, _ => none
  | n + 1, id, m, calls =>
    match blocks.find? (·.id = id) with
    | none => none
    | some block => complete world (run world blocks n) block.instrs block.terminator m calls

/-- `body.Ends world args calls ending`: from its first block on, with `args` as arguments, the body
makes these calls and ends like that. -/
def Body.Ends (world : World w P) (body : Body) (args : List (Value w P)) (calls : History w P)
    (ending : Ending w P) : Prop :=
  ∃ entry n, body.blocks.head? = some entry ∧
    run world body.blocks n entry.id (Memory.enter body.args args) [] = some (calls, ending)

end BlockCompiler.Target
