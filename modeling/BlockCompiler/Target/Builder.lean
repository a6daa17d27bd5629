import BlockCompiler.Target.Render

/-!
# Block builder

Blocks under construction. New registers and blocks are numbered in order, instructions go to the
end of the current block, and a terminator closes it for good. A step that would break one of these
rules is refused and changes nothing.

A step is an `Edit`, which leaves a builder behind also when it is refused. Where a refusal ends the
work, only the builder after an accepted step is of use: that is what `push`, `hoist` and `terminate`
give.
-/

namespace BlockCompiler.Target

/-- A block that is still being written. -/
structure OpenBlock where
  label : String
  instrs : List Instr
  terminator? : Option Terminator
deriving DecidableEq

def OpenBlock.append (block : OpenBlock) (i : Instr) : OpenBlock :=
  { block with instrs := block.instrs ++ [i] }

/-- The blocks of one function so far. Its counters do not wrap around: a builder that counts in 32-bit
words does the same as long as it hands out fewer than 2^32 registers and blocks. -/
structure Builder where
  blocks : List OpenBlock
  current? : Option BlockId
  nextReg : Nat
deriving DecidableEq

namespace Builder

/-- Why a step was refused. -/
inductive Fault where
  | noCurrentBlock
  | missingBlock (id : BlockId)
  | closedBlock (id : BlockId)
  | noEntryBlock
  | unterminated (id : BlockId)
deriving DecidableEq

def Fault.message : Fault → String
  | noCurrentBlock => "no block to insert into"
  | missingBlock id => id.render ++ " does not exist"
  | closedBlock id => id.render ++ " is already terminated"
  | noEntryBlock => "no entry block to hoist into"
  | unterminated id => id.render ++ " has no terminator"

def empty : Builder :=
  ⟨[], none, 0⟩

def fresh (b : Builder) : Reg × Builder :=
  (⟨b.nextReg⟩, { b with nextReg := b.nextReg + 1 })

/-- Adds an empty block. The current block stays the same. -/
def create (b : Builder) (label : String) : BlockId × Builder :=
  (⟨b.blocks.length⟩, { b with blocks := b.blocks ++ [⟨label, [], none⟩] })

/-- Makes a block current, whether it exists or not. -/
def moveTo (b : Builder) (id : BlockId) : Builder :=
  { b with current? := some id }

def currentBlock? (b : Builder) : Option OpenBlock :=
  b.current?.bind fun id => b.blocks[id.index]?

/-- Whether the current block can take instructions. -/
def isOpen (b : Builder) : Bool :=
  b.currentBlock?.any (·.terminator?.isNone)

/-- The current block, if it can take instructions. -/
def openBlock (b : Builder) : Except Fault BlockId :=
  match b.current? with
  | none => .error .noCurrentBlock
  | some id =>
    match b.blocks[id.index]? with
    | none => .error (.missingBlock id)
    | some block =>
      match block.terminator? with
      | some _ => .error (.closedBlock id)
      | none => .ok id

/-- The first block, open or not. -/
def entryBlock (b : Builder) : Except Fault BlockId :=
  if b.blocks.isEmpty then .error .noEntryBlock else .ok ⟨0⟩

def modifyBlock (b : Builder) (id : BlockId) (f : OpenBlock → OpenBlock) : Builder :=
  { b with blocks := b.blocks.modify id.index f }

/-- A change of a builder that may be refused. Either way there is a builder to go on with. -/
abbrev Edit :=
  ExceptT Fault (StateM Builder)

namespace Edit

/-- Changes the block at a place, if there is one to change. -/
def amend (place : Builder → Except Fault BlockId) (f : OpenBlock → OpenBlock) : Edit Unit := do
  let id ← liftExcept (place (← get))
  modify (·.modifyBlock id f)

/-- Appends an instruction to the current block. -/
def push (i : Instr) : Edit Unit :=
  amend openBlock (·.append i)

/-- Appends an instruction to the entry block, also after it was closed. -/
def hoist (i : Instr) : Edit Unit :=
  amend entryBlock (·.append i)

/-- Closes the current block. -/
def terminate (t : Terminator) : Edit Unit :=
  amend openBlock ({ · with terminator? := some t })

/-- The builder after a change that was accepted. -/
def result (edit : Edit Unit) (b : Builder) : Except Fault Builder :=
  let (outcome, b') := edit.run.run b
  outcome.map fun _ => b'

end Edit

def push (b : Builder) (i : Instr) : Except Fault Builder :=
  (Edit.push i).result b

def hoist (b : Builder) (i : Instr) : Except Fault Builder :=
  (Edit.hoist i).result b

def terminate (b : Builder) (t : Terminator) : Except Fault Builder :=
  (Edit.terminate t).result b

/-- The block of that number, which must have been closed. -/
def finishBlock (index : Nat) (block : OpenBlock) : Except Fault Block :=
  match block.terminator? with
  | none => .error (.unterminated ⟨index⟩)
  | some t => .ok ⟨⟨index⟩, block.label, block.instrs, t⟩

/-- The finished blocks in order of creation. -/
def finish (b : Builder) : Except Fault (List Block) :=
  b.blocks.zipIdx.mapM fun (block, index) => finishBlock index block

theorem openBlock_eq_ok_iff {b : Builder} {id : BlockId} :
    b.openBlock = .ok id ↔
      b.current? = some id ∧
        ∃ block, b.blocks[id.index]? = some block ∧ block.terminator? = none := by
  unfold openBlock
  constructor
  · intro h
    split at h
    · cases h
    · next id' hc =>
      split at h
      · cases h
      · next block hb =>
        split at h
        · cases h
        · next ht =>
          cases h
          exact ⟨hc, block, hb, ht⟩
  · intro h
    obtain ⟨hc, block, hb, ht⟩ := h
    simp [hc, hb, ht]

theorem entryBlock_of_eq_nil {b : Builder} (h : b.blocks = []) :
    b.entryBlock = .error .noEntryBlock := by
  simp [entryBlock, h]

theorem entryBlock_of_ne_nil {b : Builder} (h : b.blocks ≠ []) : b.entryBlock = .ok ⟨0⟩ := by
  simp [entryBlock, h]

namespace Edit

variable {place : Builder → Except Fault BlockId} {b : Builder}

private theorem run_amend (place : Builder → Except Fault BlockId) (f : OpenBlock → OpenBlock)
    (b : Builder) : (amend place f).run.run b =
      (do let id ← liftExcept (place b)
          modify (·.modifyBlock id f) : Edit Unit).run.run b :=
  rfl

theorem run_amend_of_ok {id : BlockId} (h : place b = .ok id) (f : OpenBlock → OpenBlock) :
    (amend place f).run.run b = (.ok (), b.modifyBlock id f) := by
  rw [run_amend, h]
  rfl

/-- A change that is refused changes nothing. -/
theorem run_amend_of_error {fault : Fault} (h : place b = .error fault) (f : OpenBlock → OpenBlock) :
    (amend place f).run.run b = (.error fault, b) := by
  rw [run_amend, h]
  rfl

theorem result_amend_of_ok {id : BlockId} (h : place b = .ok id) (f : OpenBlock → OpenBlock) :
    (amend place f).result b = .ok (b.modifyBlock id f) := by
  rw [result, run_amend_of_ok h]
  rfl

end Edit

/-- The builder takes instructions just when its current block is open. -/
theorem isOpen_iff {b : Builder} : b.isOpen ↔ ∃ id, b.openBlock = .ok id := by
  simp only [openBlock_eq_ok_iff]
  cases h : b.current? with
  | none => simp [isOpen, currentBlock?, h]
  | some id => cases hb : b.blocks[id.index]? <;> simp [isOpen, currentBlock?, h, hb]

@[simp] theorem length_blocks_modifyBlock (b : Builder) (id : BlockId) (f : OpenBlock → OpenBlock) :
    (b.modifyBlock id f).blocks.length = b.blocks.length := by
  simp [modifyBlock]

end Builder

end BlockCompiler.Target
