import BlockCompiler.Proofs.Stages
import Mathlib.Data.List.Induction

/-!
# Histories of a builder

Whatever steps are tried on a new builder, in whatever order, it holds what its history tells: each
block has the instructions that were accepted for it, as they came, and the terminator that closed it.
Refused steps leave no trace.
-/

namespace BlockCompiler.Target

namespace Builder

/-- A step in building code. -/
inductive Step where
  | fresh
  | create (label : String)
  | moveTo (id : BlockId)
  | push (i : Instr)
  | hoist (i : Instr)
  | terminate (t : Terminator)
deriving DecidableEq

/-- What a step hands out. -/
inductive Answer where
  | reg (r : Reg)
  | block (id : BlockId)
  | done
deriving DecidableEq

/-- The register that an answer hands out. -/
def handedReg? : Except Fault Answer → Option Reg
  | .ok (.reg r) => some r
  | _ => none

/-- The change that a step makes, with its answer. -/
def Step.edit : Step → Edit Answer
  | fresh => return .reg (← modifyGet Builder.fresh)
  | create label => return .block (← modifyGet (·.create label))
  | moveTo id => do
    modify (·.moveTo id)
    return .done
  | push i => do
    Edit.push i
    return .done
  | hoist i => do
    Edit.hoist i
    return .done
  | terminate t => do
    Edit.terminate t
    return .done

/-- The answer to a step, and the builder after it. -/
def take (b : Builder) (st : Step) : Except Fault Answer × Builder :=
  st.edit.run.run b

/-- All that a step can do: `b.Takes st answer b'`. -/
inductive Takes (b : Builder) : Step → Except Fault Answer → Builder → Prop where
  | fresh : Takes b .fresh (.ok (.reg ⟨b.nextReg⟩)) { b with nextReg := b.nextReg + 1 }
  | create (label : String) :
      Takes b (.create label) (.ok (.block ⟨b.blocks.length⟩)) (b.add label)
  | moveTo (id : BlockId) : Takes b (.moveTo id) (.ok .done) (b.moveTo id)
  | push (j : Instr) {id : BlockId} {block : OpenBlock} (hc : b.current? = some id)
      (hb : b.blocks[id.index]? = some block) (ht : block.terminator? = none) :
      Takes b (.push j) (.ok .done) (b.modifyBlock id (·.append j))
  | hoist (j : Instr) (hb : b.blocks ≠ []) :
      Takes b (.hoist j) (.ok .done) (b.modifyBlock ⟨0⟩ (·.append j))
  | terminate (t : Terminator) {id : BlockId} {block : OpenBlock} (hc : b.current? = some id)
      (hb : b.blocks[id.index]? = some block) (ht : block.terminator? = none) :
      Takes b (.terminate t) (.ok .done) (b.modifyBlock id ({ · with terminator? := some t }))
  | pushRefused (j : Instr) (fault : Fault) (h : b.isOpen = false) :
      Takes b (.push j) (.error fault) b
  | hoistRefused (j : Instr) (fault : Fault) (hb : b.blocks = []) :
      Takes b (.hoist j) (.error fault) b
  | terminateRefused (t : Terminator) (fault : Fault) (h : b.isOpen = false) :
      Takes b (.terminate t) (.error fault) b

variable {b b' : Builder} {st : Step} {answer : Except Fault Answer}

private theorem isOpen_of_openBlock_error {fault : Fault} (h : b.openBlock = .error fault) :
    b.isOpen = false := by
  refine Bool.eq_false_iff.2 fun ho => ?_
  obtain ⟨id, hid⟩ := isOpen_iff.1 ho
  rw [h] at hid
  cases hid

/-- An accepted change is answered, and the builder is the changed one. -/
private theorem run_amend_done_of_ok {place : Builder → Except Fault BlockId} {id : BlockId}
    (h : place b = .ok id) (f : OpenBlock → OpenBlock) :
    (do Edit.amend place f; return Answer.done : Edit Answer).run.run b =
      (.ok .done, b.modifyBlock id f) := by
  rw [ExceptT.run_bind, StateT.run_bind, Edit.run_amend_of_ok h]
  rfl

/-- A refused change is answered with its fault, and the builder is the old one. -/
private theorem run_amend_done_of_error {place : Builder → Except Fault BlockId} {fault : Fault}
    (h : place b = .error fault) (f : OpenBlock → OpenBlock) :
    (do Edit.amend place f; return Answer.done : Edit Answer).run.run b = (.error fault, b) := by
  rw [ExceptT.run_bind, StateT.run_bind, Edit.run_amend_of_error h]
  rfl

private theorem takes_take (b : Builder) (st : Step) : b.Takes st (b.take st).1 (b.take st).2 := by
  cases st with
  | fresh => exact .fresh
  | create label => exact .create label
  | moveTo id => exact .moveTo id
  | push j =>
    rw [take, Step.edit, Edit.push]
    cases ho : b.openBlock with
    | error fault =>
      rw [run_amend_done_of_error ho]
      exact .pushRefused j fault (isOpen_of_openBlock_error ho)
    | ok id =>
      obtain ⟨hc, block, hb, ht⟩ := openBlock_eq_ok_iff.1 ho
      rw [run_amend_done_of_ok ho]
      exact .push j hc hb ht
  | hoist j =>
    rw [take, Step.edit, Edit.hoist]
    by_cases hb : b.blocks = []
    · rw [run_amend_done_of_error (entryBlock_of_eq_nil hb)]
      exact .hoistRefused j .noEntryBlock hb
    · rw [run_amend_done_of_ok (entryBlock_of_ne_nil hb)]
      exact .hoist j hb
  | terminate t =>
    rw [take, Step.edit, Edit.terminate]
    cases ho : b.openBlock with
    | error fault =>
      rw [run_amend_done_of_error ho]
      exact .terminateRefused t fault (isOpen_of_openBlock_error ho)
    | ok id =>
      obtain ⟨hc, block, hb, ht⟩ := openBlock_eq_ok_iff.1 ho
      rw [run_amend_done_of_ok ho]
      exact .terminate t hc hb ht

namespace Step

def label? : Step → Option String
  | create label => some label
  | _ => none

/-- The block that a step makes current. -/
def target? : Step → Option BlockId
  | moveTo id => some id
  | _ => none

/-- What a step writes to block `i`, given the current block. -/
def writes? (i : Nat) (current? : Option BlockId) : Step → Option Instr
  | push j => if current? = some ⟨i⟩ then some j else none
  | hoist j => if i = 0 then some j else none
  | _ => none

/-- How a step closes block `i`, given the current block. -/
def closes? (i : Nat) (current? : Option BlockId) : Step → Option Terminator
  | terminate t => if current? = some ⟨i⟩ then some t else none
  | _ => none

end Step

/-- The instructions of block `i`. -/
def instrsAt (b : Builder) (i : Nat) : List Instr :=
  b.blocks[i]?.elim [] OpenBlock.instrs

/-- The terminator of block `i`, if it has been closed. -/
def closing? (b : Builder) (i : Nat) : Option Terminator :=
  b.blocks[i]?.elim none OpenBlock.terminator?

private theorem getElem?_blocks_modifyBlock (b : Builder) (id : BlockId) (f : OpenBlock → OpenBlock)
    (i : Nat) : (b.modifyBlock id f).blocks[i]? =
      b.blocks[i]?.map fun block => if id = ⟨i⟩ then f block else block := by
  simp only [modifyBlock, List.getElem?_modify]
  by_cases hi : id = ⟨i⟩
  · subst hi
    simp
  · have hne : id.index ≠ i := fun he => hi (by rw [← he])
    simp [hi, hne]

section Views

variable {α : Type} {view : OpenBlock → α} {blank : α}

/-- A new block looks as if it were not there. -/
private theorem elim_blocks_add (hview : ∀ label, view ⟨label, [], none⟩ = blank) (b : Builder)
    (label : String) (i : Nat) :
    (b.add label).blocks[i]?.elim blank view = b.blocks[i]?.elim blank view := by
  rw [blocks_add, List.getElem?_append]
  split
  · rfl
  · next hi =>
    rw [List.getElem?_eq_none (Nat.le_of_not_lt hi), List.getElem?_singleton]
    split
    · exact hview label
    · rfl

/-- A change that is not seen in a block is not seen in the builder. -/
private theorem elim_blocks_modifyBlock {f : OpenBlock → OpenBlock}
    (hview : ∀ block, view (f block) = view block) (b : Builder) (id : BlockId) (i : Nat) :
    (b.modifyBlock id f).blocks[i]?.elim blank view = b.blocks[i]?.elim blank view := by
  rw [getElem?_blocks_modifyBlock]
  cases b.blocks[i]? with
  | none => rfl
  | some block => by_cases hi : id = ⟨i⟩ <;> simp [hi, hview]

end Views

private theorem labels_modifyBlock {f : OpenBlock → OpenBlock}
    (hf : ∀ block, (f block).label = block.label) (b : Builder) (id : BlockId) :
    (b.modifyBlock id f).blocks.map OpenBlock.label = b.blocks.map OpenBlock.label := by
  refine List.ext_getElem? fun i => ?_
  rw [List.getElem?_map, List.getElem?_map, getElem?_blocks_modifyBlock]
  cases b.blocks[i]? with
  | none => rfl
  | some block => by_cases hi : id = ⟨i⟩ <;> simp [hi, hf]

private theorem instrsAt_modifyBlock {id : BlockId} (hid : id.index < b.blocks.length) (j : Instr)
    (i : Nat) :
    (b.modifyBlock id (·.append j)).instrsAt i =
      b.instrsAt i ++ (if id = ⟨i⟩ then some j else none).toList := by
  rw [instrsAt, instrsAt, getElem?_blocks_modifyBlock]
  by_cases hi : id = ⟨i⟩
  · subst hi
    simp [List.getElem?_eq_getElem hid, OpenBlock.append]
  · simp [hi]

private theorem closing?_modifyBlock {id : BlockId} {block : OpenBlock}
    (hb : b.blocks[id.index]? = some block) (ht : block.terminator? = none) (t : Terminator) (i : Nat) :
    ((b.modifyBlock id ({ · with terminator? := some t })).closing? i).toList =
      (b.closing? i).toList ++ (if id = ⟨i⟩ then some t else none).toList := by
  rw [closing?, closing?, getElem?_blocks_modifyBlock]
  by_cases hi : id = ⟨i⟩
  · subst hi
    simp [hb, ht]
  · simp [hi]

namespace Takes

private theorem current?_eq (h : b.Takes st answer b') :
    b'.current? = st.target?.or b.current? := by
  cases h <;> rfl

private theorem labels_eq (h : b.Takes st answer b') :
    b'.blocks.map OpenBlock.label = b.blocks.map OpenBlock.label ++ st.label?.toList := by
  cases h with
  | create label => simp [Step.label?]
  | push | hoist | terminate =>
    rw [labels_modifyBlock (by exact fun _ => rfl)]
    exact (List.append_nil _).symm
  | fresh | moveTo | pushRefused | hoistRefused | terminateRefused => exact (List.append_nil _).symm

/-- A block gets what is pushed while it is current; the entry block also gets what is hoisted. -/
private theorem instrsAt_eq (h : b.Takes st answer b') (i : Nat) :
    b'.instrsAt i =
      b.instrsAt i ++ (if answer.isOk then st.writes? i b.current? else none).toList := by
  cases h with
  | create label =>
    rw [instrsAt, elim_blocks_add fun _ => rfl]
    exact (List.append_nil _).symm
  | push j hc hb ht =>
    rw [instrsAt_modifyBlock (List.getElem?_eq_some_iff.1 hb).1, hc]
    simp [Step.writes?, Except.isOk, Except.toBool]
  | hoist j hb =>
    rw [instrsAt_modifyBlock (List.length_pos_iff.2 hb)]
    simp [Step.writes?, Except.isOk, Except.toBool, eq_comm]
  | terminate t hc hb ht =>
    rw [instrsAt, elim_blocks_modifyBlock (by exact fun _ => rfl)]
    exact (List.append_nil _).symm
  | fresh | moveTo | pushRefused | hoistRefused | terminateRefused => exact (List.append_nil _).symm

private theorem closing?_eq (h : b.Takes st answer b') (i : Nat) :
    (b'.closing? i).toList =
      (b.closing? i).toList ++ (if answer.isOk then st.closes? i b.current? else none).toList := by
  cases h with
  | create label =>
    rw [closing?, elim_blocks_add fun _ => rfl]
    exact (List.append_nil _).symm
  | push | hoist =>
    rw [closing?, elim_blocks_modifyBlock (by exact fun _ => rfl)]
    exact (List.append_nil _).symm
  | terminate t hc hb ht =>
    rw [closing?_modifyBlock hb ht, hc]
    simp [Step.closes?, Except.isOk, Except.toBool]
  | fresh | moveTo | pushRefused | hoistRefused | terminateRefused => exact (List.append_nil _).symm

private theorem nextReg_eq (h : b.Takes st answer b') :
    b'.nextReg = b.nextReg + [st].count .fresh := by
  cases h <;> rfl

/-- Only a step that asks for a register is handed one, and it is the next. -/
private theorem handedReg?_eq (h : b.Takes st answer b') :
    handedReg? answer = if st = .fresh then some ⟨b.nextReg⟩ else none := by
  cases h <;> rfl

/-- A step that is refused changes nothing. -/
theorem eq_of_refused (h : b.Takes st answer b') (hr : answer.isOk = false) : b' = b := by
  cases h with
  | pushRefused | hoistRefused | terminateRefused => rfl
  | fresh | create | moveTo | push | hoist | terminate => cases hr

/-- When a step is accepted. -/
private theorem isOk_iff (h : b.Takes st answer b') :
    answer.isOk ↔ match st with
      | .push _ | .terminate _ => b.isOpen
      | .hoist _ => b.blocks ≠ []
      | .fresh | .create _ | .moveTo _ => True := by
  cases h with
  | fresh | create | moveTo => simp [Except.isOk, Except.toBool]
  | push j hc hb ht | terminate t hc hb ht =>
    simpa [Except.isOk, Except.toBool] using isOpen_iff_exists.2 ⟨_, _, hc, hb, ht⟩
  | hoist j hb => simpa [Except.isOk, Except.toBool] using hb
  | pushRefused j fault h | terminateRefused t fault h => simpa [Except.isOk, Except.toBool] using h
  | hoistRefused j fault hb => simpa [Except.isOk, Except.toBool] using hb

end Takes

private theorem closing?_eq_none_iff {i : Nat} (hi : i < b.blocks.length) :
    b.closing? i = none ↔ ∃ block, b.blocks[i]? = some block ∧ block.terminator? = none := by
  rw [closing?, List.getElem?_eq_getElem hi]
  simp

private theorem finishBlock_eq_error_iff {i : Nat} {block : OpenBlock} {fault : Fault} :
    finishBlock i block = .error fault ↔ block.terminator? = none ∧ fault = .unterminated ⟨i⟩ := by
  unfold finishBlock
  cases block.terminator? with
  | none => simp [eq_comm]
  | some t => simp

private theorem exists_finishBlock_eq_ok_iff {i : Nat} {block : OpenBlock}
    (hb : b.blocks[i]? = some block) :
    (∃ done, finishBlock i block = .ok done) ↔ b.closing? i ≠ none := by
  simp only [finishBlock_eq_ok_iff, closing?, hb, Option.elim_some, Option.ne_none_iff_exists']
  exact ⟨fun ⟨_, t, ht, _⟩ => ⟨t, ht⟩, fun ⟨t, ht⟩ => ⟨_, t, ht, rfl⟩⟩

/-- The lowest block that was not closed is the one that finishing fails for. -/
theorem finish_eq_error_iff {fault : Fault} :
    b.finish = .error fault ↔ ∃ i < b.blocks.length, fault = .unterminated ⟨i⟩ ∧
      b.closing? i = none ∧ ∀ j < i, b.closing? j ≠ none := by
  -- blocks are finished together with their numbers
  have hat : ∀ (i : Nat) (entry : OpenBlock × Nat), b.blocks.zipIdx[i]? = some entry ↔
      ∃ block, b.blocks[i]? = some block ∧ entry = (block, i) := by
    intro i entry
    rw [List.getElem?_zipIdx, Option.map_eq_some_iff, Nat.zero_add]
    simp only [eq_comm]
  rw [finish, Outcome.mapM_eq_error]
  constructor
  · rintro ⟨i, entry, hi, he, hbefore⟩
    obtain ⟨block, hb, rfl⟩ := (hat i entry).1 hi
    obtain ⟨ht, rfl⟩ := finishBlock_eq_error_iff.1 he
    have hlt := (List.getElem?_eq_some_iff.1 hb).1
    refine ⟨i, hlt, rfl, (closing?_eq_none_iff hlt).2 ⟨block, hb, ht⟩, ?_⟩
    intro j hj
    have hb' := List.getElem?_eq_getElem (Nat.lt_trans hj hlt)
    exact (exists_finishBlock_eq_ok_iff hb').1 (hbefore j hj _ ((hat j _).2 ⟨_, hb', rfl⟩))
  · rintro ⟨i, hlt, rfl, hn, hbefore⟩
    obtain ⟨block, hb, ht⟩ := (closing?_eq_none_iff hlt).1 hn
    refine ⟨i, (block, i), (hat i _).2 ⟨block, hb, rfl⟩, finishBlock_eq_error_iff.2 ⟨ht, rfl⟩, ?_⟩
    intro j hj entry hentry
    obtain ⟨block', hb', rfl⟩ := (hat j entry).1 hentry
    exact (exists_finishBlock_eq_ok_iff hb').2 (hbefore j hj)

theorem exists_finish_iff :
    (∃ blocks, b.finish = .ok blocks) ↔ ∀ i < b.blocks.length, b.closing? i ≠ none := by
  constructor
  · rintro ⟨blocks, h⟩ i hi hn
    obtain ⟨block, hb, ht⟩ := (closing?_eq_none_iff hi).1 hn
    obtain ⟨t, ht', _⟩ := (finish_eq_ok_iff.1 h).2 i block hb
    rw [ht] at ht'
    cases ht'
  · intro h
    refine exists_finish_eq_ok fun block hblock hn => ?_
    obtain ⟨i, hb⟩ := List.getElem?_of_mem hblock
    have hlt := (List.getElem?_eq_some_iff.1 hb).1
    exact h i hlt ((closing?_eq_none_iff hlt).2 ⟨block, hb, hn⟩)

private theorem isOpen_iff_closing? :
    b.isOpen ↔
      ∃ id, b.current? = some id ∧ id.index < b.blocks.length ∧ b.closing? id.index = none := by
  rw [isOpen_iff_exists]
  constructor
  · rintro ⟨id, block, hc, hb, ht⟩
    have hlt := (List.getElem?_eq_some_iff.1 hb).1
    exact ⟨id, hc, hlt, (closing?_eq_none_iff hlt).2 ⟨block, hb, ht⟩⟩
  · rintro ⟨id, hc, hlt, hn⟩
    obtain ⟨block, hb, ht⟩ := (closing?_eq_none_iff hlt).1 hn
    exact ⟨id, block, hc, hb, ht⟩

end Builder

/-! ### Whole histories -/

namespace History

open Builder

/-- The builder after the steps `past`, the first of which was taken on a new one. -/
def builder (past : List Step) : Builder :=
  past.foldl (fun b st => (b.take st).2) empty

/-- The answer to a step that is tried after the steps `past`. -/
def answer (past : List Step) (st : Step) : Except Fault Answer :=
  ((builder past).take st).1

def accepts (past : List Step) (st : Step) : Bool :=
  (answer past st).isOk

/-- The block that was made current last. -/
def current? (past : List Step) : Option BlockId :=
  (past.filterMap Step.target?).getLast?

/-- Goes through a history and lists what `find` makes of each step, given the steps before it. -/
def gather {α : Type} (find : List Step → Step → Option α) (past : List Step) : List Step → List α
  | [] => []
  | st :: later => (find past st).toList ++ gather find (past ++ [st]) later

/-- The registers that were handed out. -/
def registers (h : List Step) : List Reg :=
  gather (fun past st => handedReg? (answer past st)) [] h

/-- The labels of the blocks that were created. -/
def labels (h : List Step) : List String :=
  h.filterMap Step.label?

/-- The steps that were not refused. -/
def accepted (h : List Step) : List Step :=
  gather (fun past st => if accepts past st then some st else none) [] h

/-- The instructions that were accepted for block `i`. -/
def written (h : List Step) (i : Nat) : List Instr :=
  gather (fun past st => if accepts past st then st.writes? i (current? past) else none) [] h

/-- The terminators that were accepted for block `i`. -/
def closings (h : List Step) (i : Nat) : List Terminator :=
  gather (fun past st => if accepts past st then st.closes? i (current? past) else none) [] h

/-- What a step asks of the history before it: to push or to terminate, the current block must have been
created and not been closed, and to hoist there must be a block. -/
def Permits (past : List Step) : Step → Prop
  | .push _ | .terminate _ =>
    ∃ id, current? past = some id ∧ id.index < (labels past).length ∧ closings past id.index = []
  | .hoist _ => labels past ≠ []
  | .fresh | .create _ | .moveTo _ => True

private theorem builder_concat (past : List Step) (st : Step) :
    builder (past ++ [st]) = ((builder past).take st).2 := by
  rw [builder, List.foldl_append]
  rfl

theorem takes (past : List Step) (st : Step) :
    (builder past).Takes st (answer past st) (builder (past ++ [st])) := by
  rw [builder_concat]
  exact takes_take _ st

private theorem gather_append {α : Type} (find : List Step → Step → Option α) (past h : List Step)
    (st : Step) :
    gather find past (h ++ [st]) = gather find past h ++ (find (past ++ h) st).toList := by
  induction h generalizing past with
  | nil => simp [gather]
  | cons first h ih => simp [gather, ih]

private theorem gather_concat {α : Type} (find : List Step → Step → Option α) (h : List Step)
    (st : Step) :
    gather find [] (h ++ [st]) = gather find [] h ++ (find h st).toList :=
  gather_append find [] h st

private theorem current?_builder (h : List Step) : (builder h).current? = current? h := by
  induction h using List.reverseRecOn with
  | nil => rfl
  | append_singleton h st ih =>
    rw [(takes h st).current?_eq, ih, current?, current?, List.filterMap_append, List.getLast?_append]
    cases st <;> rfl

private theorem labels_builder (h : List Step) :
    (builder h).blocks.map OpenBlock.label = labels h := by
  induction h using List.reverseRecOn with
  | nil => rfl
  | append_singleton h st ih =>
    rw [(takes h st).labels_eq, ih, labels, labels, List.filterMap_append]
    cases st <;> rfl

theorem length_blocks_builder (h : List Step) : (builder h).blocks.length = (labels h).length := by
  rw [← labels_builder, List.length_map]

private theorem instrsAt_builder (h : List Step) (i : Nat) :
    (builder h).instrsAt i = written h i := by
  induction h using List.reverseRecOn with
  | nil => rfl
  | append_singleton h st ih =>
    rw [(takes h st).instrsAt_eq, ih, current?_builder, written, written, gather_concat]
    rfl

private theorem closing?_builder (h : List Step) (i : Nat) :
    ((builder h).closing? i).toList = closings h i := by
  induction h using List.reverseRecOn with
  | nil => rfl
  | append_singleton h st ih =>
    rw [(takes h st).closing?_eq, ih, current?_builder, closings, closings, gather_concat]
    rfl

theorem closings_eq_nil_iff (h : List Step) (i : Nat) :
    (builder h).closing? i = none ↔ closings h i = [] := by
  rw [← closing?_builder, Option.toList_eq_nil_iff]

private theorem nextReg_builder (h : List Step) : (builder h).nextReg = h.count .fresh := by
  induction h using List.reverseRecOn with
  | nil => rfl
  | append_singleton h st ih => rw [(takes h st).nextReg_eq, ih, List.count_append]

theorem registers_eq (h : List Step) : registers h = (List.range (h.count .fresh)).map Reg.mk := by
  induction h using List.reverseRecOn with
  | nil => rfl
  | append_singleton h st ih =>
    rw [registers, gather_concat, ← registers, ih, (takes h st).handedReg?_eq, nextReg_builder,
      List.count_append]
    by_cases hst : st = .fresh
    · subst hst
      rw [if_pos rfl, List.count_singleton_self, List.range_succ, List.map_append]
      rfl
    · simp [hst]

theorem builder_accepted (h : List Step) : builder (accepted h) = builder h := by
  induction h using List.reverseRecOn with
  | nil => rfl
  | append_singleton h st ih =>
    rw [accepted, gather_concat, ← accepted]
    cases hst : accepts h st with
    | false =>
      -- left out on one side, without effect on the other
      rw [(takes h st).eq_of_refused hst, if_neg (by simp)]
      simpa using ih
    | true =>
      rw [if_pos rfl, Option.toList_some, builder_concat, builder_concat, ih]

theorem accepts_iff (h : List Step) (st : Step) : accepts h st ↔ Permits h st := by
  rw [accepts, (takes h st).isOk_iff]
  cases st with
  | push | terminate =>
    simp only [isOpen_iff_closing?, current?_builder, length_blocks_builder, closings_eq_nil_iff]
    rfl
  | hoist =>
    simp only [Permits, ← labels_builder, ne_eq, List.map_eq_nil_iff]
  | fresh | create | moveTo => rfl

/-- A finished block is what the history tells of it. -/
theorem block_eq {h : List Step} {blocks : List Block} (hf : (builder h).finish = .ok blocks) {i : Nat}
    {block : Block} (hi : blocks[i]? = some block) :
    block.id = ⟨i⟩ ∧ (labels h)[i]? = some block.label ∧ block.instrs = written h i ∧
      closings h i = [block.terminator] := by
  obtain ⟨pending, t, hb, ht, rfl⟩ := exists_of_finish hf hi
  refine ⟨rfl, ?_, ?_, ?_⟩
  · rw [← labels_builder, List.getElem?_map, hb]
    rfl
  · rw [← instrsAt_builder, instrsAt, hb]
    rfl
  · rw [← closing?_builder, closing?, hb, Option.elim_some, ht]
    rfl

/-- A builder records exactly what was accepted, whatever history of steps `h` it was taken through.
Refused steps leave no trace. Registers and blocks are numbered as they are asked for. The builder can
be finished just when every block that was created was closed, and otherwise the lowest block that was
not is reported. The finished blocks have the labels they were created with, the instructions that were
accepted for them, in order, and the one terminator that was; after that terminator nothing more is
accepted for them but what is hoisted. -/
theorem finish_recorded (h : List Step) :
    (∀ st, accepts h st = false → builder (h ++ [st]) = builder h) ∧
      builder (accepted h) = builder h ∧
      (∀ st, accepts h st ↔ Permits h st) ∧
      registers h = (List.range (h.count .fresh)).map Reg.mk ∧
      (∀ label, answer h (.create label) = .ok (.block ⟨(labels h).length⟩)) ∧
      ((∃ blocks, (builder h).finish = .ok blocks) ↔
        ∀ i < (labels h).length, closings h i ≠ []) ∧
      (∀ fault, (builder h).finish = .error fault ↔
        ∃ i < (labels h).length, fault = .unterminated ⟨i⟩ ∧ closings h i = [] ∧
          ∀ j < i, closings h j ≠ []) ∧
      ∀ blocks, (builder h).finish = .ok blocks → blocks.length = (labels h).length ∧
        ∀ (i : Nat) (block : Block), blocks[i]? = some block →
          block.id = ⟨i⟩ ∧ (labels h)[i]? = some block.label ∧ block.instrs = written h i ∧
            closings h i = [block.terminator] := by
  refine ⟨fun st => (takes h st).eq_of_refused, builder_accepted h, accepts_iff h, registers_eq h, ?_,
    ?_, ?_, ?_⟩
  · intro label
    rw [← length_blocks_builder]
    rfl
  · simp only [exists_finish_iff, length_blocks_builder, ne_eq, closings_eq_nil_iff]
  · intro fault
    simp only [finish_eq_error_iff, length_blocks_builder, ne_eq, closings_eq_nil_iff]
  · intro blocks hf
    refine ⟨?_, fun i block => block_eq hf⟩
    rw [← length_blocks_builder, (finish_eq_ok_iff.1 hf).1]

/-- A block may be made current before it is there, and the entry block may be written to when it is
closed. -/
example (i j k : Instr) (t : Terminator) : written [.moveTo ⟨0⟩, .push i, .create "entry", .push j,
    .terminate t, .push i, .hoist k] 0 = [j, k] :=
  rfl

end History

end BlockCompiler.Target
