import BlockCompiler.Proofs.Stages

/-!
# All the code of a builder

A property of instructions and one of terminators hold of all the code of a builder if they hold of
what each step adds. They then hold of the finished blocks.
-/

namespace BlockCompiler

open Target

/-- The instruction of a piece, wherever it goes. -/
def Piece.toInstr : Piece → Instr
  | instr i => i
  | slot r length => .alloca r length

private theorem Code.mem_of_mem_inBlock {c : Code} {current entry : Bool} {i : Instr}
    (h : i ∈ c.inBlock current entry) : ∃ piece ∈ c, piece.toInstr = i := by
  obtain ⟨piece, hmem, hp⟩ := List.mem_filterMap.1 h
  refine ⟨piece, hmem, ?_⟩
  cases piece with
  | instr j | slot r length =>
    simp only [Piece.inBlock?, Option.ite_none_right_eq_some, Option.some.injEq] at hp
    exact hp.2

namespace Target.Builder

/-- All instructions of the builder satisfy `I`, and all terminators `T`. -/
structure AllCode (I : Instr → Prop) (T : Terminator → Prop) (b : Builder) : Prop where
  instrs : ∀ (i : Nat) (block : OpenBlock), b.blocks[i]? = some block → ∀ j ∈ block.instrs, I j
  terminators : ∀ (i : Nat) (block : OpenBlock), b.blocks[i]? = some block →
    ∀ t, block.terminator? = some t → T t

variable {I : Instr → Prop} {T : Terminator → Prop} {b b' : Builder}

theorem allCode_start (n : Nat) : (start n).AllCode I T := by
  have hblock : ∀ (i : Nat) (block : OpenBlock), (start n).blocks[i]? = some block →
      block = ⟨"entry", [], none⟩ :=
    fun i block hb => List.mem_singleton.1 (List.mem_of_getElem? hb)
  constructor
  · intro i block hb
    rw [hblock i block hb]
    simp
  · intro i block hb
    rw [hblock i block hb]
    simp

namespace AllCode

theorem write {c : Code} (n : Nat) (h : b.AllCode I T) (hc : ∀ piece ∈ c, I piece.toInstr) :
    (b.write c n).AllCode I T := by
  constructor
  · intro i block hb j hj
    rw [getElem?_blocks_write, Option.map_eq_some_iff] at hb
    obtain ⟨block, hb, rfl⟩ := hb
    rcases List.mem_append.1 hj with hj | hj
    · exact h.instrs i block hb j hj
    · obtain ⟨piece, hmem, rfl⟩ := Code.mem_of_mem_inBlock hj
      exact hc piece hmem
  · intro i block hb t ht
    rw [getElem?_blocks_write, Option.map_eq_some_iff] at hb
    obtain ⟨block, hb, rfl⟩ := hb
    exact h.terminators i block hb t ht

private theorem add (label : String) (h : b.AllCode I T) : (b.add label).AllCode I T := by
  constructor
  · intro i block hb
    rcases getElem?_blocks_add hb with hb | rfl
    · exact h.instrs i block hb
    · simp
  · intro i block hb
    rcases getElem?_blocks_add hb with hb | rfl
    · exact h.terminators i block hb
    · simp

theorem close {t : Terminator} (h : b.AllCode I T) (ht : T t) : (b.close t).AllCode I T := by
  constructor
  · intro i block hb j hj
    rw [getElem?_blocks_close, Option.map_eq_some_iff] at hb
    obtain ⟨block, hb, rfl⟩ := hb
    cases hc : b.isCurrent i <;> simp only [hc] at hj <;> exact h.instrs i block hb j hj
  · intro i block hb t' ht'
    rw [getElem?_blocks_close, Option.map_eq_some_iff] at hb
    obtain ⟨block, hb, rfl⟩ := hb
    cases hc : b.isCurrent i with
    | false =>
      simp only [hc] at ht'
      exact h.terminators i block hb t' ht'
    | true =>
      simp only [hc, if_true, Option.some.injEq] at ht'
      rw [← ht']
      exact ht

theorem closeOpen {t : Terminator} (h : b.AllCode I T) (ht : T t) : (b.closeOpen t).AllCode I T := by
  unfold Builder.closeOpen
  split
  · exact h.close ht
  · exact h

theorem moveTo (id : BlockId) (h : b.AllCode I T) : (b.moveTo id).AllCode I T :=
  ⟨h.instrs, h.terminators⟩

theorem resume (m : Option BlockId) (h : b.AllCode I T) : (b.resume m).AllCode I T := by
  cases m with
  | none => exact h
  | some id => exact h.moveTo id

theorem proceed (label : String) (h : b.AllCode I T) (ht : ∀ id, T (.jump id)) :
    (b.proceed label).AllCode I T :=
  ((h.add label).close (ht _)).moveTo _

theorem split {x : Operand} (thn els : String) (h : b.AllCode I T)
    (ht : ∀ id id', T (.branch x id id')) : (b.split x thn els).AllCode I T :=
  (((h.add thn).add els).close (ht _ _)).moveTo _

theorem joins {m m' : Option BlockId} (h : b.AllCode I T) (hj : b.Joins m b' m')
    (ht : ∀ id, T (.jump id)) : b'.AllCode I T := by
  cases hj with
  | closed _ => exact h
  | first _ => exact (h.add "merge").close (ht _)
  | again _ => exact h.close (ht _)

/-- What holds of all the code holds of the finished blocks. -/
theorem finish {blocks : List Block} (h : b.AllCode I T) (hf : b.finish = .ok blocks) :
    ∀ block ∈ blocks, (∀ i ∈ block.instrs, I i) ∧ T block.terminator := by
  intro done hmem
  obtain ⟨i, hi⟩ := List.mem_iff_getElem?.1 hmem
  obtain ⟨block, t, hb, ht, rfl⟩ := exists_of_finish hf hi
  exact ⟨h.instrs i block hb, h.terminators i block hb t ht⟩

end AllCode

end Target.Builder

end BlockCompiler
