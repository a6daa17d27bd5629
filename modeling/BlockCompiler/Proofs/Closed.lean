import BlockCompiler.Proofs.Stages

/-!
# No block is left open

While code is emitted, the current block is open, and so are the blocks that wait for their turn: the
second arm of a branch, the block where arms meet, and the block behind a loop. Each of them becomes
current before its statement is done, so the end of a body leaves none of them open.
-/

namespace BlockCompiler

open Target

variable {τ : Type} {f : Frame}

namespace Target.Builder

/-- All blocks that are open are among `S`. -/
def OpenOnly (b : Builder) (S : Nat → Prop) : Prop :=
  ∀ (i : Nat) (block : OpenBlock), b.blocks[i]? = some block → block.terminator? = none → S i

/-- All blocks that are open, apart from the current one, are among `S`. -/
def Pending (b : Builder) (S : Nat → Prop) : Prop :=
  b.OpenOnly fun i => b.isCurrent i ∨ S i

variable {b b' : Builder} {S S' : Nat → Prop}

private theorem OpenOnly.imp (h : b.OpenOnly S) (hS : ∀ i, S i → S' i) : b.OpenOnly S' :=
  fun i block hb ht => hS i (h i block hb ht)

private theorem OpenOnly.pending (h : b.OpenOnly S) : b.Pending S :=
  h.imp fun _ => .inr

private theorem OpenOnly.add (label : String) (h : b.OpenOnly S) :
    (b.add label).OpenOnly fun i => i = b.blocks.length ∨ S i := by
  intro i block hb ht
  rw [blocks_add, List.getElem?_append] at hb
  split at hb
  · exact .inr (h i block hb ht)
  · next hlt =>
    have hi : i - b.blocks.length < 1 := (List.getElem?_eq_some_iff.1 hb).1
    exact .inl (by omega)

private theorem OpenOnly.close (t : Terminator) (h : b.OpenOnly S) :
    (b.close t).OpenOnly fun i => b.isCurrent i = false ∧ S i := by
  intro i block hb ht
  rw [getElem?_blocks_close, Option.map_eq_some_iff] at hb
  obtain ⟨block, hb, rfl⟩ := hb
  cases hc : b.isCurrent i with
  | false =>
    simp only [hc] at ht
    exact ⟨rfl, h i block hb ht⟩
  | true => simp [hc] at ht

private theorem OpenOnly.moveTo {id : BlockId} (h : b.OpenOnly fun i => i = id.index ∨ S i) :
    (b.moveTo id).Pending S := by
  intro i block hb ht
  rw [isCurrent_moveTo, decide_eq_true_eq]
  exact (h i block hb ht).imp_left Eq.symm

private theorem Pending.write {c : Code} {n : Nat} (h : b.Pending S) : (b.write c n).Pending S := by
  intro i block hb ht
  rw [getElem?_blocks_write, Option.map_eq_some_iff] at hb
  obtain ⟨block, hb, rfl⟩ := hb
  exact h i block hb ht

private theorem Pending.close (t : Terminator) (h : b.Pending S) : (b.close t).OpenOnly S := by
  refine (OpenOnly.close t h).imp ?_
  intro i hi
  obtain ⟨hc, hi⟩ := hi
  rcases hi with hi | hi
  · rw [hc] at hi
    cases hi
  · exact hi

/-- A builder that is not open has closed its current block. -/
private theorem Pending.openOnly (h : b.Pending S) (hf : b.isOpen = false) : b.OpenOnly S := by
  intro i block hb ht
  rcases h i block hb ht with hc | hi
  · have ho : b.isOpen := isOpen_iff_exists.2 ⟨⟨i⟩, block, by simpa [isCurrent] using hc, hb, ht⟩
    rw [hf] at ho
    cases ho
  · exact hi

private theorem Pending.closeOpen (t : Terminator) (h : b.Pending S) :
    (b.closeOpen t).OpenOnly S := by
  unfold Builder.closeOpen
  split
  · exact h.close t
  · next hf => exact h.openOnly (by simpa using hf)

private theorem Pending.add (label : String) (h : b.Pending S) :
    (b.add label).Pending fun i => i = b.blocks.length ∨ S i := by
  refine (OpenOnly.add label h).imp ?_
  intro i hi
  exact or_left_comm.1 hi

private theorem Pending.proceed (label : String) (h : b.Pending S) : (b.proceed label).Pending S :=
  ((h.add label).close _).moveTo

private theorem Pending.split (x : Operand) (thn els : String) (h : b.Pending S) :
    (b.split x thn els).Pending fun i => i = b.blocks.length + 1 ∨ S i := by
  refine OpenOnly.moveTo ((((h.add thn).add els).close _).imp ?_)
  intro i hi
  simpa [or_left_comm] using hi

/-- An arm of a branch that ends leaves open only the block where the arms meet. -/
private theorem Joins.openOnly {m m' : Option BlockId} (hj : b.Joins m b' m')
    (h : b.Pending fun i => m = some ⟨i⟩ ∨ S i) : b'.OpenOnly fun i => m' = some ⟨i⟩ ∨ S i := by
  cases hj with
  | closed hf => exact h.openOnly hf
  | first _ =>
    refine ((h.add "merge").close _).imp ?_
    intro i hi
    rcases hi with rfl | hi | hi
    · exact .inl rfl
    · cases hi
    · exact .inr hi
  | again _ => exact h.close _

private theorem OpenOnly.resume {m : Option BlockId} (h : b.OpenOnly fun i => m = some ⟨i⟩ ∨ S i) :
    (b.resume m).Pending S := by
  cases m with
  | none =>
    refine (h.imp ?_).pending
    intro i hi
    exact hi.resolve_left (by simp)
  | some id =>
    refine OpenOnly.moveTo (h.imp ?_)
    intro i hi
    refine hi.imp_left ?_
    intro he
    cases he
    rfl

end Target.Builder

namespace Stmt

mutual

private theorem Emitted.pending {st : Stmt τ} {b b' : Builder} {S : Nat → Prop} :
    st.Emitted f b b' → b.Pending S → b'.Pending S
  | .effect _ _, hp => hp.write
  | .bareRet _ _, hp => (hp.close _).pending
  | .voidRet _ _ _, hp => (hp.write.close _).pending
  | .ret _ _ _ _ _, hp => (hp.write.close _).pending
  | @Emitted.branch _ _ _ _ _ _ b b₁ b₁' b₂ _ m₁ _ x c n _ hthn j₁ hels j₂, hp => by
    have hthen : b₁.Pending fun i => i = b.blocks.length + 1 ∨ S i := by
      have hsplit := (hp.write (c := c) (n := n)).split x "then" "else"
      rw [Builder.length_blocks_write] at hsplit
      exact hthn.pending hsplit
    have helse : b₂.Pending fun i => m₁ = some ⟨i⟩ ∨ S i := by
      have hjoin := j₁.openOnly (S := fun i => i = b.blocks.length + 1 ∨ S i)
        (hthen.imp fun i hi => hi.imp_right .inr)
      exact hels.pending (Builder.OpenOnly.moveTo (hjoin.imp fun i hi => or_left_comm.1 hi))
    exact (j₂.openOnly helse).resume
  | @Emitted.loop _ _ _ _ _ b _ x c n _ hbody, hp => by
    have hsplit := ((hp.proceed "loop.header").write (c := c) (n := n)).split x "loop.body" "loop.exit"
    rw [Builder.length_blocks_write, Builder.length_blocks_proceed] at hsplit
    exact ((hbody.pending hsplit).closeOpen _).moveTo

private theorem EmittedAll.pending {sts : List (Stmt τ)} {b b' : Builder} {S : Nat → Prop} :
    EmittedAll f sts b b' → b.Pending S → b'.Pending S
  | .nil _, hp => hp
  | .dead _, hp => hp
  | .cons _ hst hsts, hp => hsts.pending (hst.pending hp)

end

/-- A body that was emitted from its start to its end can be finished. -/
theorem EmittedAll.exists_finish {sts : List (Stmt τ)} {n : Nat} {b : Builder}
    (h : EmittedAll f sts (.start n) b) (t : Terminator) :
    ∃ blocks, (b.closeOpen t).finish = .ok blocks := by
  have hstart : (Builder.start n).Pending fun _ => False := by
    intro i block hb _
    have hi : i < 1 := (List.getElem?_eq_some_iff.1 hb).1
    have hzero : i = 0 := by omega
    subst hzero
    exact .inl rfl
  have hopen := (h.pending hstart).closeOpen t
  apply Builder.exists_finish_eq_ok
  intro block hmem ht
  obtain ⟨i, hb⟩ := List.mem_iff_getElem?.1 hmem
  exact hopen i block hb ht

end Stmt

end BlockCompiler
