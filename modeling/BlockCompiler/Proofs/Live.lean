import BlockCompiler.Proofs.Growth

/-!
# Live statements

A statement closes when no path leads past it. The statements after it in its block are dead, and
the others are live. Emission leaves the builder open just when the statement does not close.
-/

namespace BlockCompiler

open Target

variable {τ : Type}

namespace Stmt

mutual

/-- Whether every path through the statement returns. -/
def closes : Stmt τ → Bool
  | branch _ _ thn els => closesAll thn && closesAll els
  | loop .. | effect .. => false
  | ret .. => true

def closesAll : List (Stmt τ) → Bool
  | [] => false
  | st :: sts => st.closes || closesAll sts

end

mutual

/-- A statement with the live statements in its blocks. -/
def live : Stmt τ → List (Stmt τ)
  | branch t test thn els => branch t test thn els :: (liveAll thn ++ liveAll els)
  | loop t test body => loop t test body :: liveAll body
  | effect t value => [effect t value]
  | ret t value => [ret t value]

/-- The live statements of a block, those in inner blocks included. -/
def liveAll : List (Stmt τ) → List (Stmt τ)
  | [] => []
  | st :: sts => st.live ++ if st.closes then [] else liveAll sts

end

/-- The expression that a statement evaluates itself, whatever stands in its blocks. -/
def value? : Stmt τ → Option (Expr τ)
  | branch _ test _ _ | loop _ test _ => some test
  | effect _ value => some value
  | ret _ value => value

end Stmt

namespace Target.Builder

variable {b b' : Builder}

private theorem isOpen_close (t : Terminator) (h : b.isOpen) : (b.close t).isOpen = false := by
  obtain ⟨id, block, hc, hb, _⟩ := isOpen_iff_exists.1 h
  have hcur : b.isCurrent id.index = true := by
    simp [isCurrent, hc]
  simp [isOpen, currentBlock?, hc, getElem?_blocks_close, hb, hcur]

/-- A block that was added and is not begun. -/
structure Blank (b : Builder) (i : Nat) : Prop where
  pos : 0 < i
  notCurrent : b.isCurrent i = false
  block : ∃ label, b.blocks[i]? = some ⟨label, [], none⟩

theorem Blank.of_extends {i : Nat} (h : b.Blank i) (he : b.Extends b') : b'.Blank i := by
  have hpos := h.pos
  obtain ⟨label, hb⟩ := h.block
  have hlt : i < b.blocks.length := (List.getElem?_eq_some_iff.1 hb).1
  obtain ⟨more, t?, hb', hkeep⟩ := he.keeps hb
  obtain ⟨rfl, hmore⟩ := hkeep (.inl h.notCurrent)
  -- only the entry block could have grown
  have hnil : more = [] := by
    apply List.eq_nil_iff_forall_not_mem.2
    intro j hj
    have hzero := (hmore j hj).1
    omega
  subst hnil
  exact ⟨hpos, he.isCurrent_eq_false hlt h.notCurrent, label, hb'⟩

theorem Blank.isOpen_moveTo {id : BlockId} (h : b.Blank id.index) : (b.moveTo id).isOpen := by
  obtain ⟨label, hb⟩ := h.block
  exact Builder.isOpen_moveTo.2 ⟨_, hb, rfl⟩

theorem blank_add (label : String) (h : b.isOpen) : (b.add label).Blank b.blocks.length where
  pos := length_pos_of_isOpen h
  notCurrent := by
    simpa using isCurrent_eq_false h (Nat.le_refl b.blocks.length)
  block := ⟨label, by simp⟩

/-- The second of two new blocks waits for its turn. -/
private theorem blank_split_snd (x : Operand) (thn els : String) (h : b.isOpen) :
    (b.split x thn els).Blank (b.blocks.length + 1) where
  pos := Nat.succ_pos _
  notCurrent := by
    simp [split, isCurrent_moveTo]
  block := by
    have hc := isCurrent_eq_false h (Nat.le_succ b.blocks.length)
    refine ⟨els, ?_⟩
    simp only [split, blocks_moveTo, getElem?_blocks_close, isCurrent_add, hc]
    simp

/-- The block where arms meet is not begun while they are emitted. -/
def Awaits (b : Builder) (merge? : Option BlockId) : Prop :=
  ∀ merge, merge? = some merge → b.Blank merge.index

theorem Awaits.of_extends {merge? : Option BlockId} (h : b.Awaits merge?) (he : b.Extends b') :
    b'.Awaits merge? :=
  fun merge hm => (h merge hm).of_extends he

theorem Joins.awaits {m m' : Option BlockId} (h : b.Joins m b' m') (hm : b.Awaits m) :
    b'.Awaits m' := by
  cases h with
  | closed _ => exact hm
  | first ho =>
    intro merge he
    cases he
    exact (blank_add "merge" ho).of_extends (extends_close _ (isOpen_add ho))
  | again ho => exact hm.of_extends (extends_close _ ho)

private theorem Awaits.moveTo {merge? : Option BlockId} {id : BlockId} (h : b.Awaits merge?)
    (hid : ∀ merge, merge? = some merge → id.index < merge.index) :
    (b.moveTo id).Awaits merge? := by
  intro merge hm
  have hlt := hid merge hm
  have hblank := h merge hm
  refine ⟨hblank.pos, ?_, hblank.block⟩
  rw [isCurrent_moveTo, decide_eq_false_iff_not]
  omega

/-- The arms meet somewhere just when one of them reaches its end. -/
theorem Joins.isSome_eq {m m' : Option BlockId} (h : b.Joins m b' m') :
    m'.isSome = (m.isSome || b.isOpen) := by
  cases h with
  | closed hf => simp [hf]
  | first ho => simp [ho]
  | again ho => simp

private theorem Joins.isOpen_eq_false {m m' : Option BlockId} (h : b.Joins m b' m') :
    b'.isOpen = false := by
  cases h with
  | closed hf => exact hf
  | first ho => exact isOpen_close _ (isOpen_add ho)
  | again ho => exact isOpen_close _ ho

private theorem Awaits.isOpen_resume {merge? : Option BlockId} (h : b.Awaits merge?)
    (hf : b.isOpen = false) : (b.resume merge?).isOpen = merge?.isSome := by
  cases merge? with
  | none => simpa [resume] using hf
  | some merge =>
    simpa [resume] using (h merge rfl).isOpen_moveTo

end Target.Builder

namespace Stmt

variable {f : Frame}

section Arms

variable {thn : List (Stmt τ)} {b b₁ b₁' : Builder} {m₁ : Option BlockId} {x : Operand} {c : Code}
  {n : Nat}

/-- After the first arm of a branch, the block of the second is not begun. -/
theorem EmittedAll.blank_else
    (hthn : EmittedAll f thn ((b.write c n).split x "then" "else") b₁) (j₁ : b₁.Joins none b₁' m₁)
    (ho : b.isOpen) : b₁'.Blank (b.blocks.length + 1) := by
  have hblank := Builder.blank_split_snd x "then" "else" (b := b.write c n) (by simpa)
  rw [Builder.length_blocks_write] at hblank
  exact hblank.of_extends (hthn.extends.trans j₁.extends)

/-- While the second arm is emitted, the block where it would meet the first waits. -/
theorem EmittedAll.awaits_else
    (hthn : EmittedAll f thn ((b.write c n).split x "then" "else") b₁)
    (j₁ : b₁.Joins none b₁' m₁) : (b₁'.moveTo ⟨b.blocks.length + 1⟩).Awaits m₁ := by
  refine (j₁.awaits (by simp [Builder.Awaits])).moveTo ?_
  intro merge hm
  subst hm
  have hle := hthn.extends.length_le
  simp only [Builder.length_blocks_split, Builder.length_blocks_write] at hle
  exact j₁.merge_le hle (by simp)

/-- After the body of a loop, the block behind the loop is not begun. -/
theorem EmittedAll.blank_exit {body : List (Stmt τ)}
    (hbody : EmittedAll f body
      (((b.proceed "loop.header").write c n).split x "loop.body" "loop.exit") b₁) (ho : b.isOpen) :
    (b₁.closeOpen (.jump ⟨b.blocks.length⟩)).Blank (b.blocks.length + 2) := by
  have hopen : ((b.proceed "loop.header").write c n).isOpen := by
    simpa using Builder.isOpen_proceed _ ho
  have hblank := Builder.blank_split_snd x "loop.body" "loop.exit" hopen
  rw [Builder.length_blocks_write, Builder.length_blocks_proceed] at hblank
  exact hblank.of_extends (hbody.extends.trans (Builder.extends_closeOpen _ _))

end Arms

mutual

theorem Emitted.isOpen_eq {st : Stmt τ} {b b' : Builder} : st.Emitted f b b' → b.isOpen →
    b'.isOpen = !st.closes
  | .effect _ _, ho => by
    simpa [closes] using ho
  | .bareRet _ _, ho => Builder.isOpen_close _ ho
  | .voidRet _ _ _, ho => Builder.isOpen_close _ (by simpa)
  | .ret _ _ _ _ _, ho => Builder.isOpen_close _ (by simpa)
  | .branch _ h hthn j₁ hels j₂, ho => by
    have hthn' := hthn.isOpen_eq (Builder.isOpen_split _ _ _ (by simpa))
    have hels' := hels.isOpen_eq (hthn.blank_else j₁ ho).isOpen_moveTo
    have hawaits := j₂.awaits ((hthn.awaits_else j₁).of_extends hels.extends)
    rw [hawaits.isOpen_resume j₂.isOpen_eq_false, j₂.isSome_eq, j₁.isSome_eq, hthn', hels', closes]
    simp
  | .loop _ h hbody, ho => by
    simpa [closes] using (hbody.blank_exit ho).isOpen_moveTo

theorem EmittedAll.isOpen_eq {sts : List (Stmt τ)} {b b' : Builder} :
    EmittedAll f sts b b' → b.isOpen → b'.isOpen = !closesAll sts
  | .nil _, ho => by
    simpa [closesAll] using ho
  | .dead hf, ho => by
    simp [ho] at hf
  | @EmittedAll.cons _ _ st sts _ b₁ _ _ hst hsts, ho => by
    have hopen := hst.isOpen_eq ho
    cases hcl : st.closes with
    | false =>
      rw [hcl] at hopen
      rw [hsts.isOpen_eq hopen, closesAll, hcl, Bool.false_or]
    | true =>
      rw [hcl] at hopen
      cases hsts with
      | nil _ => simpa [closesAll, hcl] using hopen
      | dead hf => simpa [closesAll, hcl] using hf
      | cons ho' _ _ => simp [ho'] at hopen

end

/-- Where nothing is reached any more, nothing is emitted. -/
theorem EmittedAll.eq_of_closed {sts : List (Stmt τ)} {b b' : Builder} (h : EmittedAll f sts b b')
    (hf : b.isOpen = false) : b' = b := by
  cases h with
  | nil | dead => rfl
  | cons ho _ _ =>
    rw [hf] at ho
    cases ho

end Stmt

end BlockCompiler
