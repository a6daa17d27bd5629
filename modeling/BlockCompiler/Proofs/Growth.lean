import BlockCompiler.Proofs.Control

/-!
# Growth of the code under emission

Emission only ever adds to what is there. It writes to the block it starts in and to blocks it adds
itself; any other block keeps its terminator, and of these only the entry block can still grow, by
room for strings.
-/

namespace BlockCompiler

open Target

variable {τ : Type} {f : Frame}

theorem Coerces.le {w : Width} {source dest : Ty} {n n' : Nat} {x x' : Operand} {c : Code}
    (h : Coerces w source dest n x x' c n') : n ≤ n' := by
  cases h <;> omega

namespace Expr

mutual

theorem Emits.le {e : Expr τ} {n n' : Nat} {x : Operand} {c : Code} :
    e.Emits f n x c n' → n ≤ n'
  | .bool .. | .int .. | .var .. => Nat.le_refl n
  | .str .. => by omega
  | .binary _ _ _ _ _ _ hl hr hx hy => by
    have := hl.le
    have := hr.le
    have := hx.le
    have := hy.le
    omega
  | .neg _ _ _ _ h => by
    have := h.le
    omega
  | .call _ _ _ _ h _ => by
    have := h.le
    omega

theorem EmitsArgs.le {args : List (Expr τ)} {params : List Param} {n n' : Nat} {xs : List Operand}
    {c : Code} : EmitsArgs f args params n xs c n' → n ≤ n'
  | .noArgs .. | .noParams .. => Nat.le_refl n
  | .cons _ h hc rest => by
    have := h.le
    have := hc.le
    have := rest.le
    omega

end

private theorem EmitsEffect.le {e : Expr τ} {n n' : Nat} {c : Code} (h : e.EmitsEffect f n c n') :
    n ≤ n' := by
  cases h with
  | value h => exact h.le
  | voidCall _ _ _ _ h _ => exact h.le

end Expr

namespace Target.Builder

/-- `b'` is `b` with code added in the current block or in new ones. -/
structure Extends (b b' : Builder) : Prop where
  nextReg_le : b.nextReg ≤ b'.nextReg
  current : b'.current? = b.current? ∨ ∃ id, b'.current? = some id ∧ b.blocks.length ≤ id.index
  keeps : ∀ {i : Nat} {block : OpenBlock}, b.blocks[i]? = some block →
    ∃ more t?, b'.blocks[i]? = some ⟨block.label, block.instrs ++ more, t?⟩ ∧
      (b.isCurrent i = false ∨ block.terminator? ≠ none →
        t? = block.terminator? ∧ ∀ j ∈ more, i = 0 ∧ ∃ r length, j = .alloca r length)

namespace Extends

variable {b b₁ b₂ : Builder}

theorem refl (b : Builder) : b.Extends b where
  nextReg_le := Nat.le_refl _
  current := .inl rfl
  keeps {i block} h := ⟨[], block.terminator?, by simpa using h, by simp⟩

theorem length_le (h : b.Extends b₁) : b.blocks.length ≤ b₁.blocks.length := by
  cases hn : b.blocks.length with
  | zero => exact Nat.zero_le _
  | succ n =>
    have hlt : n < b.blocks.length := by omega
    obtain ⟨_, _, hb, _⟩ := h.keeps (List.getElem?_eq_getElem hlt)
    exact (List.getElem?_eq_some_iff.1 hb).1

/-- A block that is not current does not become so again. -/
theorem isCurrent_eq_false {i : Nat} (h : b.Extends b₁) (hi : i < b.blocks.length)
    (hc : b.isCurrent i = false) : b₁.isCurrent i = false := by
  rcases h.current with he | ⟨id, he, hid⟩
  · simpa [isCurrent, he] using hc
  · simp only [isCurrent, he, Option.some.injEq, decide_eq_false_iff_not]
    intro hid'
    subst hid'
    exact absurd hid (by simpa using hi)

theorem trans (h : b.Extends b₁) (h' : b₁.Extends b₂) : b.Extends b₂ where
  nextReg_le := Nat.le_trans h.nextReg_le h'.nextReg_le
  current := by
    have hle := h.length_le
    rcases h'.current with he | ⟨id, he, hid⟩
    · rw [he]
      exact h.current
    · exact .inr ⟨id, he, by omega⟩
  keeps {i block} hb := by
    obtain ⟨more, t, hb₁, hkeep⟩ := h.keeps hb
    obtain ⟨more', t', hb₂, hkeep'⟩ := h'.keeps hb₁
    refine ⟨more ++ more', t', by simpa using hb₂, ?_⟩
    intro hcase
    obtain ⟨rfl, hmore⟩ := hkeep hcase
    have hlt : i < b.blocks.length := (List.getElem?_eq_some_iff.1 hb).1
    obtain ⟨rfl, hmore'⟩ := hkeep' (hcase.imp_left (h.isCurrent_eq_false hlt))
    refine ⟨rfl, ?_⟩
    intro j hj
    rcases List.mem_append.1 hj with hj | hj
    · exact hmore j hj
    · exact hmore' j hj

private theorem moveTo {id : BlockId} (h : b.Extends b₁) (hid : b.blocks.length ≤ id.index) :
    b.Extends (b₁.moveTo id) where
  nextReg_le := h.nextReg_le
  current := .inr ⟨id, rfl, hid⟩
  keeps := h.keeps

theorem closed_of_closed {i : Nat} {block : OpenBlock} {t : Terminator} (h : b.Extends b₁)
    (hb : b.blocks[i]? = some block) (ht : block.terminator? = some t) :
    ∃ block', b₁.blocks[i]? = some block' ∧ block'.terminator? = some t := by
  obtain ⟨_, _, hb₁, hkeep⟩ := h.keeps hb
  exact ⟨_, hb₁, (hkeep (.inr (by simp [ht]))).1.trans ht⟩

end Extends

variable {b : Builder}

/-- The current block of an open builder is open. -/
theorem isCurrent_of_closed {i : Nat} {block : OpenBlock} (h : b.isOpen)
    (hb : b.blocks[i]? = some block) (ht : block.terminator? ≠ none) : b.isCurrent i = false := by
  obtain ⟨id, block', hc, hb', ht'⟩ := isOpen_iff_exists.1 h
  simp only [isCurrent, hc, Option.some.injEq, decide_eq_false_iff_not]
  intro hid
  subst hid
  rw [hb'] at hb
  cases hb
  exact ht ht'

/-- Straight-line code changes only the current block and the entry block. -/
theorem extends_write (c : Code) {n : Nat} (h : b.isOpen) (hn : b.nextReg ≤ n) :
    b.Extends (b.write c n) where
  nextReg_le := hn
  current := .inl rfl
  keeps {i block} hb := by
    refine ⟨c.inBlock (b.isCurrent i) (i = 0), block.terminator?, ?_, ?_⟩
    · rw [getElem?_blocks_write, hb]
      rfl
    · intro hcase
      refine ⟨rfl, ?_⟩
      have hcur : b.isCurrent i = false := hcase.elim id (isCurrent_of_closed h hb)
      intro j hj
      simp only [Code.inBlock, hcur, List.mem_filterMap] at hj
      obtain ⟨piece, _, hp⟩ := hj
      cases piece with
      | instr k => simp [Piece.inBlock?] at hp
      | slot r length =>
        simp only [Piece.inBlock?, decide_eq_true_eq, Option.ite_none_right_eq_some,
          Option.some.injEq] at hp
        exact ⟨hp.1, r, length, hp.2.symm⟩

theorem extends_add (b : Builder) (label : String) : b.Extends (b.add label) where
  nextReg_le := Nat.le_refl _
  current := .inl rfl
  keeps {i block} hb := by
    have hlt : i < b.blocks.length := (List.getElem?_eq_some_iff.1 hb).1
    refine ⟨[], block.terminator?, ?_, by simp⟩
    rw [blocks_add, List.getElem?_append_left hlt, hb, List.append_nil]

theorem extends_close (t : Terminator) (h : b.isOpen) : b.Extends (b.close t) where
  nextReg_le := by simp
  current := by simp
  keeps {i block} hb := by
    refine ⟨[], if b.isCurrent i then some t else block.terminator?, ?_, ?_⟩
    · rw [getElem?_blocks_close, hb]
      cases b.isCurrent i <;> simp
    · intro hcase
      have hcur : b.isCurrent i = false := hcase.elim id (isCurrent_of_closed h hb)
      simp [hcur]

private theorem extends_proceed (label : String) (h : b.isOpen) : b.Extends (b.proceed label) :=
  ((extends_add b label).trans (extends_close _ (isOpen_add h))).moveTo (Nat.le_refl _)

theorem extends_split (x : Operand) (thn els : String) (h : b.isOpen) :
    b.Extends (b.split x thn els) :=
  (((extends_add b thn).trans (extends_add _ els)).trans
    (extends_close _ (isOpen_add (isOpen_add h)))).moveTo (Nat.le_refl _)

theorem extends_closeOpen (b : Builder) (t : Terminator) : b.Extends (b.closeOpen t) := by
  unfold closeOpen
  split
  · next h => exact extends_close t h
  · exact .refl b

theorem Joins.extends {b' : Builder} {m m' : Option BlockId} (h : b.Joins m b' m') :
    b.Extends b' := by
  cases h with
  | closed _ => exact .refl b
  | first ho => exact (extends_add b "merge").trans (extends_close _ (isOpen_add ho))
  | again ho => exact extends_close _ ho

/-- The arms of a branch meet in a block that the first of them to reach its end has added. -/
theorem Joins.merge_le {b' : Builder} {m : Option BlockId} {merge : BlockId} {k : Nat}
    (h : b.Joins m b' (some merge)) (hk : k ≤ b.blocks.length)
    (hm : ∀ id, m = some id → k ≤ id.index) : k ≤ merge.index := by
  cases h with
  | closed _ => exact hm merge rfl
  | first _ => exact hk
  | again _ => exact hm merge rfl

theorem Joins.eq_some {b' : Builder} {id : BlockId} {m' : Option BlockId}
    (h : b.Joins (some id) b' m') : m' = some id := by
  cases h <;> rfl

end Target.Builder

namespace Stmt

mutual

theorem Emitted.extends {st : Stmt τ} {b b' : Builder} : st.Emitted f b b' → b.isOpen →
    b.Extends b'
  | .effect _ h, ho => Builder.extends_write _ ho h.le
  | .bareRet _ _, ho => Builder.extends_close _ ho
  | .voidRet _ _ h, ho =>
    (Builder.extends_write _ ho h.le).trans (Builder.extends_close _ (by simpa))
  | .ret _ _ _ h hc, ho =>
    (Builder.extends_write _ ho (Nat.le_trans h.le hc.le)).trans
      (Builder.extends_close _ (by simpa))
  | @Emitted.branch _ _ _ _ _ _ _ b₁ b₁' b₂ b₂' m₁ m₂ x c n h hthn j₁ hels j₂, ho => by
    have hsplit : b.Extends ((b.write c n).split x "then" "else") :=
      (Builder.extends_write c ho h.le).trans (Builder.extends_split x _ _ (by simpa))
    have hthen : b.Extends b₁ := hsplit.trans hthn.extends
    have harm : b.Extends b₁' := hthen.trans j₁.extends
    have helse : b.Extends b₂ := (harm.moveTo (by simp)).trans hels.extends
    have hboth : b.Extends b₂' := helse.trans j₂.extends
    cases m₂ with
    | none => exact hboth
    | some merge =>
      refine hboth.moveTo (j₂.merge_le helse.length_le ?_)
      intro id hid
      subst hid
      exact j₁.merge_le hthen.length_le (by simp)
  | @Emitted.loop _ _ _ _ _ _ b₁ x c n h hbody, ho => by
    have hheader : b.Extends ((b.proceed "loop.header").write c n) :=
      (Builder.extends_proceed _ ho).trans
        (Builder.extends_write c (Builder.isOpen_proceed _ ho) (by simpa using h.le))
    have hsplit := hheader.trans
      (Builder.extends_split x "loop.body" "loop.exit" (by simpa using Builder.isOpen_proceed _ ho))
    exact ((hsplit.trans hbody.extends).trans (Builder.extends_closeOpen _ _)).moveTo (by simp)

theorem EmittedAll.extends {sts : List (Stmt τ)} {b b' : Builder} :
    EmittedAll f sts b b' → b.Extends b'
  | .nil _ => .refl _
  | .dead _ => .refl _
  | .cons ho hst hsts => (hst.extends ho).trans hsts.extends

end

end Stmt

end BlockCompiler
