import BlockCompiler.Emission.Module
import BlockCompiler.Proofs.Straight

/-!
# Code for statements as rules

`Stmt.Emitted` gives what emission of a statement does to an open builder: which blocks it adds, in
which order, and where it goes on. Emission follows exactly these rules.
-/

namespace BlockCompiler

open Target

namespace Target.Builder

/-- The builder after a new block was added. -/
def add (b : Builder) (label : String) : Builder :=
  (b.create label).2

/-- Closes the current block. -/
def close (b : Builder) (t : Terminator) : Builder :=
  match b.current? with
  | none => b
  | some id => b.modifyBlock id ({ · with terminator? := some t })

/-- Closes the current block unless that has happened. -/
def closeOpen (b : Builder) (t : Terminator) : Builder :=
  if b.isOpen then b.close t else b

/-- Goes on in a new block. -/
def proceed (b : Builder) (label : String) : Builder :=
  ((b.add label).close (.jump ⟨b.blocks.length⟩)).moveTo ⟨b.blocks.length⟩

/-- Branches to two new blocks and goes on in the first. -/
def split (b : Builder) (x : Operand) (thn els : String) : Builder :=
  ((((b.add thn).add els).close
    (.branch x ⟨b.blocks.length⟩ ⟨b.blocks.length + 1⟩))).moveTo ⟨b.blocks.length⟩

/-- Goes on in the block where the arms of a branch meet, if there is one. -/
def resume (b : Builder) : Option BlockId → Builder
  | none => b
  | some merge => b.moveTo merge

/-- Ends an arm of a branch: `b.Joins merge? b' merge?'`. -/
inductive Joins : Builder → Option BlockId → Builder → Option BlockId → Prop where
  | closed {b : Builder} {merge? : Option BlockId} (h : b.isOpen = false) :
      Joins b merge? b merge?
  | first {b : Builder} (h : b.isOpen) :
      Joins b none ((b.add "merge").close (.jump ⟨b.blocks.length⟩)) (some ⟨b.blocks.length⟩)
  | again {b : Builder} {merge : BlockId} (h : b.isOpen) :
      Joins b (some merge) (b.close (.jump merge)) (some merge)

variable {b : Builder}

@[simp] theorem current?_add (b : Builder) (label : String) : (b.add label).current? = b.current? :=
  rfl

@[simp] theorem nextReg_add (b : Builder) (label : String) : (b.add label).nextReg = b.nextReg := rfl

@[simp] theorem blocks_add (b : Builder) (label : String) :
    (b.add label).blocks = b.blocks ++ [⟨label, [], none⟩] := rfl

/-- A new block is blank. -/
theorem getElem?_blocks_add {label : String} {i : Nat} {block : OpenBlock}
    (h : (b.add label).blocks[i]? = some block) :
    b.blocks[i]? = some block ∨ block = ⟨label, [], none⟩ := by
  rw [blocks_add, List.getElem?_append] at h
  split at h
  · exact .inl h
  · exact .inr (List.mem_singleton.1 (List.mem_of_getElem? h))

@[simp] theorem isCurrent_add (b : Builder) (label : String) (i : Nat) :
    (b.add label).isCurrent i = b.isCurrent i := rfl

@[simp] theorem current?_close (b : Builder) (t : Terminator) : (b.close t).current? = b.current? := by
  unfold close
  split <;> rfl

@[simp] theorem nextReg_close (b : Builder) (t : Terminator) : (b.close t).nextReg = b.nextReg := by
  unfold close
  split <;> rfl

@[simp] theorem length_blocks_close (b : Builder) (t : Terminator) :
    (b.close t).blocks.length = b.blocks.length := by
  unfold close
  split <;> simp

@[simp] theorem isCurrent_close (b : Builder) (t : Terminator) (i : Nat) :
    (b.close t).isCurrent i = b.isCurrent i := by
  simp [isCurrent]

theorem getElem?_blocks_close (b : Builder) (t : Terminator) (i : Nat) :
    (b.close t).blocks[i]? =
      b.blocks[i]?.map fun block =>
        if b.isCurrent i then { block with terminator? := some t } else block := by
  unfold close
  cases hc : b.current? with
  | none => simp [isCurrent, hc]
  | some id =>
    simp only [modifyBlock, List.getElem?_modify, isCurrent, hc]
    by_cases hi : id.index = i
    · subst hi
      simp
    · have hne : id ≠ ⟨i⟩ := fun he => hi (by rw [he])
      simp [hi, hne]

@[simp] theorem current?_moveTo (b : Builder) (id : BlockId) : (b.moveTo id).current? = some id := rfl

@[simp] theorem nextReg_moveTo (b : Builder) (id : BlockId) : (b.moveTo id).nextReg = b.nextReg := rfl

@[simp] theorem blocks_moveTo (b : Builder) (id : BlockId) : (b.moveTo id).blocks = b.blocks := rfl

theorem isCurrent_moveTo (b : Builder) (id : BlockId) (i : Nat) :
    (b.moveTo id).isCurrent i = decide (id.index = i) := by
  cases id
  simp [isCurrent]

@[simp] theorem nextReg_closeOpen (b : Builder) (t : Terminator) :
    (b.closeOpen t).nextReg = b.nextReg := by
  unfold closeOpen
  split <;> simp

@[simp] theorem nextReg_resume (b : Builder) (merge? : Option BlockId) :
    (b.resume merge?).nextReg = b.nextReg := by
  cases merge? <;> rfl

theorem Joins.nextReg_eq {b' : Builder} {m m' : Option BlockId} (h : b.Joins m b' m') :
    b'.nextReg = b.nextReg := by
  cases h <;> simp

@[simp] theorem nextReg_proceed (b : Builder) (label : String) :
    (b.proceed label).nextReg = b.nextReg := by
  simp [proceed]

@[simp] theorem length_blocks_proceed (b : Builder) (label : String) :
    (b.proceed label).blocks.length = b.blocks.length + 1 := by
  simp [proceed]

@[simp] theorem nextReg_split (b : Builder) (x : Operand) (thn els : String) :
    (b.split x thn els).nextReg = b.nextReg := by
  simp [split]

@[simp] theorem length_blocks_split (b : Builder) (x : Operand) (thn els : String) :
    (b.split x thn els).blocks.length = b.blocks.length + 2 := by
  simp [split]

theorem isOpen_moveTo {id : BlockId} :
    (b.moveTo id).isOpen ↔ ∃ block, b.blocks[id.index]? = some block ∧ block.terminator? = none := by
  rw [isOpen_iff_exists]
  constructor
  · intro h
    obtain ⟨_, block, hc, hb, ht⟩ := h
    cases hc
    exact ⟨block, hb, ht⟩
  · intro h
    obtain ⟨block, hb, ht⟩ := h
    exact ⟨id, block, rfl, hb, ht⟩

theorem isOpen_add {label : String} (h : b.isOpen) : (b.add label).isOpen := by
  obtain ⟨id, block, hc, hb, ht⟩ := isOpen_iff_exists.1 h
  have hlt : id.index < b.blocks.length := (List.getElem?_eq_some_iff.1 hb).1
  refine isOpen_iff_exists.2 ⟨id, block, hc, ?_, ht⟩
  rw [blocks_add, List.getElem?_append_left hlt]
  exact hb

private theorem terminate_of_isOpen (t : Terminator) (h : b.isOpen) :
    b.terminate t = .ok (b.close t) := by
  obtain ⟨id, hid⟩ := isOpen_iff.1 h
  have hc := (openBlock_eq_ok_iff.1 hid).1
  rw [terminate, Edit.terminate, Edit.result_amend_of_ok hid]
  simp only [close, hc]

theorem lt_length_of_isCurrent {i : Nat} (h : b.isOpen) (hi : b.isCurrent i) :
    i < b.blocks.length := by
  obtain ⟨id, block, hc, hb, _⟩ := isOpen_iff_exists.1 h
  simp only [isCurrent, hc, Option.some.injEq, decide_eq_true_eq] at hi
  subst hi
  exact (List.getElem?_eq_some_iff.1 hb).1

theorem isCurrent_eq_false {i : Nat} (h : b.isOpen) (hi : b.blocks.length ≤ i) :
    b.isCurrent i = false := by
  cases hc : b.isCurrent i with
  | false => rfl
  | true =>
    have := lt_length_of_isCurrent h hc
    omega

theorem isOpen_proceed (label : String) (h : b.isOpen) : (b.proceed label).isOpen := by
  have hc := isCurrent_eq_false h (Nat.le_refl b.blocks.length)
  refine isOpen_moveTo.2 ⟨⟨label, [], none⟩, ?_, rfl⟩
  rw [getElem?_blocks_close]
  simp [hc]

theorem isOpen_split (x : Operand) (thn els : String) (h : b.isOpen) :
    (b.split x thn els).isOpen := by
  have hc := isCurrent_eq_false h (Nat.le_refl b.blocks.length)
  refine isOpen_moveTo.2 ⟨⟨thn, [], none⟩, ?_, rfl⟩
  rw [getElem?_blocks_close]
  simp [hc]

end Target.Builder

variable {τ : Type}

mutual

/-- `st.Emitted f b b'`: emission of `st` into the open builder `b` leads to `b'`. -/
inductive Stmt.Emitted (f : Frame) : Stmt τ → Builder → Builder → Prop where
  | effect (t : τ) {value : Expr τ} {b : Builder} {c : Code} {n : Nat}
      (h : value.EmitsEffect f b.nextReg c n) : Emitted f (.effect t value) b (b.write c n)
  | bareRet (t : τ) (b : Builder) : Emitted f (.ret t none) b (b.close (.ret none))
  | voidRet (t : τ) {value : Expr τ} {b : Builder} {c : Code} {n : Nat}
      (ht : value.ascribedType? = some .void) (h : value.EmitsEffect f b.nextReg c n) :
      Emitted f (.ret t (some value)) b ((b.write c n).close (.ret none))
  | ret (t : τ) {value : Expr τ} {ty : Ty} {b : Builder} {x x' : Operand} {c c' : Code} {n n' : Nat}
      (ht : value.ascribedType? = some ty) (hv : ty ≠ .void) (h : value.Emits f b.nextReg x c n)
      (hc : Coerces f.width ty f.signature.result n x x' c' n') :
      Emitted f (.ret t (some value)) b ((b.write (c ++ c') n').close (.ret (some x')))
  | branch (t : τ) {test : Expr τ} {thn els : List (Stmt τ)} {b b₁ b₁' b₂ b₂' : Builder}
      {m₁ m₂ : Option BlockId} {x : Operand} {c : Code} {n : Nat}
      (h : test.Emits f b.nextReg x c n)
      (hthn : Stmt.EmittedAll f thn ((b.write c n).split x "then" "else") b₁)
      (j₁ : b₁.Joins none b₁' m₁)
      (hels : Stmt.EmittedAll f els (b₁'.moveTo ⟨b.blocks.length + 1⟩) b₂)
      (j₂ : b₂.Joins m₁ b₂' m₂) : Emitted f (.branch t test thn els) b (b₂'.resume m₂)
  | loop (t : τ) {test : Expr τ} {body : List (Stmt τ)} {b b₁ : Builder} {x : Operand} {c : Code}
      {n : Nat} (h : test.Emits f b.nextReg x c n)
      (hbody : Stmt.EmittedAll f body
        (((b.proceed "loop.header").write c n).split x "loop.body" "loop.exit") b₁) :
      Emitted f (.loop t test body) b
        ((b₁.closeOpen (.jump ⟨b.blocks.length⟩)).moveTo ⟨b.blocks.length + 2⟩)

/-- The same for a block of statements, which may start where nothing is reached any more. -/
inductive Stmt.EmittedAll (f : Frame) : List (Stmt τ) → Builder → Builder → Prop where
  | nil (b : Builder) : EmittedAll f [] b b
  | dead {st : Stmt τ} {sts : List (Stmt τ)} {b : Builder} (h : b.isOpen = false) :
      EmittedAll f (st :: sts) b b
  | cons {st : Stmt τ} {sts : List (Stmt τ)} {b b₁ b₂ : Builder} (h : b.isOpen)
      (hst : Stmt.Emitted f st b b₁) (hsts : Stmt.EmittedAll f sts b₁ b₂) :
      EmittedAll f (st :: sts) b b₂

end

namespace Emit

variable {b b' : Builder}

theorem outcome_terminate (t : Terminator) (h : b.isOpen) :
    (terminate t b).outcome = .ok ((), b.close t) := by
  rw [terminate, outcome_attempt, Builder.terminate_of_isOpen t h]
  rfl

theorem outcome_create_add (label : String) (b : Builder) :
    (create label b).outcome = .ok (⟨b.blocks.length⟩, b.add label) := rfl

theorem outcome_split {α : Type} (x : Operand) (thn els : String) (k : BlockId → BlockId → Emit α)
    (h : b.isOpen) :
    ((do
        let thenBlock ← create thn
        let elseBlock ← create els
        terminate (.branch x thenBlock elseBlock)
        moveTo thenBlock
        k thenBlock elseBlock : Emit α) b).outcome =
      (k ⟨b.blocks.length⟩ ⟨b.blocks.length + 1⟩ (b.split x thn els)).outcome := by
  have hopen : ((b.add thn).add els).isOpen := Builder.isOpen_add (Builder.isOpen_add h)
  have hlen : (b.add thn).blocks.length = b.blocks.length + 1 := by simp
  rw [outcome_bind_of_ok _ (outcome_create_add ..), outcome_bind_of_ok _ (outcome_create_add ..),
    hlen, outcome_bind_of_ok _ (outcome_terminate _ hopen), outcome_bind_of_ok _ (outcome_moveTo ..)]
  rfl

theorem outcome_proceed {α : Type} (label : String) (k : BlockId → Emit α) (h : b.isOpen) :
    ((do
        let next ← create label
        terminate (.jump next)
        moveTo next
        k next : Emit α) b).outcome =
      (k ⟨b.blocks.length⟩ (b.proceed label)).outcome := by
  rw [outcome_bind_of_ok _ (outcome_create_add ..),
    outcome_bind_of_ok _ (outcome_terminate _ (Builder.isOpen_add h)),
    outcome_bind_of_ok _ (outcome_moveTo ..)]
  rfl

theorem outcome_closeWith (t : Terminator) (b : Builder) :
    (closeWith t b).outcome = .ok ((), b.closeOpen t) := by
  unfold closeWith Builder.closeOpen
  rw [outcome_bind_of_ok _ (outcome_isOpen b)]
  by_cases h : b.isOpen
  · simp only [h, if_true, outcome_terminate t h]
  · simp [h]

theorem joinArm_eq_ok_iff {merge? m : Option BlockId} :
    (joinArm merge? b).outcome = .ok (m, b') ↔ b.Joins merge? b' m := by
  unfold joinArm
  rw [outcome_bind_of_ok _ (outcome_isOpen b)]
  by_cases h : b.isOpen
  · cases merge? with
    | none =>
      simp only [h, if_true]
      rw [outcome_bind_of_ok _ (outcome_create_add "merge" b),
        outcome_bind_of_ok _ (outcome_terminate _ (Builder.isOpen_add h))]
      constructor
      · intro hm
        cases hm
        exact .first h
      · intro hm
        cases hm with
        | closed hf => simp [h] at hf
        | first _ => rfl
    | some merge =>
      simp only [h, if_true]
      rw [outcome_bind_of_ok _ (outcome_pure merge b),
        outcome_bind_of_ok _ (outcome_terminate _ h)]
      constructor
      · intro hm
        cases hm
        exact .again h
      · intro hm
        cases hm with
        | closed hf => simp [h] at hf
        | again _ => rfl
  · simp only [h, Bool.false_eq_true, if_false, outcome_pure]
    constructor
    · intro hm
      cases hm
      exact .closed (by simpa using h)
    · intro hm
      cases hm with
      | closed _ => rfl
      | first ho => exact absurd ho h
      | again ho => exact absurd ho h

end Emit

namespace Stmt

variable {f : Frame}

/-- A value of type `Void` is computed for its effect only, any other is converted and returned. -/
private theorem emit_ret_eq_ok_iff (t : τ) (value : Expr τ) {b b' : Builder} (h : b.isOpen) :
    ((ret t (some value)).emit f b).outcome = .ok ((), b') ↔ (ret t (some value)).Emitted f b b' := by
  simp only [emit, Emit.bind_eq_ok_iff, Expr.carriedType_eq_ok_iff]
  constructor
  · intro hs
    obtain ⟨ty, _, ⟨ht, rfl⟩, hs⟩ := hs
    by_cases hv : ty = .void
    · subst hv
      simp only [if_true, Emit.bind_eq_ok_iff, Expr.emitEffect_eq_ok_iff value h] at hs
      obtain ⟨_, _, ⟨c, n, he, rfl⟩, hs⟩ := hs
      rw [Emit.outcome_terminate _ (by simpa)] at hs
      cases hs
      exact .voidRet t ht he
    · simp only [hv, if_false, Emit.bind_eq_ok_iff, Expr.emit_eq_ok_iff value h] at hs
      obtain ⟨x, _, ⟨c, n, he, rfl⟩, x', _, ec, hs⟩ := hs
      obtain ⟨c', n', hc, rfl⟩ := (Emit.coerce_eq_ok_iff (by simpa)).1 ec
      rw [Emit.outcome_terminate _ (by simpa)] at hs
      cases hs
      rw [Builder.write_write]
      exact .ret t ht hv he hc
  · intro hs
    cases hs with
    | voidRet _ ht he =>
      refine ⟨_, _, ⟨ht, rfl⟩, ?_⟩
      simp only [if_true, Emit.bind_eq_ok_iff, Expr.emitEffect_eq_ok_iff value h]
      exact ⟨(), _, ⟨_, _, he, rfl⟩, Emit.outcome_terminate _ (by simpa)⟩
    | ret _ ht hv he hc =>
      refine ⟨_, _, ⟨ht, rfl⟩, ?_⟩
      simp only [hv, if_false, Emit.bind_eq_ok_iff, Expr.emit_eq_ok_iff value h]
      refine ⟨_, _, ⟨_, _, he, rfl⟩, _, _, (Emit.coerce_eq_ok_iff (by simpa)).2 ⟨_, _, hc, rfl⟩, ?_⟩
      rw [Emit.outcome_terminate _ (by simpa), Builder.write_write]

mutual

/-- Emission of a statement into an open builder follows the rules. -/
theorem emit_eq_ok_iff : ∀ (st : Stmt τ) {b b' : Builder}, b.isOpen →
    ((st.emit f b).outcome = .ok ((), b') ↔ st.Emitted f b b')
  | effect t value, b, b', h => by
    simp only [emit, Expr.emitEffect_eq_ok_iff value h]
    constructor
    · intro hs
      obtain ⟨c, n, hs, rfl⟩ := hs
      exact .effect t hs
    · intro hs
      cases hs with
      | effect _ hs => exact ⟨_, _, hs, rfl⟩
  | ret t none, b, b', h => by
    simp only [emit, Emit.outcome_terminate _ h]
    constructor
    · intro hs
      cases hs
      exact .bareRet t b
    · intro hs
      cases hs
      rfl
  | ret t (some value), _, _, h => emit_ret_eq_ok_iff t value h
  | branch t test thn els, b, b', h => by
    simp only [emit]
    rw [Emit.bind_eq_ok_iff]
    simp only [Expr.emit_eq_ok_iff test h]
    constructor
    · intro hs
      obtain ⟨x, _, ⟨c, n, hx, rfl⟩, hs⟩ := hs
      rw [Emit.outcome_split _ _ _ _ (by simpa)] at hs
      simp only [Emit.bind_eq_ok_iff, emitAll_eq_ok_iff thn, Emit.joinArm_eq_ok_iff,
        Emit.outcome_moveTo, emitAll_eq_ok_iff els] at hs
      obtain ⟨_, b₁, hthn, m₁, b₁', j₁, _, _, hm, _, b₂, hels, m₂, b₂', j₂, hs⟩ := hs
      cases hm
      rw [Builder.length_blocks_write] at hels
      have hb' : b' = b₂'.resume m₂ := by
        cases m₂ <;> cases hs <;> rfl
      subst hb'
      exact .branch t hx hthn j₁ hels j₂
    · intro hs
      cases hs with
      | @branch _ _ _ _ _ _ _ _ _ _ m₂ _ _ _ hx hthn j₁ hels j₂ =>
        refine ⟨_, _, ⟨_, _, hx, rfl⟩, ?_⟩
        rw [Emit.outcome_split _ _ _ _ (by simpa)]
        simp only [Emit.bind_eq_ok_iff, emitAll_eq_ok_iff thn, Emit.joinArm_eq_ok_iff,
          Emit.outcome_moveTo, emitAll_eq_ok_iff els, Builder.length_blocks_write]
        refine ⟨(), _, hthn, _, _, j₁, (), _, rfl, (), _, hels, _, _, j₂, ?_⟩
        cases m₂ <;> rfl
  | loop t test body, b, b', h => by
    simp only [emit]
    rw [Emit.outcome_proceed _ _ h, Emit.bind_eq_ok_iff]
    simp only [Expr.emit_eq_ok_iff test (Builder.isOpen_proceed _ h)]
    constructor
    · intro hs
      obtain ⟨x, _, ⟨c, n, hx, rfl⟩, hs⟩ := hs
      rw [Emit.outcome_split _ _ _ _ (by simpa using Builder.isOpen_proceed _ h)] at hs
      simp only [Emit.bind_eq_ok_iff, emitAll_eq_ok_iff body, Emit.outcome_closeWith,
        Emit.outcome_moveTo] at hs
      obtain ⟨_, b₁, hbody, _, _, hc, hs⟩ := hs
      cases hc
      cases hs
      simp only [Builder.length_blocks_write, Builder.length_blocks_proceed]
      rw [Builder.nextReg_proceed] at hx
      exact .loop t hx hbody
    · intro hs
      cases hs with
      | loop _ hx hbody =>
        refine ⟨_, _, ⟨_, _, by simpa using hx, rfl⟩, ?_⟩
        rw [Emit.outcome_split _ _ _ _ (by simpa using Builder.isOpen_proceed _ h)]
        simp only [Emit.bind_eq_ok_iff, emitAll_eq_ok_iff body, Emit.outcome_closeWith,
          Emit.outcome_moveTo, Builder.length_blocks_write, Builder.length_blocks_proceed]
        exact ⟨(), _, hbody, (), _, rfl, rfl⟩

theorem emitAll_eq_ok_iff : ∀ (sts : List (Stmt τ)) {b b' : Builder},
    (emitAll f sts b).outcome = .ok ((), b') ↔ EmittedAll f sts b b'
  | [], b, b' => by
    simp only [emitAll, Emit.outcome_pure]
    constructor
    · intro hs
      cases hs
      exact .nil b
    · intro hs
      cases hs
      rfl
  | st :: sts, b, b' => by
    rw [emitAll, Emit.outcome_bind_of_ok _ (Emit.outcome_isOpen b)]
    by_cases h : b.isOpen
    · simp only [h, if_true, Emit.bind_eq_ok_iff, emit_eq_ok_iff st h, emitAll_eq_ok_iff sts]
      constructor
      · intro hs
        obtain ⟨_, b₁, hst, hsts⟩ := hs
        exact .cons h hst hsts
      · intro hs
        cases hs with
        | dead hf => simp [h] at hf
        | cons _ hst hsts => exact ⟨(), _, hst, hsts⟩
    · simp only [h, Bool.false_eq_true, if_false, Emit.outcome_report]
      constructor
      · intro hs
        cases hs
        exact .dead (by simpa using h)
      · intro hs
        cases hs with
        | dead _ => rfl
        | cons ho _ _ => exact absurd ho h

end

end Stmt

end BlockCompiler
