import BlockCompiler.Proofs.Emittable

/-!
# The builder refuses nothing

Emission takes only steps that the block builder permits, whatever tree it is given: it writes to
blocks that exist and are open, reserves memory once there is an entry block, and closes every block
before the end. If it fails, then because of the tree.
-/

namespace BlockCompiler

open Target

variable {τ : Type} {f : Frame}

namespace Emit

variable {α β : Type} {b : Builder}

/-- From `b` on, the builder refuses no step of `x`. -/
def Permitted (x : Emit α) (b : Builder) : Prop :=
  ∀ cause, (x b).outcome ≠ .error (.builder cause)

private theorem permitted_of_ok {x : Emit α} {r : α × Builder} (h : (x b).outcome = .ok r) :
    x.Permitted b := by
  intro cause
  rw [h]
  nofun

private theorem permitted_pure (a : α) (b : Builder) : (pure a : Emit α).Permitted b :=
  permitted_of_ok (outcome_pure a b)

/-- A check of emission itself may fail. -/
private theorem permitted_fail {fault : EmissionFault} (h : ∀ cause, fault ≠ .builder cause)
    (b : Builder) :
    (fail fault : Emit α).Permitted b := by
  intro cause he
  rw [outcome_fail] at he
  exact h cause (Except.error.inj he)

private theorem Permitted.bind {x : Emit α} {g : α → Emit β} (hx : x.Permitted b)
    (hg : ∀ a b', (x b).outcome = .ok (a, b') → (g a).Permitted b') : (x >>= g).Permitted b := by
  intro cause he
  cases h : (x b).outcome with
  | error fault =>
    rw [outcome_bind_of_error _ h] at he
    cases he
    exact hx cause h
  | ok r =>
    rw [outcome_bind_of_ok _ h] at he
    exact hg r.1 r.2 h cause he

/-- A step that succeeds can be left out. -/
private theorem permitted_bind_of_ok {x : Emit α} {a : α} {b' : Builder} {g : α → Emit β}
    (h : (x b).outcome = .ok (a, b')) (hg : (g a).Permitted b') : (x >>= g).Permitted b := by
  intro cause
  rw [outcome_bind_of_ok _ h]
  exact hg cause

private theorem permitted_coerce (f : Frame) (x : Operand) (source dest : Ty) (h : b.isOpen) :
    (coerce f x source dest).Permitted b := by
  unfold coerce
  split
  · exact permitted_pure x b
  · split
    · exact permitted_of_ok (outcome_define _ h)
    · exact permitted_fail (by simp) b

/-- The builder stays open after a conversion. -/
private theorem permitted_coerce_bind {g : Operand → Emit α} (x : Operand) (source dest : Ty)
    (h : b.isOpen) (hg : ∀ x' c n, (g x').Permitted (b.write c n)) :
    (coerce f x source dest >>= g).Permitted b := by
  refine (permitted_coerce f x source dest h).bind ?_
  intro x' b' hx
  obtain ⟨c, n, _, rfl⟩ := (coerce_eq_ok_iff h).1 hx
  exact hg x' c n

/-- The last steps of a binary operation. -/
private theorem permitted_operate (f : Frame) (op : BinOp) (a a' : Ty) (x y : Operand)
    (h : b.isOpen) :
    (if a = .any ∨ a' = .any then do
      let x ← coerce f x a .any
      let y ← coerce f y a' .any
      define (op.instr x y)
    else define (op.instr x y) : Emit Operand).Permitted b := by
  split
  · refine permitted_coerce_bind x a .any h ?_
    intro x' c n
    refine permitted_coerce_bind y a' .any (by simpa) ?_
    intro y' d m
    exact permitted_of_ok (outcome_define _ (by simpa))
  · exact permitted_of_ok (outcome_define _ h)

private theorem permitted_split (x : Operand) (thn els : String) (k : BlockId → BlockId → Emit α)
    (h : b.isOpen)
    (hk : (k ⟨b.blocks.length⟩ ⟨b.blocks.length + 1⟩).Permitted (b.split x thn els)) :
    (do
      let thenBlock ← create thn
      let elseBlock ← create els
      terminate (.branch x thenBlock elseBlock)
      moveTo thenBlock
      k thenBlock elseBlock : Emit α).Permitted b := by
  intro cause
  rw [outcome_split x thn els k h]
  exact hk cause

private theorem permitted_proceed (label : String) (k : BlockId → Emit α) (h : b.isOpen)
    (hk : (k ⟨b.blocks.length⟩).Permitted (b.proceed label)) :
    (do
      let next ← create label
      terminate (.jump next)
      moveTo next
      k next : Emit α).Permitted b := by
  intro cause
  rw [outcome_proceed label k h]
  exact hk cause

private theorem permitted_joinArm (merge? : Option BlockId) (b : Builder) :
    (joinArm merge?).Permitted b := by
  obtain ⟨b', m, hj⟩ := b.exists_joins merge?
  exact permitted_of_ok (joinArm_eq_ok_iff.2 hj)

end Emit

namespace Expr

open Emit

variable {α : Type} {b : Builder}

private theorem permitted_carriedType (e : Expr τ) (b : Builder) : e.carriedType.Permitted b := by
  unfold carriedType
  split
  · exact permitted_pure _ b
  · exact permitted_fail (by simp) b

private theorem permitted_carriedType_bind {g : Ty → Emit α} (e : Expr τ)
    (hg : ∀ ty, (g ty).Permitted b) :
    (e.carriedType >>= g).Permitted b := by
  refine (permitted_carriedType e b).bind ?_
  intro ty b' ht
  obtain ⟨_, rfl⟩ := carriedType_eq_ok_iff.1 ht
  exact hg ty

/-- The builder stays open after an expression. -/
private theorem permitted_emit_bind {g : Operand → Emit α} {e : Expr τ} (h : b.isOpen)
    (he : (e.emit f).Permitted b) (hg : ∀ x c n, (g x).Permitted (b.write c n)) :
    (e.emit f >>= g).Permitted b := by
  refine he.bind ?_
  intro x b' hx
  obtain ⟨c, n, _, rfl⟩ := (emit_eq_ok_iff e h).1 hx
  exact hg x c n

private theorem permitted_call {args : List (Expr τ)} (path : Path) (h : b.isOpen)
    (hargs : ∀ params, (emitArgs f args params).Permitted b) :
    (Emit.call f path (emitArgs f args)).Permitted b := by
  unfold Emit.call
  split
  · exact permitted_fail (by simp) b
  · refine (hargs _).bind ?_
    intro xs b' hxs
    obtain ⟨c, n, _, rfl⟩ := (emitArgs_eq_ok_iff args _ h).1 hxs
    split
    · exact permitted_bind_of_ok (outcome_push _ (by simpa)) (permitted_pure _ _)
    · exact permitted_bind_of_ok (outcome_fresh_write _)
        (permitted_bind_of_ok (outcome_push _ (by simpa)) (permitted_pure _ _))

mutual

/-- The code of an expression goes to the current block, which stays open. -/
private theorem permitted_emit : ∀ (e : Expr τ) {b : Builder}, b.isOpen → (e.emit f).Permitted b
  | ascribed _ _ (lit _ (.bool _)), b, _ | ascribed _ _ (lit _ (.int _)), b, _ => by
    rw [emit]
    exact permitted_pure _ b
  | ascribed _ _ (lit _ (.str v)), b, h => by
    rw [emit]
    exact permitted_of_ok (outcome_stringLiteral v h)
  | ascribed _ _ (var _ name), b, _ => by
    rw [emit]
    split
    · exact permitted_pure _ b
    · exact permitted_fail (by simp) b
  | ascribed _ _ (binary _ op lhs rhs), b, h => by
    rw [emit]
    refine permitted_carriedType_bind lhs ?_
    intro a
    refine permitted_carriedType_bind rhs ?_
    intro a'
    refine permitted_emit_bind h (permitted_emit lhs h) ?_
    intro x c n
    have ho : (b.write c n).isOpen := by simpa
    refine permitted_emit_bind ho (permitted_emit rhs ho) ?_
    intro y d m
    exact permitted_operate f op a a' x y (by simpa)
  | ascribed _ _ (neg _ operand), b, h => by
    rw [emit]
    split
    · refine permitted_emit_bind h (permitted_emit operand h) ?_
      intro x c n
      exact permitted_of_ok (outcome_define _ (by simpa))
    · exact permitted_fail (by simp) b
  | ascribed _ _ (call _ path args), b, h => by
    rw [emit]
    refine (permitted_call path h fun params => permitted_emitArgs args params h).bind ?_
    intro r? b' _
    split
    · exact permitted_pure _ b'
    · exact permitted_fail (by simp) b'
  | ascribed _ _ (bareCall ..), b, _ | ascribed _ _ (ascribed ..), b, _ | bareCall .., b, _
  | call .., b, _ | binary .., b, _ | neg .., b, _ | lit .., b, _ | var .., b, _ => by
    simp only [emit]
    exact permitted_fail (by simp) b

private theorem permitted_emitArgs : ∀ (args : List (Expr τ)) (params : List Param) {b : Builder},
    b.isOpen → (emitArgs f args params).Permitted b
  | [], _, b, _ | _ :: _, [], b, _ => by
    simp only [emitArgs]
    exact permitted_pure _ b
  | arg :: args, param :: params, b, h => by
    rw [emitArgs]
    refine permitted_carriedType_bind arg ?_
    intro ty
    refine permitted_emit_bind h (permitted_emit arg h) ?_
    intro x c n
    refine permitted_coerce_bind x ty param.ty (by simpa) ?_
    intro x' d m
    refine (permitted_emitArgs args params (by simpa)).bind ?_
    intro xs b' _
    exact permitted_pure _ b'

end

private theorem permitted_emitEffect (e : Expr τ) (h : b.isOpen) :
    (e.emitEffect f).Permitted b := by
  fun_cases emitEffect f e with
  | case1 t ty t' path args =>
    refine (permitted_call path h fun params => permitted_emitArgs args params h).bind ?_
    intro _ b' _
    exact permitted_pure () b'
  | case2 e _ =>
    refine (permitted_emit e h).bind ?_
    intro _ b' _
    exact permitted_pure () b'

end Expr

namespace Stmt

open Emit

private theorem permitted_emit_ret (t : τ) (value : Expr τ) {b : Builder} (h : b.isOpen) :
    ((ret t (some value)).emit f).Permitted b := by
  rw [emit]
  refine Expr.permitted_carriedType_bind value ?_
  intro ty
  split
  · refine (Expr.permitted_emitEffect value h).bind ?_
    intro _ _ he
    obtain ⟨c, n, _, rfl⟩ := (Expr.emitEffect_eq_ok_iff value h).1 he
    exact permitted_of_ok (outcome_terminate _ (by simpa))
  · refine Expr.permitted_emit_bind h (Expr.permitted_emit value h) ?_
    intro x c n
    refine permitted_coerce_bind x ty f.signature.result (by simpa) ?_
    intro x' d m
    exact permitted_of_ok (outcome_terminate _ (by simpa))

mutual

private theorem permitted_emit : ∀ (st : Stmt τ) {b : Builder}, b.isOpen → (st.emit f).Permitted b
  | effect _ value, b, h => by
    rw [emit]
    exact Expr.permitted_emitEffect value h
  | ret _ none, b, h => by
    rw [emit]
    exact permitted_of_ok (outcome_terminate _ h)
  | ret t (some value), b, h => permitted_emit_ret t value h
  | branch _ test thn els, b, h => by
    rw [emit]
    refine Expr.permitted_emit_bind h (Expr.permitted_emit test h) ?_
    intro x c n
    refine permitted_split x _ _ _ (by simpa) ?_
    refine (permitted_emitAll thn _).bind ?_
    intro _ b₁ _
    refine (permitted_joinArm none b₁).bind ?_
    intro m₁ b₁' _
    refine permitted_bind_of_ok (outcome_moveTo ..) ?_
    refine (permitted_emitAll els _).bind ?_
    intro _ b₂ _
    refine (permitted_joinArm m₁ b₂).bind ?_
    intro m₂ b₂' _
    cases m₂ with
    | none => exact permitted_pure () b₂'
    | some merge => exact permitted_of_ok (outcome_moveTo merge b₂')
  | loop _ test body, b, h => by
    rw [emit]
    refine permitted_proceed _ _ h ?_
    have hheader := Builder.isOpen_proceed "loop.header" h
    refine Expr.permitted_emit_bind hheader (Expr.permitted_emit test hheader) ?_
    intro x c n
    refine permitted_split x _ _ _ (by simpa) ?_
    refine (permitted_emitAll body _).bind ?_
    intro _ b₁ _
    exact permitted_bind_of_ok (outcome_closeWith _ b₁) (permitted_of_ok (outcome_moveTo ..))

/-- A block of statements may start anywhere: what cannot be reached is skipped. -/
private theorem permitted_emitAll :
    ∀ (sts : List (Stmt τ)) (b : Builder), (emitAll f sts).Permitted b
  | [], b => by
    rw [emitAll]
    exact permitted_pure () b
  | st :: sts, b => by
    rw [emitAll]
    refine permitted_bind_of_ok (outcome_isOpen b) ?_
    cases h : b.isOpen with
    | false => exact permitted_of_ok (outcome_report _ b)
    | true =>
      refine (permitted_emit st h).bind ?_
      intro _ b₁ _
      exact permitted_emitAll sts b₁

end

end Stmt

theorem Func.emit_ne_builder (s : Scope) (w : Width) (path : Path) (f : Func τ)
    (cause : Builder.Fault) : (f.emit s w path).outcome ≠ .error (.builder cause) := by
  intro he
  rw [outcome_emit] at he
  cases h : (Stmt.emitAll (f.frame s w) f.body (.start f.signature.params.length)).outcome with
  | error fault =>
    rw [h] at he
    cases he
    exact Stmt.permitted_emitAll f.body _ cause h
  | ok r =>
    -- all blocks are closed by the end of the body, so they can be finished
    obtain ⟨blocks, hblocks⟩ :=
      ((Stmt.emitAll_eq_ok_iff f.body).1 h).exists_finish f.signature.lastTerminator
    rw [Outcome.ok_bind _ h, hblocks] at he
    cases he

/-- Emission never breaks the rules of the block builder: whatever tree, scope and width it is given,
no error it ends in is a refusal of the builder. -/
theorem Program.emit_ne_builder_fault (s : Scope) (w : Width) (p : Program τ)
    (cause : Builder.Fault) : (p.emit s w).outcome ≠ .error (.builder cause) := by
  intro h
  rw [outcome_emit] at h
  cases hdefined : ((p.functions.filter (!·.isExternal)).mapM fun f =>
      f.emit s w (p.module.child f.name) : Traced EmissionFault (List Function)).outcome with
  | error fault =>
    rw [hdefined] at h
    cases h
    obtain ⟨f, _, hf⟩ := Traced.exists_of_mapM_eq_error hdefined
    exact f.emit_ne_builder s w _ cause hf
  | ok defined =>
    rw [hdefined] at h
    cases h

end BlockCompiler
