import BlockCompiler.Proofs.Closed

/-!
# Well-typed code is emitted

A well-typed expression that is fully ascribed has code, provided no function takes a parameter of
type `Void`. So has a well-typed statement, with one exception: in a function that returns nothing, a
value of the unknown type may be returned, and there is no conversion for it.
-/

namespace BlockCompiler

open Target

variable {τ : Type}

/-- No visible function has a parameter of type `Void`. -/
def Scope.NoVoidParams (s : Scope) : Prop :=
  ∀ path symbol, s.function? path = some symbol → ∀ param ∈ symbol.decl.params, param.ty ≠ .void

/-- Values of types that fit can be converted, unless one of the types is `Void`. -/
private theorem exists_coerces (w : Width) {source dest : Ty} (n : Nat) (x : Operand)
    (fits : source = dest ∨ source = .any ∨ dest = .any) (hs : source ≠ .void) (hd : dest ≠ .void) :
    ∃ x' c n', Coerces w source dest n x x' c n' := by
  by_cases ht : source.target w = dest.target w
  · exact ⟨x, [], n, .same ht⟩
  · have hc : ∃ instr, (source.target w).conversion? (dest.target w) = some instr := by
      cases source <;> cases dest <;> simp_all [Ty.target, Target.Ty.conversion?]
    obtain ⟨instr, hc⟩ := hc
    exact ⟨_, _, _, .convert ht hc⟩

private theorem BinOp.Types.ne_void {op : BinOp} {a b ty : Ty} (h : op.Types a b ty) :
    a ≠ .void ∧ b ≠ .void := by
  cases h with
  | arith | order => simp
  | equality _ _ ha hb _ => exact ⟨ha, hb⟩

/-- A variable with a type has a register. -/
private theorem Frame.exists_register? {f : Frame} {name : String} {ty : Ty}
    (h : f.signature.typeOf? name = some ty) : ∃ r, f.register? name = some r := by
  rw [f.typeOf?_eq, Option.map_eq_some_iff] at h
  obtain ⟨entry, he, _⟩ := h
  exact ⟨entry.2, by rw [register?, he]; rfl⟩

namespace Expr

variable {f : Frame}

mutual

private theorem exists_emits (hscope : f.scope.NoVoidParams) :
    ∀ (e : Expr τ) {ty : Ty}, e.HasType f.scope f.signature ty → e.Wrapped → ty ≠ .void →
      ∀ n, ∃ x c n', e.Emits f n x c n'
  | .ascribed t ty (.lit t' (.bool v)), _, _, _, _, n => ⟨_, _, _, .bool t t' ty v n⟩
  | .ascribed t ty (.lit t' (.int v)), _, _, _, _, n => ⟨_, _, _, .int t t' ty v n⟩
  | .ascribed t ty (.lit t' (.str v)), _, _, _, _, n => ⟨_, _, _, .str t t' ty v n⟩
  | .ascribed t ty (.var t' name), _, h, _, _, n => by
    cases h with
    | ascribed _ h =>
      cases h with
      | var _ h =>
        obtain ⟨r, hr⟩ := Frame.exists_register? h
        exact ⟨_, _, _, .var t t' ty n hr⟩
  | .ascribed t ty (.neg t' operand), _, h, hw, _, n => by
    have ht := h.negated
    obtain ⟨x, c, n', hx⟩ := exists_emits hscope operand ht hw (by simp) n
    exact ⟨_, _, _, .neg t t' ty (ht.ascribedType?_eq hw) hx⟩
  | .ascribed t ty (.binary t' op lhs rhs), _, h, hw, _, n => by
    cases h with
    | ascribed _ h =>
      cases h with
      | binary _ htl htr hop =>
        obtain ⟨ha, hb⟩ := hop.ne_void
        obtain ⟨x, c₁, n₁, hx⟩ := exists_emits hscope lhs htl hw.1 ha n
        obtain ⟨y, c₂, n₂, hy⟩ := exists_emits hscope rhs htr hw.2 hb n₁
        obtain ⟨x', c₃, n₃, hx'⟩ := exists_coerces f.width n₂ x (Ty.fits_against _ _) ha
          (Ty.against_ne_void ha)
        obtain ⟨y', c₄, n₄, hy'⟩ := exists_coerces f.width n₃ y (Ty.fits_against _ _) hb
          (Ty.against_ne_void hb)
        exact ⟨_, _, _, .binary t t' ty op (htl.ascribedType?_eq hw.1) (htr.ascribedType?_eq hw.2) hx
          hy hx' hy'⟩
  | .ascribed t ty (.call t' path args), _, h, hw, hv, n => by
    cases h with
    | ascribed _ h =>
      cases h with
      | call _ hs fit =>
        obtain ⟨xs, c, n', hxs⟩ := exists_emitsArgs hscope args fit hw (hscope _ _ hs) n
        exact ⟨_, _, _, .call t t' _ hs hxs hv⟩

private theorem exists_emitsArgs (hscope : f.scope.NoVoidParams) :
    ∀ (args : List (Expr τ)) {params : List Param}, ArgsFit f.scope f.signature args params →
      WrappedAll args → (∀ param ∈ params, param.ty ≠ .void) →
      ∀ n, ∃ xs c n', EmitsArgs f args params n xs c n'
  | [], params, _, _, _, n => ⟨_, _, _, .noArgs params n⟩
  | arg :: args, _, fit, hw, hp, n => by
    cases fit with
    | cons h value fits rest =>
      rw [List.forall_mem_cons] at hp
      obtain ⟨x, c₁, n₁, hx⟩ := exists_emits hscope arg h hw.1 value n
      obtain ⟨x', c₂, n₂, hx'⟩ := exists_coerces f.width n₁ x fits value hp.1
      obtain ⟨xs, c₃, n₃, hxs⟩ := exists_emitsArgs hscope args rest hw.2 hp.2 n₂
      exact ⟨_, _, _, .cons (h.ascribedType?_eq hw.1) hx hx' hxs⟩

end

/-- An expression of any type can be emitted for its effect. -/
private theorem exists_emitsEffect (hscope : f.scope.NoVoidParams)
    (hp : ∀ param ∈ f.signature.params, param.ty ≠ .void) {e : Expr τ} {ty : Ty}
    (h : e.HasType f.scope f.signature ty) (hw : e.Wrapped) (n : Nat) :
    ∃ c n', e.EmitsEffect f n c n' := by
  by_cases hv : ty = .void
  · -- nothing but a call has the type `Void`
    cases h with
    | lit | var | neg | binary | call => simp [Wrapped] at hw
    | ascribed t h =>
      cases h with
      | ascribed => simp [Wrapped] at hw
      | lit _ value => cases value <;> cases hv
      | neg => cases hv
      | binary _ _ _ hop => cases hop <;> cases hv
      | var _ h =>
        obtain ⟨param, hmem, hty⟩ := Signature.exists_param h
        exact absurd (hty.trans hv) (hp param hmem)
      | call _ hs fit =>
        obtain ⟨xs, c, n', hxs⟩ := exists_emitsArgs hscope _ fit hw (hscope _ _ hs) n
        exact ⟨_, _, .voidCall t _ _ hs hxs hv⟩
  · obtain ⟨x, c, n', hx⟩ := exists_emits hscope e h hw hv n
    exact ⟨c, n', .value hx⟩

end Expr

namespace Emit

variable {α β : Type} {b : Builder} {fault : EmissionFault}

theorem outcome_bind_of_error {x : Emit α} (g : α → Emit β) (h : (x b).outcome = .error fault) :
    ((x >>= g) b).outcome = .error fault := by
  rw [outcome_bind, h]
  rfl

/-- Nothing of the unknown type becomes a value of type `Void`. -/
private theorem outcome_coerce_void (f : Frame) (x : Operand) (b : Builder) :
    (coerce f x .any .void b).outcome = .error (.noConversion .any .void x) := rfl

end Emit

theorem Target.Builder.exists_joins (b : Builder) (m : Option BlockId) :
    ∃ b' m', b.Joins m b' m' := by
  cases ho : b.isOpen with
  | false => exact ⟨b, m, .closed ho⟩
  | true =>
    cases m with
    | none => exact ⟨_, _, .first ho⟩
    | some merge => exact ⟨_, _, .again ho⟩

/-- Emission succeeds as `ok` tells, unless there is a reason for it to fail. -/
inductive Attempt {α : Type} (reason ok : Prop) (outcome : Except EmissionFault α) : Prop where
  | ok (h : ¬reason) (hok : ok)
  | fails (h : reason) {x : Operand} (hx : outcome = .error (.noConversion .any .void x))

namespace Stmt

/-- The statement returns a value of the unknown type from a function that returns nothing. -/
def ReturnsUnknown (s : Scope) (sig : Signature) (st : Stmt τ) : Prop :=
  sig.result = .void ∧ ∃ t value, st = .ret t (some value) ∧ value.HasType s sig .any

section Live

variable {s : Scope} {sig : Signature} {t : τ} {test : Expr τ} {thn els body sts : List (Stmt τ)}
  {st : Stmt τ}

private theorem exists_live_branch :
    (∃ st ∈ (branch t test thn els).live, st.ReturnsUnknown s sig) ↔
      (∃ st ∈ liveAll thn, st.ReturnsUnknown s sig) ∨ ∃ st ∈ liveAll els, st.ReturnsUnknown s sig := by
  simp [live, ReturnsUnknown, or_and_right, exists_or]

private theorem exists_live_loop :
    (∃ st ∈ (loop t test body).live, st.ReturnsUnknown s sig) ↔
      ∃ st ∈ liveAll body, st.ReturnsUnknown s sig := by
  simp [live, ReturnsUnknown]

private theorem exists_live_cons :
    (∃ st' ∈ liveAll (st :: sts), st'.ReturnsUnknown s sig) ↔
      (∃ st' ∈ st.live, st'.ReturnsUnknown s sig) ∨
        st.closes = false ∧ ∃ st' ∈ liveAll sts, st'.ReturnsUnknown s sig := by
  cases hc : st.closes <;> simp [liveAll, hc, or_and_right, exists_or]

end Live

private theorem EmittedAll.of_closed {f : Frame} (sts : List (Stmt τ)) {b : Builder}
    (h : b.isOpen = false) :
    EmittedAll f sts b b := by
  cases sts with
  | nil => exact .nil b
  | cons st sts => exact .dead h

variable {f : Frame}

/-- A return of a value, which may be none or unknown. -/
private theorem attempt_ret (hscope : f.scope.NoVoidParams)
    (hp : ∀ param ∈ f.signature.params, param.ty ≠ .void) (t : τ) {value : Expr τ} {ty : Ty}
    (h : value.HasType f.scope f.signature ty)
    (fits : ty = f.signature.result ∨ ty = .any ∨ f.signature.result = .any)
    (nothing : ty = .void → f.signature.result = .void) (hw : value.Wrapped) {b : Builder}
    (ho : b.isOpen) :
    Attempt (∃ st ∈ (ret t (some value)).live, st.ReturnsUnknown f.scope f.signature)
      (∃ b', (ret t (some value)).Emitted f b b') ((ret t (some value)).emit f b).outcome := by
  have ha := h.ascribedType?_eq hw
  by_cases hv : ty = .void
  · subst hv
    obtain ⟨c, n, he⟩ := Expr.exists_emitsEffect hscope hp h hw b.nextReg
    refine .ok ?_ ⟨_, .voidRet t ha he⟩
    intro hr
    obtain ⟨_, hmem, _, _, _, he, hany⟩ := hr
    cases List.mem_singleton.1 hmem
    cases he
    cases h.unique hany
  · obtain ⟨x, c, n, hx⟩ := Expr.exists_emits hscope value h hw hv b.nextReg
    by_cases hr : f.signature.result = .void
    · have hany : ty = .any := by
        rcases fits with hf | hf | hf
        · exact absurd (hf.trans hr) hv
        · exact hf
        · rw [hr] at hf
          cases hf
      subst hany
      refine .fails ⟨_, List.mem_singleton.2 rfl, hr, t, value, rfl, h⟩ (x := x) ?_
      have hcarried := Expr.carriedType_eq_ok_iff.2 ⟨ha, (rfl : b = b)⟩
      have hvalue := (Expr.emit_eq_ok_iff value ho).2 ⟨c, n, hx, rfl⟩
      simp only [emit]
      rw [Emit.outcome_bind_of_ok _ hcarried, if_neg hv, Emit.outcome_bind_of_ok _ hvalue, hr]
      exact Emit.outcome_bind_of_error _ (Emit.outcome_coerce_void f x _)
    · obtain ⟨x', c', n', hx'⟩ := exists_coerces f.width n x fits hv hr
      refine .ok ?_ ⟨_, .ret t ha hv hx hx'⟩
      intro hreason
      obtain ⟨_, _, hvoid, _⟩ := hreason
      exact hr hvoid

mutual

private theorem WellTyped.attempt (hscope : f.scope.NoVoidParams)
    (hp : ∀ param ∈ f.signature.params, param.ty ≠ .void) {st : Stmt τ} :
    st.WellTyped f.scope f.signature → st.Wrapped → ∀ {b : Builder}, b.isOpen →
    Attempt (∃ st' ∈ st.live, st'.ReturnsUnknown f.scope f.signature) (∃ b', st.Emitted f b b')
      (st.emit f b).outcome
  | .effect t h, hw, b, ho => by
    obtain ⟨c, n, he⟩ := Expr.exists_emitsEffect hscope hp h hw b.nextReg
    exact .ok (by simp [live, ReturnsUnknown]) ⟨_, .effect t he⟩
  | .bareRet t _, _, b, _ => .ok (by simp [live, ReturnsUnknown]) ⟨_, .bareRet t b⟩
  | .ret t h fits nothing, hw, b, ho => attempt_ret hscope hp t h fits nothing hw ho
  | .branch t h hthn hels, hw, b, ho => by
    obtain ⟨x, c, n, hx⟩ := Expr.exists_emits hscope _ h hw.1 (by simp) b.nextReg
    have hsplit : ((b.write c n).split x "then" "else").isOpen :=
      Builder.isOpen_split _ _ _ (by simpa)
    simp only [emit, exists_live_branch]
    rw [Emit.outcome_bind_of_ok _ ((Expr.emit_eq_ok_iff _ ho).2 ⟨c, n, hx, rfl⟩),
      Emit.outcome_split _ _ _ _ (by simpa)]
    cases hthn.attempt hscope hp hw.2.1 hsplit with
    | fails hr hf => exact .fails (.inl hr) (Emit.outcome_bind_of_error _ hf)
    | ok hr hok =>
      obtain ⟨b₁, hb₁⟩ := hok
      obtain ⟨b₁', m₁, j₁⟩ := b₁.exists_joins none
      rw [Emit.outcome_bind_of_ok _ ((emitAll_eq_ok_iff _).2 hb₁),
        Emit.outcome_bind_of_ok _ (Emit.joinArm_eq_ok_iff.2 j₁),
        Emit.outcome_bind_of_ok _ (Emit.outcome_moveTo ..), Builder.length_blocks_write]
      cases hels.attempt hscope hp hw.2.2 (hb₁.blank_else j₁ ho).isOpen_moveTo with
      | fails hr hf => exact .fails (.inr hr) (Emit.outcome_bind_of_error _ hf)
      | ok hr' hok =>
        obtain ⟨b₂, hb₂⟩ := hok
        obtain ⟨b₂', m₂, j₂⟩ := b₂.exists_joins m₁
        exact .ok (fun h => h.elim hr hr') ⟨_, .branch t hx hb₁ j₁ hb₂ j₂⟩
  | .loop t h hbody, hw, b, ho => by
    obtain ⟨x, c, n, hx⟩ := Expr.exists_emits hscope _ h hw.1 (by simp) b.nextReg
    have hheader := Builder.isOpen_proceed "loop.header" ho
    have hsplit : (((b.proceed "loop.header").write c n).split x "loop.body" "loop.exit").isOpen :=
      Builder.isOpen_split _ _ _ (by simpa)
    simp only [emit, exists_live_loop]
    rw [Emit.outcome_proceed _ _ ho,
      Emit.outcome_bind_of_ok _ ((Expr.emit_eq_ok_iff _ hheader).2 ⟨c, n, by simpa using hx, rfl⟩),
      Emit.outcome_split _ _ _ _ (by simpa)]
    cases hbody.attempt hscope hp hw.2 hsplit with
    | fails hr hf => exact .fails hr (Emit.outcome_bind_of_error _ hf)
    | ok hr hok =>
      obtain ⟨b₁, hb₁⟩ := hok
      exact .ok hr ⟨_, .loop t hx hb₁⟩

theorem AllWellTyped.attempt (hscope : f.scope.NoVoidParams)
    (hp : ∀ param ∈ f.signature.params, param.ty ≠ .void) {sts : List (Stmt τ)} :
    AllWellTyped f.scope f.signature sts → WrappedAll sts → ∀ {b : Builder}, b.isOpen →
    Attempt (∃ st ∈ liveAll sts, st.ReturnsUnknown f.scope f.signature) (∃ b', EmittedAll f sts b b')
      (emitAll f sts b).outcome
  | .nil, _, b, _ => .ok (by simp [liveAll]) ⟨b, .nil b⟩
  | @AllWellTyped.cons _ _ _ st sts h rest, hw, b, ho => by
    simp only [emitAll, exists_live_cons]
    rw [Emit.outcome_bind_of_ok _ (Emit.outcome_isOpen b), if_pos ho]
    cases h.attempt hscope hp hw.1 ho with
    | fails hr hf => exact .fails (.inl hr) (Emit.outcome_bind_of_error _ hf)
    | ok hr hok =>
      obtain ⟨b₁, hb₁⟩ := hok
      rw [Emit.outcome_bind_of_ok _ ((emit_eq_ok_iff st ho).2 hb₁)]
      have hopen := hb₁.isOpen_eq ho
      cases hc : st.closes with
      | true =>
        -- what follows is skipped
        rw [hc] at hopen
        refine .ok ?_ ⟨b₁, .cons ho hb₁ (.of_closed sts hopen)⟩
        simpa using hr
      | false =>
        rw [hc] at hopen
        cases rest.attempt hscope hp hw.2 hopen with
        | fails hr' hf => exact .fails (.inr ⟨rfl, hr'⟩) hf
        | ok hr' hok =>
          obtain ⟨b₂, hb₂⟩ := hok
          exact .ok (fun h => h.elim hr fun h => hr' h.2) ⟨b₂, .cons ho hb₁ hb₂⟩

end

end Stmt

end BlockCompiler
