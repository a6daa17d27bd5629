import BlockCompiler.Proofs.Emittable
import BlockCompiler.Proofs.Visible

/-!
# Internal errors

An accepted program is compiled, unless a function that returns nothing has a live statement which
returns a value of the unknown type. The rules let such a value pass, and code for it cannot be
emitted. No other accepted program leads to an internal error.
-/

namespace BlockCompiler

open Target

variable {τ : Type}

/-- Whether the error says that the compiler broke its own rules, rather than that the program breaks
those of the language. -/
def CompileError.isInternal : CompileError → Bool
  | ascription _ | emission _ => true
  | scope _ | resolve _ | check _ => false

/-- No function that can be imported has a parameter of type `Void`. -/
def Library.NoVoidParams (lib : Library) : Prop :=
  ∀ path scope, lib path = some scope → scope.NoVoidParams

namespace Stmt

variable {s : Scope} {sig : Signature}

/-- Statements that are equal up to ascriptions return values of the same types. -/
private theorem ReturnsUnknown.of_samePlain {st st' : Stmt τ} (h : st.ReturnsUnknown s sig)
    (hr : st.SamePlain st') (ht : st'.WellTyped s sig) : st'.ReturnsUnknown s sig := by
  obtain ⟨hv, t, value, rfl, hany⟩ := h
  cases hr with
  | @ret _ _ value' hplain =>
    cases ht with
    | ret _ ht _ _ =>
      have hty := ht.plain
      rw [hplain] at hty
      cases hty.unique hany.plain
      exact ⟨hv, t, value', rfl, ht⟩

private theorem exists_returnsUnknown_of_samePlain {sts sts' : List (Stmt τ)}
    (hr : SamePlainAll sts sts') (ht : AllWellTyped s sig sts')
    (h : ∃ st ∈ liveAll sts, st.ReturnsUnknown s sig) :
    ∃ st ∈ liveAll sts', st.ReturnsUnknown s sig := by
  obtain ⟨st, hmem, h⟩ := h
  obtain ⟨st', hmem', hrel⟩ := exists_right_of_forall₂ hr.liveAll hmem
  exact ⟨st', hmem', h.of_samePlain hrel (ht.liveAll st' hmem')⟩

/-- The addition of types changes nothing about what is returned. -/
private theorem exists_returnsUnknown_iff {sts sts' : List (Stmt τ)} (hr : SamePlainAll sts sts')
    (ht : AllWellTyped s sig sts) (ht' : AllWellTyped s sig sts') :
    (∃ st ∈ liveAll sts', st.ReturnsUnknown s sig) ↔ ∃ st ∈ liveAll sts, st.ReturnsUnknown s sig :=
  ⟨exists_returnsUnknown_of_samePlain (hr.symm fun _ _ => Eq.symm) ht,
    exists_returnsUnknown_of_samePlain hr ht'⟩

end Stmt

/-- Over a list, emission succeeds unless there is a reason for it to fail somewhere. -/
private theorem Attempt.mapM {α β : Type} {g : α → Traced EmissionFault β} {R : α → Prop}
    {l : List α} (h : ∀ a ∈ l, Attempt (R a) (∃ b, (g a).outcome = .ok b) (g a).outcome) :
    Attempt (∃ a ∈ l, R a) (∃ l', (l.mapM g).outcome = .ok l') (l.mapM g).outcome := by
  induction l with
  | nil => exact .ok (by simp) ⟨[], rfl⟩
  | cons a l ih =>
    rw [List.forall_mem_cons] at h
    simp only [List.exists_mem_cons_iff, List.mapM_cons, Traced.outcome_bind]
    cases h.1 with
    | fails hr hf =>
      rw [hf]
      exact .fails (.inl hr) rfl
    | ok hr hok =>
      obtain ⟨b, hb⟩ := hok
      cases ih h.2 with
      | fails hr' hf =>
        rw [hb, hf]
        exact .fails (.inr hr') rfl
      | ok hr' hok =>
        obtain ⟨l', hl'⟩ := hok
        rw [hb, hl']
        exact .ok (fun h => h.elim hr hr') ⟨b :: l', rfl⟩

/-- A well-typed function is emitted, unless it returns something unknown for nothing. -/
private theorem Func.attempt {s : Scope} (w : Width) (path : Path) {f : Func τ}
    (hscope : s.NoVoidParams) (h : f.WellTyped s) (hw : Stmt.WrappedAll f.body) :
    Attempt (∃ st ∈ Stmt.liveAll f.body, st.ReturnsUnknown s f.signature)
      (∃ g, (f.emit s w path).outcome = .ok g) (f.emit s w path).outcome := by
  have hbody := h.body.attempt (f := f.frame s w) hscope h.params hw
    (Builder.isOpen_start f.signature.params.length)
  cases hbody with
  | ok hr hok =>
    obtain ⟨b, hb⟩ := hok
    obtain ⟨blocks, hblocks⟩ := hb.exists_finish f.signature.lastTerminator
    exact .ok hr ⟨_, emit_eq_ok_iff.2 ⟨b, blocks, hb, hblocks, rfl⟩⟩
  | @fails hr x hf =>
    refine .fails hr (x := x) ?_
    rw [outcome_emit, hf]
    rfl

/-- A function, defined in the program, that returns something unknown for nothing. -/
def Func.Misreturns (s : Scope) (f : Func τ) : Prop :=
  f.isExternal = false ∧ ∃ st ∈ Stmt.liveAll f.body, st.ReturnsUnknown s f.signature

private theorem Func.Typed.misreturns_iff {s : Scope} {f f' : Func τ} (h : f.Typed s f') :
    f'.Misreturns s ↔ f.Misreturns s := by
  obtain ⟨body, rfl, hwell, _, ht, hp⟩ := h
  simp only [Func.Misreturns, Stmt.exists_returnsUnknown_iff hp hwell.body ht]

/-- If neither the program nor an import brings in a function with a parameter of type `Void`, then none
is visible. -/
theorem Scope.noVoidParams_of_ofProgram [Located τ] {lib : Library} {p : Program τ} {s : Scope}
    (h : ofProgram lib p = .ok s) (hlib : lib.NoVoidParams)
    (hp : ∀ f ∈ p.functions, ∀ param ∈ f.signature.params, param.ty ≠ .void) : s.NoVoidParams := by
  intro path symbol hs
  cases visible_of_ofProgram h hs with
  | @imported _ _ _ symbol hl hs' _ => exact hlib _ _ hl path symbol hs'
  | @own f hf => exact hp f hf

namespace Accepted

variable [Located τ] {lib : Library} {p resolved typed : Program τ} {s : Scope}

private theorem noVoidParams (h : Accepted lib p s resolved) (hlib : lib.NoVoidParams) :
    s.NoVoidParams := by
  refine Scope.noVoidParams_of_ofProgram h.scope hlib ?_
  intro f hf
  obtain ⟨f', hf', hhead⟩ := h.exists_resolved hf
  rw [← (Func.head_eq_iff.1 hhead).2.2]
  exact (Program.check_eq_ok_iff.1 h.check f' hf').params

/-- For an accepted program code is emitted, unless one of its functions returns something unknown for
nothing. -/
theorem attempt_emit (h : Accepted lib p s resolved) (ht : resolved.addTypes s = .ok typed)
    (hlib : lib.NoVoidParams) (w : Width) :
    Attempt (∃ f ∈ resolved.functions, f.Misreturns s) (∃ m, (typed.emit s w).outcome = .ok m)
      (typed.emit s w).outcome := by
  have hfuncs := h.functions_typed ht
  have hmis : (∃ f ∈ resolved.functions, f.Misreturns s) ↔
      ∃ f ∈ typed.functions.filter (!·.isExternal),
        ∃ st ∈ Stmt.liveAll f.body, st.ReturnsUnknown s f.signature := by
    constructor
    · intro h
      obtain ⟨f, hf, h⟩ := h
      obtain ⟨f', hf', hty⟩ := exists_right_of_forall₂ hfuncs hf
      obtain ⟨hext, h⟩ := hty.misreturns_iff.2 h
      exact ⟨f', List.mem_filter.2 ⟨hf', by simp [hext]⟩, h⟩
    · intro h
      obtain ⟨f', hf', h⟩ := h
      obtain ⟨hf', hext⟩ := List.mem_filter.1 hf'
      obtain ⟨f, hf, hty⟩ := exists_left_of_forall₂ hfuncs hf'
      exact ⟨f, hf, hty.misreturns_iff.1 ⟨by simpa using hext, h⟩⟩
  have hready : ∀ f ∈ typed.functions, f.WellTyped s ∧ Stmt.WrappedAll f.body := by
    intro f' hf'
    obtain ⟨f, _, body, rfl, hwell, hw, ht, _⟩ := exists_left_of_forall₂ hfuncs hf'
    exact ⟨⟨hwell.params, ht⟩, hw⟩
  have hemit := Attempt.mapM (l := typed.functions.filter (!·.isExternal)) fun f hf =>
    have hf := hready f (List.mem_filter.1 hf).1
    Func.attempt w (typed.module.child f.name) (h.noVoidParams hlib) hf.1 hf.2
  rw [hmis, Program.outcome_emit]
  cases hemit with
  | ok hr hok =>
    obtain ⟨defined, hdefined⟩ := hok
    rw [hdefined]
    exact .ok hr ⟨_, rfl⟩
  | fails hr hf =>
    rw [hf]
    exact .fails hr rfl

/-- An accepted program is compiled, unless one of its functions returns something unknown for
nothing. -/
theorem attempt (h : Accepted lib p s resolved) (hlib : lib.NoVoidParams) (w : Width) :
    (¬(∃ f ∈ resolved.functions, f.Misreturns s) ∧ ∃ r, (compile lib w p).outcome = .ok r) ∨
      (∃ f ∈ resolved.functions, f.Misreturns s) ∧
        ∃ x, (compile lib w p).outcome = .error (.emission (.noConversion .any .void x)) := by
  obtain ⟨typed, ht⟩ := h.exists_addTypes
  rw [h.outcome_compile ht]
  cases h.attempt_emit ht hlib w with
  | ok hr hok =>
    obtain ⟨m, hm⟩ := hok
    rw [hm]
    exact .inl ⟨hr, _, rfl⟩
  | fails hr hf =>
    rw [hf]
    exact .inr ⟨hr, _, rfl⟩

end Accepted

variable [Located τ] {lib : Library} {w : Width} {p : Program τ}

/-- Only accepted programs lead to internal errors. -/
theorem accepted_of_isInternal {e : CompileError} (h : (compile lib w p).outcome = .error e)
    (he : e.isInternal) : ∃ s resolved, Accepted lib p s resolved := by
  cases fails_of_compile h with
  | scope | resolve | check => cases he
  | ascription accepted | emission accepted => exact ⟨_, _, accepted⟩

/-- Which programs lead to internal errors, given that no import brings in a function with a
parameter of type `Void`: those that are accepted and in which a function that returns nothing has a
live statement which returns a value of the unknown type. The error is always that this value cannot
be converted, and accepted programs without such a function are compiled. -/
theorem compile_isInternal_iff (hlib : lib.NoVoidParams) :
    (∀ e, (compile lib w p).outcome = .error e → e.isInternal →
      ∃ x, e = .emission (.noConversion .any .void x)) ∧
    ((∃ e, (compile lib w p).outcome = .error e ∧ e.isInternal) ↔
      ∃ s resolved, Accepted lib p s resolved ∧ ∃ f ∈ resolved.functions, f.Misreturns s) ∧
    ∀ s resolved, Accepted lib p s resolved → (¬∃ f ∈ resolved.functions, f.Misreturns s) →
      ∃ r, (compile lib w p).outcome = .ok r := by
  refine ⟨?_, ?_, ?_⟩
  · intro e h he
    obtain ⟨s, resolved, hacc⟩ := accepted_of_isInternal h he
    rcases hacc.attempt hlib w with ⟨_, r, hr⟩ | ⟨_, x, hx⟩
    · rw [h] at hr
      cases hr
    · rw [h] at hx
      cases hx
      exact ⟨x, rfl⟩
  · constructor
    · intro h
      obtain ⟨e, h, he⟩ := h
      obtain ⟨s, resolved, hacc⟩ := accepted_of_isInternal h he
      rcases hacc.attempt hlib w with ⟨_, r, hr⟩ | ⟨hmis, _⟩
      · rw [h] at hr
        cases hr
      · exact ⟨s, resolved, hacc, hmis⟩
    · intro h
      obtain ⟨s, resolved, hacc, hmis⟩ := h
      rcases hacc.attempt hlib w with ⟨hno, _⟩ | ⟨_, x, hx⟩
      · exact absurd hmis hno
      · exact ⟨_, hx, rfl⟩
  · intro s resolved hacc hno
    rcases hacc.attempt hlib w with ⟨_, hr⟩ | ⟨hmis, _⟩
    · exact hr
    · exact absurd hmis hno

theorem Library.noVoidParams_empty : Library.empty.NoVoidParams := by
  intro path scope h
  cases h

/-- A function that returns nothing hands back its argument, of which nothing is known. -/
def discarding : Program Unit :=
  ⟨.single "m",
    [.function () ⟨"f", false, ⟨[⟨.any, "x"⟩], some .void⟩, [.ret () (some (.var () "x"))]⟩]⟩

theorem compile_discarding :
    (compile Library.empty .w64 discarding).outcome =
      .error (.emission (.noConversion .any .void (.reg ⟨0⟩))) :=
  Outcome.eq_error_of_map (g := fun _ => ()) (by decide +kernel)

/-- An accepted program can lead to an internal error. -/
theorem discarding_accepted_and_internal :
    (∃ s resolved, Accepted Library.empty discarding s resolved) ∧
      ∃ e, (compile Library.empty .w64 discarding).outcome = .error e ∧ e.isInternal :=
  ⟨accepted_of_isInternal compile_discarding rfl, _, compile_discarding, rfl⟩

theorem compile_isInternal_iff_discarding :
    Library.empty.NoVoidParams ∧
      ∃ s resolved, Accepted Library.empty discarding s resolved ∧
        ∃ f ∈ resolved.functions, f.Misreturns s :=
  ⟨Library.noVoidParams_empty, (compile_isInternal_iff Library.noVoidParams_empty).2.1.1
    ⟨_, compile_discarding, rfl⟩⟩

end BlockCompiler
