import BlockCompiler.Proofs.Stages

/-!
# Stages without warnings

Most steps of a compilation report only what they have done. Neither resolution nor checking warns of
anything, and neither does the emission of a function.
-/

namespace BlockCompiler

open Target

variable {ε ε' α β τ : Type}

namespace Traced

/-- The warnings among the reported events, in order. -/
def warnings (x : Traced ε α) : List Event :=
  x.log.filter (·.level = .warn)

/-- Nothing that is reported is a warning. -/
def Quiet (x : Traced ε α) : Prop :=
  x.warnings = []

theorem warnings_bind_of_ok {x : Traced ε α} {a : α} (f : α → Traced ε β) (h : x.outcome = .ok a) :
    (x >>= f).warnings = x.warnings ++ (f a).warnings := by
  rw [warnings, log_bind_of_ok f h, List.filter_append]
  rfl

/-- A warning is found among the warnings as often as in the log. -/
theorem count_warnings {e : Event} (h : e.level = .warn) (x : Traced ε α) :
    x.warnings.count e = x.log.count e :=
  List.count_filter (by simpa using h)

/-- Events that are reported one by one make up the log. -/
theorem log_forM_report (events : List Event) :
    (events.forM report : Traced ε PUnit).log = events := by
  induction events with
  | nil => rfl
  | cons event events ih =>
    rw [forM_cons, log_bind_of_ok (a := ()) _ rfl, ih]
    rfl

@[simp] theorem quiet_pure (a : α) : (pure a : Traced ε α).Quiet := rfl

@[simp] theorem quiet_lift (x : Except ε α) : (liftM x : Traced ε α).Quiet := rfl

@[simp] theorem quiet_report {event : Event} (h : event.level ≠ .warn) :
    (report event : Traced ε Unit).Quiet := by
  simp [Quiet, warnings, h]

@[simp] theorem Quiet.bind {x : Traced ε α} {f : α → Traced ε β} (hx : x.Quiet)
    (hf : ∀ a, (f a).Quiet) : (x >>= f).Quiet := by
  cases h : x.outcome with
  | error e =>
    rw [Quiet, warnings, log_bind_of_error f h]
    exact hx
  | ok a => rw [Quiet, warnings_bind_of_ok f h, hx, hf a, List.append_nil]

@[simp] theorem quiet_map {x : Traced ε α} (f : α → β) (hx : x.Quiet) : (f <$> x).Quiet := by
  rw [map_eq_pure_bind]
  exact hx.bind fun _ => rfl

theorem quiet_mapM {step : α → Traced ε β} (h : ∀ a, (step a).Quiet) (l : List α) :
    (l.mapM step).Quiet := by
  induction l with
  | nil => simp
  | cons a l ih => simp [h, ih]

private theorem quiet_forM {step : α → Traced ε PUnit} (h : ∀ a, (step a).Quiet) (l : List α) :
    (l.forM step).Quiet := by
  induction l with
  | nil => rfl
  | cons a l ih => exact (h a).bind fun _ => ih

end Traced

section Resolution

variable [Located τ] (s : Scope) (params : List Param)

namespace Expr

mutual

private theorem quiet_resolve : ∀ e : Expr τ, (e.resolve s params).Quiet
  | bareCall _ name args => by
    rw [resolve]
    exact (Traced.quiet_lift _).bind fun _ => (Traced.quiet_report (by nofun)).bind fun _ => by
      simp [quiet_resolveAll args]
  | call _ _ args => by
    simp [resolve, quiet_resolveAll args]
  | binary _ _ lhs rhs => by
    simp [resolve, quiet_resolve lhs, quiet_resolve rhs]
  | neg _ e | ascribed _ _ e => by
    simp [resolve, quiet_resolve e]
  | lit .. | var .. => by
    simp [resolve]

private theorem quiet_resolveAll : ∀ es : List (Expr τ), (resolveAll s params es).Quiet
  | [] => by
    simp [resolveAll]
  | e :: es => by
    simp [resolveAll, quiet_resolve e, quiet_resolveAll es]

end

end Expr

namespace Stmt

mutual

private theorem quiet_resolve : ∀ st : Stmt τ, (st.resolve s params).Quiet
  | branch _ test thn els => by
    rw [resolve]
    exact (test.quiet_resolve s params).bind fun _ => (quiet_resolveAll thn).bind fun _ =>
      (quiet_resolveAll els).bind fun _ => rfl
  | loop _ test body => by
    simp [resolve, test.quiet_resolve, quiet_resolveAll body]
  | effect _ value | ret _ (some value) => by
    simp [resolve, value.quiet_resolve]
  | ret _ none => by
    simp [resolve]

private theorem quiet_resolveAll : ∀ sts : List (Stmt τ), (resolveAll s params sts).Quiet
  | [] => by
    simp [resolveAll]
  | st :: sts => by
    simp [resolveAll, quiet_resolve st, quiet_resolveAll sts]

end

end Stmt

namespace Program

theorem quiet_resolve (p : Program τ) : (p.resolve s).Quiet := by
  have hdecl : ∀ d : Decl τ, (d.resolve s).Quiet := by
    intro d
    cases d <;> simp [Decl.resolve, Stmt.quiet_resolveAll]
  simp [resolve, Traced.quiet_mapM hdecl]

theorem quiet_check (p : Program τ) : (p.check s).Quiet := by
  apply Traced.quiet_forM
  intro d
  cases d with
  | function => exact (Traced.quiet_lift _).bind fun _ => Traced.quiet_report nofun
  | type | imports => rfl

end Program

end Resolution

namespace Emit

/-- From no builder does the step report a warning. -/
def Quiet (x : Emit α) : Prop :=
  ∀ b, (x b).Quiet

@[simp] theorem quiet_pure (a : α) : Quiet (pure a) :=
  fun _ => rfl

@[simp] theorem Quiet.bind {x : Emit α} {f : α → Emit β} (hx : x.Quiet) (hf : ∀ a, (f a).Quiet) :
    Quiet (x >>= f) :=
  fun b => (hx b).bind fun r => hf r.1 r.2

@[simp] theorem quiet_map {x : Emit α} (f : α → β) (hx : x.Quiet) : Quiet (f <$> x) := by
  rw [map_eq_pure_bind]
  exact hx.bind fun _ => quiet_pure _

@[simp] theorem quiet_fail (fault : EmissionFault) : (fail fault : Emit α).Quiet :=
  fun _ => rfl

@[simp] theorem quiet_report {event : Event} (h : event.level ≠ .warn) : (report event).Quiet :=
  fun _ => (Traced.quiet_report h).bind fun _ => rfl

private theorem quiet_attempt (step : Builder → Except Builder.Fault Builder) :
    (attempt step).Quiet :=
  fun _ => rfl

@[simp] theorem quiet_push (i : Instr) : (push i).Quiet :=
  quiet_attempt _

@[simp] theorem quiet_hoist (i : Instr) : (hoist i).Quiet :=
  quiet_attempt _

@[simp] theorem quiet_terminate (t : Terminator) : (terminate t).Quiet :=
  quiet_attempt _

@[simp] theorem quiet_fresh : fresh.Quiet :=
  fun _ => rfl

@[simp] theorem quiet_create (label : String) : (create label).Quiet :=
  fun _ => rfl

@[simp] theorem quiet_moveTo (id : BlockId) : (moveTo id).Quiet :=
  fun _ => rfl

@[simp] theorem quiet_isOpen : isOpen.Quiet :=
  fun _ => rfl

@[simp] theorem quiet_ite {c : Prop} [Decidable c] {x y : Emit α} (hx : x.Quiet) (hy : y.Quiet) :
    (if c then x else y).Quiet := by
  split
  · exact hx
  · exact hy

@[simp] theorem quiet_define (instr : Reg → Instr) : (define instr).Quiet := by
  simp [define]

@[simp] theorem quiet_closeWith (t : Terminator) : (closeWith t).Quiet := by
  simp [closeWith]

@[simp] theorem quiet_coerce (f : Frame) (x : Operand) (source dest : Ty) :
    (coerce f x source dest).Quiet := by
  unfold coerce
  split
  · simp
  · split <;> simp

@[simp] theorem quiet_stringLiteral (v : String) : (stringLiteral v).Quiet :=
  quiet_fresh.bind fun _ => (quiet_hoist _).bind fun _ => (quiet_push _).bind fun _ => quiet_define _

@[simp] theorem quiet_call {f : Frame} {path : Path} {args : List Param → Emit (List Operand)}
    (hargs : ∀ params, (args params).Quiet) : (call f path args).Quiet := by
  unfold call
  split
  · simp
  · refine (hargs _).bind fun _ => ?_
    split <;> simp

@[simp] theorem quiet_joinArm (merge? : Option BlockId) : (joinArm merge?).Quiet := by
  refine quiet_isOpen.bind fun _ => quiet_ite ?_ (quiet_pure _)
  cases merge? <;> simp

end Emit

namespace Expr

variable (f : Frame)

@[simp] theorem quiet_carriedType (e : Expr τ) : e.carriedType.Quiet := by
  unfold carriedType
  split <;> simp

mutual

private theorem quiet_emit : ∀ e : Expr τ, (e.emit f).Quiet
  | ascribed _ _ (lit _ (.bool _)) | ascribed _ _ (lit _ (.int _)) | ascribed _ _ (lit _ (.str _)) => by
    simp [emit]
  | ascribed _ _ (var _ name) => by
    rw [emit]
    split <;> simp
  | ascribed _ _ (binary _ _ lhs rhs) => by
    rw [emit]
    exact lhs.quiet_carriedType.bind fun _ => rhs.quiet_carriedType.bind fun _ =>
      (quiet_emit lhs).bind fun _ => (quiet_emit rhs).bind fun _ => Emit.quiet_ite
        ((Emit.quiet_coerce f _ _ _).bind fun _ => (Emit.quiet_coerce f _ _ _).bind fun _ =>
          Emit.quiet_define _)
        (Emit.quiet_define _)
  | ascribed _ _ (neg _ operand) => by
    simp [emit, quiet_emit operand]
  | ascribed _ _ (call _ _ args) => by
    rw [emit]
    refine (Emit.quiet_call (quiet_emitArgs args)).bind fun r? => ?_
    cases r? <;> simp
  | ascribed _ _ (bareCall ..) | ascribed _ _ (ascribed ..) | bareCall .. | call .. | binary ..
  | neg .. | lit .. | var .. => by
    simp [emit]

private theorem quiet_emitArgs :
    ∀ (args : List (Expr τ)) (params : List Param), (emitArgs f args params).Quiet
  | [], _ | _ :: _, [] => by
    simp [emitArgs]
  | arg :: args, _ :: params => by
    rw [emitArgs]
    exact arg.quiet_carriedType.bind fun _ => (quiet_emit arg).bind fun _ =>
      (Emit.quiet_coerce f _ _ _).bind fun _ => (quiet_emitArgs args params).bind fun _ =>
        Emit.quiet_pure _

end

private theorem quiet_emitEffect (e : Expr τ) : (e.emitEffect f).Quiet := by
  fun_cases emitEffect f e with
  | case1 _ _ _ path args => simp [quiet_emitArgs f args]
  | case2 => simp [quiet_emit f e]

end Expr

namespace Stmt

variable (f : Frame)

mutual

private theorem quiet_emit : ∀ st : Stmt τ, (st.emit f).Quiet
  | branch _ test thn els => by
    rw [emit]
    refine (test.quiet_emit f).bind fun _ => (Emit.quiet_create _).bind fun _ =>
      (Emit.quiet_create _).bind fun _ => (Emit.quiet_terminate _).bind fun _ =>
      (Emit.quiet_moveTo _).bind fun _ => (quiet_emitAll thn).bind fun _ =>
      (Emit.quiet_joinArm _).bind fun _ => (Emit.quiet_moveTo _).bind fun _ =>
      (quiet_emitAll els).bind fun _ => (Emit.quiet_joinArm _).bind fun merge? => ?_
    cases merge? <;> simp
  | loop _ test body => by
    rw [emit]
    exact (Emit.quiet_create _).bind fun _ => (Emit.quiet_terminate _).bind fun _ =>
      (Emit.quiet_moveTo _).bind fun _ => (test.quiet_emit f).bind fun _ =>
      (Emit.quiet_create _).bind fun _ => (Emit.quiet_create _).bind fun _ =>
      (Emit.quiet_terminate _).bind fun _ => (Emit.quiet_moveTo _).bind fun _ =>
      (quiet_emitAll body).bind fun _ => (Emit.quiet_closeWith _).bind fun _ => Emit.quiet_moveTo _
  | effect _ value => by
    simp [emit, value.quiet_emitEffect]
  | ret _ none => by
    simp [emit]
  | ret _ (some value) => by
    rw [emit]
    refine value.quiet_carriedType.bind fun _ => ?_
    split <;> simp [value.quiet_emit, value.quiet_emitEffect]

private theorem quiet_emitAll : ∀ sts : List (Stmt τ), (emitAll f sts).Quiet
  | [] => by
    simp [emitAll]
  | st :: sts => by
    rw [emitAll]
    refine Emit.quiet_isOpen.bind fun _ => ?_
    split
    · simp [quiet_emit st, quiet_emitAll sts]
    · exact Emit.quiet_report nofun

end

end Stmt

theorem Func.quiet_emit (s : Scope) (w : Width) (path : Path) (f : Func τ) :
    (f.emit s w path).Quiet := by
  have hbody : (f.emitBody (f.frame s w)).Quiet :=
    (Emit.quiet_create _).bind fun _ => (Emit.quiet_moveTo _).bind fun _ =>
      (Stmt.quiet_emitAll _ f.body).bind fun _ => Emit.quiet_closeWith _
  exact (hbody _).bind fun _ => (Traced.quiet_lift _).bind fun _ =>
    (Traced.quiet_report (by nofun)).bind fun _ => rfl

end BlockCompiler
