import BlockCompiler.Compile
import BlockCompiler.Proofs.Outcome
import BlockCompiler.Proofs.Retagging

/-!
# Positions in source text

The compiler copies positions from tags into errors and does nothing else with them. So to move the
positions of a program is to move those of its error, if it has one. Since this holds however they are
moved, an error can have no positions but those of the program.
-/

namespace BlockCompiler

/-- The error with its positions replaced. -/
def ScopeError.mapSpans (g : Option Span → Option Span) : ScopeError → ScopeError
  | duplicate name span? previous? => duplicate name (g span?) (g previous?)
  | missingModule module span? => missingModule module (g span?)

def ResolveError.mapSpans (g : Option Span → Option Span) : ResolveError → ResolveError
  | undeclared name span? => undeclared name (g span?)
  | ambiguous name candidates span? => ambiguous name candidates (g span?)
  | missingImport module span? => missingImport module (g span?)

def CheckError.mapSpans (g : Option Span → Option Span) : CheckError → CheckError
  | mismatch construct expected actual span? => mismatch construct expected actual (g span?)
  | arity callee expected actual span? => arity callee expected actual (g span?)
  | voidParameter function name span? => voidParameter function name (g span?)
  | fault cause => fault cause

def CompileError.mapSpans (g : Option Span → Option Span) : CompileError → CompileError
  | scope error => scope (error.mapSpans g)
  | resolve error => resolve (error.mapSpans g)
  | check error => check (error.mapSpans g)
  | ascription fault => ascription fault
  | emission fault => emission fault

variable {σ τ : Type} [Located σ] [Located τ] {f : σ → τ} {g : Option Span → Option Span}

/-- Tags are replaced by `f` so that what they tell of positions is replaced by `g`. -/
def Relocates (f : σ → τ) (g : Option Span → Option Span) : Prop :=
  ∀ t, Located.span? (f t) = g (Located.span? t)

section Scope

variable {lib : Library}

private theorem Scope.addAll_retag (hg : Relocates f g) (s : Scope)
    (seen : List (String × Option Span)) (decls : List (Decl σ)) :
    addAll lib s (seen.map (Prod.map id g)) (decls.map (Decl.retag f)) =
      (addAll lib s seen decls).mapError (ScopeError.mapSpans g) := by
  have hlookup : ∀ (seen : List (String × Option Span)) (name : String),
      (seen.map (Prod.map id g)).lookup name = (seen.lookup name).map g := by
    intro seen name
    induction seen with
    | nil => rfl
    | cons entry seen ih =>
      obtain ⟨name', span?⟩ := entry
      simp only [List.map_cons, Prod.map_apply, id, List.lookup_cons, ih]
      split <;> rfl
  induction decls generalizing s seen with
  | nil => rfl
  | cons d decls ih =>
    cases d with
    | imports t module =>
      simp only [List.map_cons, Decl.retag, addAll, hg t]
      cases lib module with
      | none => rfl
      | some imported => exact ih _ _
    | function t decl =>
      simp only [List.map_cons, Decl.retag, addAll, hg t, Func.retag, hlookup]
      cases seen.lookup decl.name with
      | some previous? => rfl
      | none => exact ih _ ((decl.name, Located.span? t) :: seen)
    | type t decl =>
      simp only [List.map_cons, Decl.retag, addAll, hg t, hlookup]
      cases seen.lookup decl.name with
      | some previous? => rfl
      | none => exact ih _ ((decl.name, Located.span? t) :: seen)

private theorem Scope.ofProgram_retag (hg : Relocates f g) (p : Program σ) :
    ofProgram lib (p.retag f) = (ofProgram lib p).mapError (ScopeError.mapSpans g) := by
  rw [Program.retag_eq]
  exact addAll_retag hg _ [] _

end Scope

section Resolution

variable (s : Scope) (params : List Param)

private theorem Scope.callee_map (name : String) (span? : Option Span) :
    s.callee name (g span?) = (s.callee name span?).mapError (ResolveError.mapSpans g) := by
  rw [callee, callee]
  split <;> rfl

private theorem Expr.requireVisible_map (hg : Relocates f g) (visible : Bool) (name : String)
    (t : σ) :
    requireVisible visible name (f t) =
      (requireVisible visible name t).mapError (ResolveError.mapSpans g) := by
  rw [requireVisible, requireVisible, hg t]
  split <;> rfl

mutual

/-- Names stand for the same functions wherever they are. -/
private theorem Expr.resolve_retag (hg : Relocates f g) : ∀ e : Expr σ,
    (e.retag f).resolve s params =
      retag f <$> (e.resolve s params).mapError (ResolveError.mapSpans g)
  | bareCall t name args => by
    simp [resolve, hg t, s.callee_map, resolveAll_retag hg args]
  | call t path args => by
    simp [resolve, requireVisible_map hg, resolveAll_retag hg args]
  | binary t op lhs rhs => by
    simp [resolve, resolve_retag hg lhs, resolve_retag hg rhs]
  | neg t operand => by
    simp [resolve, resolve_retag hg operand]
  | ascribed t ty inner => by
    simp [resolve, resolve_retag hg inner]
  | lit t value => by
    simp [resolve]
  | var t name => by
    simp [resolve, requireVisible_map hg]

private theorem Expr.resolveAll_retag (hg : Relocates f g) : ∀ es : List (Expr σ),
    resolveAll s params (es.map (retag f)) =
      List.map (retag f) <$> (resolveAll s params es).mapError (ResolveError.mapSpans g)
  | [] => rfl
  | e :: es => by
    simp [resolveAll, resolve_retag hg e, resolveAll_retag hg es]

end

mutual

private theorem Stmt.resolve_retag (hg : Relocates f g) : ∀ st : Stmt σ,
    (st.retag f).resolve s params =
      retag f <$> (st.resolve s params).mapError (ResolveError.mapSpans g)
  | branch t test thn els => by
    simp [resolve, test.resolve_retag s params hg, resolveAll_retag hg thn, resolveAll_retag hg els]
  | loop t test body => by
    simp [resolve, test.resolve_retag s params hg, resolveAll_retag hg body]
  | effect t value => by
    simp [resolve, value.resolve_retag s params hg]
  | ret t none => by
    simp [resolve]
  | ret t (some value) => by
    simp [resolve, value.resolve_retag s params hg]

private theorem Stmt.resolveAll_retag (hg : Relocates f g) : ∀ sts : List (Stmt σ),
    resolveAll s params (sts.map (retag f)) =
      List.map (retag f) <$> (resolveAll s params sts).mapError (ResolveError.mapSpans g)
  | [] => rfl
  | st :: sts => by
    simp [resolveAll, resolve_retag hg st, resolveAll_retag hg sts]

end

private theorem Decl.resolve_retag (hg : Relocates f g) (d : Decl σ) :
    (d.retag f).resolve s = retag f <$> (d.resolve s).mapError (ResolveError.mapSpans g) := by
  cases d with
  | function t decl => simp [retag, Func.retag, resolve, Stmt.resolveAll_retag s _ hg]
  | type | imports => rfl

private theorem Scope.requireImports_map (hg : Relocates f g) (imports : List (Path × σ)) :
    s.requireImports (imports.map (Prod.map id f)) =
      (s.requireImports imports).mapError (ResolveError.mapSpans g) := by
  induction imports with
  | nil => rfl
  | cons entry imports ih =>
    obtain ⟨module, t⟩ := entry
    simp only [List.map_cons, Prod.map_apply, id, requireImports, hg t, ih]
    split <;> rfl

private theorem Program.resolve_retag (hg : Relocates f g) (p : Program σ) :
    (p.retag f).resolve s = retag f <$> (p.resolve s).mapError (ResolveError.mapSpans g) := by
  rw [resolve, imports_retag, s.requireImports_map hg, retag_eq]
  simp [resolve, mapM_map_of_comm (Decl.resolve_retag s hg), retag_eq]

end Resolution

section Checking

variable (s : Scope) (sig : Signature)

private theorem Expr.span?_retag (hg : Relocates f g) (e : Expr σ) :
    (e.retag f).span? = g e.span? := by
  rw [span?, span?, tag_retag, hg]

private theorem Expr.operandError_retag (hg : Relocates f g) (op : BinOp) (lhs rhs : Expr σ)
    (m : OperandMismatch) :
    operandError op (lhs.retag f) (rhs.retag f) m = (operandError op lhs rhs m).mapSpans g := by
  simp only [operandError, span?_retag hg, CheckError.mapSpans]
  cases m.side <;> rfl

mutual

/-- Types are the same wherever expressions are. -/
private theorem Expr.infer_retag (hg : Relocates f g) : ∀ e : Expr σ,
    (e.retag f).infer s sig = (e.infer s sig).mapError (CheckError.mapSpans g)
  | bareCall .. => by
    simp only [retag_bareCall, infer]
    rfl
  | call t path args => by
    simp only [retag_call, infer, List.length_map, hg t]
    cases s.function? path with
    | none => rfl
    | some symbol =>
      by_cases hl : args.length = symbol.decl.params.length
      · simp only [hl, if_true, inferArgs_retag hg path 1 args, Outcome.mapError_bind]
        rfl
      · simp only [hl, if_false]
        rfl
  | binary t op lhs rhs => by
    simp only [retag_binary, infer, infer_retag hg lhs, infer_retag hg rhs, Outcome.mapError_bind]
    refine bind_congr fun lhsType => bind_congr fun rhsType => ?_
    cases op.resultType lhsType rhsType with
    | ok ty => rfl
    | error m => simp only [Outcome.mapError_error, operandError_retag hg]
  | neg t operand => by
    simp only [retag_neg, infer, infer_retag hg operand, Outcome.mapError_bind, span?_retag hg]
    refine bind_congr fun a => ?_
    split <;> rfl
  | ascribed t ty inner => by
    simp only [retag_ascribed, infer, infer_retag hg inner, Outcome.mapError_bind, untagged_retag]
    refine bind_congr fun a => ?_
    split <;> rfl
  | lit .. => rfl
  | var t name => by
    simp only [retag_var, infer]
    cases sig.typeOf? name <;> rfl

private theorem Expr.inferArgs_retag (hg : Relocates f g) (callee : Path) (index : Nat) :
    ∀ (args : List (Expr σ)) (params : List Param),
      inferArgs s sig callee index (args.map (retag f)) params =
        (inferArgs s sig callee index args params).mapError (CheckError.mapSpans g)
  | [], _ => by
    simp only [List.map_nil, inferArgs]
    rfl
  | _ :: _, [] => by
    simp only [List.map_cons, inferArgs]
    rfl
  | arg :: args, param :: params => by
    simp only [List.map_cons, inferArgs, infer_retag hg arg,
      inferArgs_retag hg callee (index + 1) args params, Outcome.mapError_bind, span?_retag hg]
    refine bind_congr fun a => ?_
    split <;> rfl

end

private theorem Expr.checkTest_retag (hg : Relocates f g) (construct : Construct) (test : Expr σ) :
    (test.retag f).checkTest s sig construct =
      (test.checkTest s sig construct).mapError (CheckError.mapSpans g) := by
  simp only [checkTest, infer_retag s sig hg, Outcome.mapError_bind, span?_retag hg]
  refine bind_congr fun actual => ?_
  split <;> rfl

mutual

private theorem Stmt.check_retag (hg : Relocates f g) : ∀ st : Stmt σ,
    (st.retag f).check s sig = (st.check s sig).mapError (CheckError.mapSpans g)
  | branch _ test thn els => by
    simp only [retag_branch, check, test.checkTest_retag s sig hg, checkAll_retag hg thn,
      checkAll_retag hg els, Outcome.mapError_bind]
  | loop _ test body => by
    simp only [retag_loop, check, test.checkTest_retag s sig hg, checkAll_retag hg body,
      Outcome.mapError_bind]
  | effect _ value => by
    simp only [retag_effect, check, value.infer_retag s sig hg, Outcome.mapError_bind]
    rfl
  | ret t none => by
    simp only [retag_ret, Option.map_none, check, hg t]
    split <;> rfl
  | ret _ (some value) => by
    simp only [retag_ret, Option.map_some, check, value.infer_retag s sig hg, value.span?_retag hg,
      Outcome.mapError_bind]
    refine bind_congr fun actual => ?_
    split <;> rfl

private theorem Stmt.checkAll_retag (hg : Relocates f g) : ∀ sts : List (Stmt σ),
    checkAll s sig (sts.map (retag f)) = (checkAll s sig sts).mapError (CheckError.mapSpans g)
  | [] => rfl
  | st :: sts => by
    simp only [List.map_cons, checkAll, check_retag hg st, checkAll_retag hg sts,
      Outcome.mapError_bind]

end

private theorem Func.check_retag (hg : Relocates f g) (t : σ) (decl : Func σ) :
    (decl.retag f).check s (f t) = (decl.check s t).mapError (CheckError.mapSpans g) := by
  simp only [check, retag, hg t, Stmt.checkAll_retag s _ hg]
  split <;> rfl

private theorem Decl.check_retag (hg : Relocates f g) (d : Decl σ) :
    (d.retag f).check s = (d.check s).mapError (CheckError.mapSpans g) := by
  cases d with
  | function t decl =>
    simp only [retag, check, decl.check_retag s hg, Traced.mapError_bind, Traced.mapError_lift,
      Traced.mapError_report]
    rfl
  | type | imports => rfl

private theorem Program.check_retag (hg : Relocates f g) (p : Program σ) :
    (p.retag f).check s = (p.check s).mapError (CheckError.mapSpans g) := by
  rw [check, check, retag_eq]
  exact Traced.forM_map (Decl.check_retag s hg) p.decls

end Checking

/-- To move the positions of a program is to move those of its error. -/
theorem compile_retag (hg : Relocates f g) (lib : Library) (w : Target.Width) (p : Program σ) :
    compile lib w (p.retag f) = (compile lib w p).mapError (CompileError.mapSpans g) := by
  have hmodule : (p.retag f).module = p.module := rfl
  simp only [compile, Scope.ofProgram_retag hg, Program.resolve_retag _ hg, Program.check_retag _ hg,
    Program.addTypes_retag, Program.emit_retag, hmodule, Traced.mapError_bind, Traced.mapError_lift,
    Traced.mapError_map, Traced.mapError_mapError, Traced.mapError_report, Traced.mapError_pure,
    Traced.lift_map, Outcome.mapError_map, Outcome.mapError_mapError, bind_map_left,
    CompileError.mapSpans]

section Spans

def ScopeError.spans : ScopeError → List (Option Span)
  | duplicate _ span? previous? => [span?, previous?]
  | missingModule _ span? => [span?]

def ResolveError.spans : ResolveError → List (Option Span)
  | undeclared _ span? | ambiguous _ _ span? | missingImport _ span? => [span?]

def CheckError.spans : CheckError → List (Option Span)
  | mismatch _ _ _ span? | arity _ _ _ span? | voidParameter _ _ span? => [span?]
  | fault _ => []

namespace CompileError

/-- What an error has in its places for positions. -/
def spans : CompileError → List (Option Span)
  | scope error => error.spans
  | resolve error => error.spans
  | check error => error.spans
  | ascription _ | emission _ => []

/-- Whether the error is a fault of the compiler, which points at no source. -/
def isFault : CompileError → Bool
  | check (.fault _) | ascription _ | emission _ => true
  | scope _ | resolve _ | check _ => false

private theorem spans_mapSpans (g : Option Span → Option Span) (e : CompileError) :
    (e.mapSpans g).spans = e.spans.map g := by
  cases e with
  | scope error | resolve error | check error => cases error <;> rfl
  | ascription | emission => rfl

/-- Only faults have no place for a position. -/
theorem spans_ne_nil {e : CompileError} (h : e.isFault = false) : e.spans ≠ [] := by
  cases e with
  | scope error | resolve error => cases error <;> exact nofun
  | check error =>
    cases error with
    | fault => cases h
    | _ => exact nofun
  | ascription | emission => cases h

end CompileError

/-- The span itself if it is among those given, and another span if not. -/
def Span.fixOnly (spans : List Span) (span : Span) : Span :=
  if span ∈ spans then span else ⟨span.start + 1, span.stop⟩

private theorem Span.fixOnly_eq_self_iff {spans : List Span} {span : Span} :
    span.fixOnly spans = span ↔ span ∈ spans := by
  by_cases h : span ∈ spans
  · simp [fixOnly, h]
  · have hne : (⟨span.start + 1, span.stop⟩ : Span) ≠ span := fun heq =>
      Nat.succ_ne_self span.start (congrArg Span.start heq)
    simp [fixOnly, h, hne]

/-- An error has no positions but those of the program. -/
theorem mem_tags_of_compile {lib : Library} {w : Target.Width} {p : Program Span} {e : CompileError}
    (h : (compile lib w p).outcome = .error e) :
    ∀ span? ∈ e.spans, ∃ span ∈ p.tags, span? = some span := by
  -- Move every position that the program does not have, and put one where there is none. The program
  -- stays the same, and so does its error.
  have hg : Relocates (Span.fixOnly p.tags) fun span? => some ((span?.getD default).fixOnly p.tags) :=
    fun _ => rfl
  have hself : p.retag (Span.fixOnly p.tags) = p :=
    Program.retag_eq_self fun _ => Span.fixOnly_eq_self_iff.2
  have hcompile := congrArg Traced.outcome (compile_retag hg lib w p)
  rw [hself, Traced.outcome_mapError, h, Outcome.mapError_error] at hcompile
  have hspans := congrArg CompileError.spans (Except.error.inj hcompile)
  rw [CompileError.spans_mapSpans] at hspans
  have hfix := List.map_inj_left.1 (hspans.symm.trans (List.map_id _).symm)
  intro span? hspan
  cases span? with
  | none => cases hfix _ hspan
  | some span => exact ⟨span, Span.fixOnly_eq_self_iff.1 (Option.some.inj (hfix _ hspan)), rfl⟩

end Spans

/-- Positions do not influence compilation. If they are replaced by others, then the events and the
result are the same, and an error is the same but for its positions, which are replaced likewise; if
they are taken away, then the error has none. An error that is not a fault has positions in all its
places for them, and they are positions of the program. -/
theorem compile_ignores_positions (lib : Library) (w : Target.Width) (p : Program Span) :
    (∀ f : Span → Span, compile lib w (p.retag f) =
        (compile lib w p).mapError (CompileError.mapSpans (Option.map f))) ∧
      compile lib w p.untagged = (compile lib w p).mapError (CompileError.mapSpans fun _ => none) ∧
      ∀ e, (compile lib w p).outcome = .error e → e.isFault = false →
        e.spans ≠ [] ∧ ∀ span? ∈ e.spans, ∃ span ∈ p.tags, span? = some span := by
  refine ⟨?_, ?_, ?_⟩
  · intro f
    have hmoves : Relocates f (Option.map f) := fun _ => rfl
    exact compile_retag hmoves lib w p
  · have hremoves : Relocates (fun _ : Span => ()) fun _ => none := fun _ => rfl
    exact compile_retag hremoves lib w p
  · intro e he hfault
    exact ⟨CompileError.spans_ne_nil hfault, mem_tags_of_compile he⟩

/-- A program that declares a name twice. -/
def redeclaring : Program Span :=
  ⟨.single "m",
    [.type ⟨0, 9⟩ ⟨"T", false⟩, .function ⟨10, 30⟩ ⟨"T", true, ⟨[], none⟩, []⟩]⟩

theorem compile_ignores_positions_redeclaring :
    (compile Library.empty .w64 redeclaring).outcome =
        .error (.scope (.duplicate "T" (some ⟨10, 30⟩) (some ⟨0, 9⟩))) ∧
      (compile Library.empty .w64
          (redeclaring.retag fun s => (⟨s.start + 5, s.stop + 5⟩ : Span))).outcome =
        .error (.scope (.duplicate "T" (some ⟨15, 35⟩) (some ⟨5, 14⟩))) ∧
      (compile Library.empty .w64 redeclaring.untagged).outcome =
        .error (.scope (.duplicate "T" none none)) ∧
      ∀ span? ∈ [some (⟨10, 30⟩ : Span), some ⟨0, 9⟩],
        ∃ span ∈ redeclaring.tags, span? = some span := by
  have he : (compile Library.empty .w64 redeclaring).outcome =
      .error (.scope (.duplicate "T" (some ⟨10, 30⟩) (some ⟨0, 9⟩))) := rfl
  obtain ⟨hmoved, huntagged, hspans⟩ := compile_ignores_positions Library.empty .w64 redeclaring
  refine ⟨he, ?_, ?_, (hspans _ he rfl).2⟩
  · rw [hmoved, Traced.outcome_mapError, he]
    rfl
  · rw [huntagged, Traced.outcome_mapError, he]
    rfl

end BlockCompiler
