import BlockCompiler.Proofs.Skeleton

/-!
# Passes over bodies

Resolution and the addition of types rewrite the bodies of a program's functions, one by one and
statement by statement. Everything else of the program stays as it was.
-/

namespace BlockCompiler

variable {τ : Type} {R R' : Signature → List (Stmt τ) → List (Stmt τ) → Prop}

namespace Func

/-- `f'` is `f` after a pass that rewrites its body as `R` tells. -/
def Passes (R : Signature → List (Stmt τ) → List (Stmt τ) → Prop) (f f' : Func τ) : Prop :=
  ∃ body, R f.signature f.body body ∧ f' = { f with body := body }

/-- The function without its body. -/
def head (f : Func τ) : Func τ :=
  { f with body := [] }

theorem head_eq_iff {f f' : Func τ} :
    f'.head = f.head ↔
      f'.name = f.name ∧ f'.isExternal = f.isExternal ∧ f'.signature = f.signature := by
  simp [head]

/-- A pass over bodies changes nothing else of the functions. -/
theorem heads_of_passes {fs fs' : List (Func τ)} (h : List.Forall₂ (Passes R) fs fs') :
    fs'.map head = fs.map head := by
  induction h with
  | nil => rfl
  | cons hf _ ih =>
    obtain ⟨body, _, rfl⟩ := hf
    rw [List.map_cons, List.map_cons, ih]
    rfl

end Func

/-- Two declarations that differ only in the body of a function, where `R` relates the bodies. -/
inductive Decl.Passes (R : Signature → List (Stmt τ) → List (Stmt τ) → Prop) :
    Decl τ → Decl τ → Prop where
  | function (tag : τ) {f f' : Func τ} (h : f.Passes R f') :
      Passes R (.function tag f) (.function tag f')
  | type (tag : τ) (decl : TypeDecl) : Passes R (.type tag decl) (.type tag decl)
  | imports (tag : τ) (module : Path) : Passes R (.imports tag module) (.imports tag module)

/-- Two programs that differ only in the bodies of functions, which `R` relates. -/
structure Program.Passes (R : Signature → List (Stmt τ) → List (Stmt τ) → Prop)
    (p p' : Program τ) : Prop where
  module_eq : p'.module = p.module
  decls : List.Forall₂ (Decl.Passes R) p.decls p'.decls

private theorem Decl.Passes.imp (hR : ∀ sig body body', R sig body body' → R' sig body body')
    {d d' : Decl τ} (h : d.Passes R d') : d.Passes R' d' := by
  cases h with
  | function tag h =>
    obtain ⟨body, h, rfl⟩ := h
    exact .function tag ⟨body, hR _ _ _ h, rfl⟩
  | type tag decl => exact .type tag decl
  | imports tag module => exact .imports tag module

private theorem Decl.Passes.again (hR : ∀ sig body body', R sig body body' → R' sig body' body')
    {d d' : Decl τ} (h : d.Passes R d') : d'.Passes R' d' := by
  cases h with
  | function tag h =>
    obtain ⟨body, h, rfl⟩ := h
    exact .function tag ⟨body, hR _ _ _ h, rfl⟩
  | type tag decl => exact .type tag decl
  | imports tag module => exact .imports tag module

namespace Program.Passes

variable {p p' : Program τ}

theorem imp (hR : ∀ sig body body', R sig body body' → R' sig body body') (h : p.Passes R p') :
    p.Passes R' p' :=
  ⟨h.module_eq, h.decls.imp fun _ _ hd => hd.imp hR⟩

theorem again (hR : ∀ sig body body', R sig body body' → R' sig body' body') (h : p.Passes R p') :
    p'.Passes R' p' := by
  refine ⟨rfl, List.forall₂_same.2 fun d' hd' => ?_⟩
  obtain ⟨d, _, hd⟩ := exists_left_of_forall₂ h.decls hd'
  exact hd.again hR

theorem functions (h : p.Passes R p') :
    List.Forall₂ (Func.Passes R) p.functions p'.functions := by
  refine List.rel_filterMap ?_ h.decls
  intro d d' hd
  cases hd with
  | function _ hf => exact .some hf
  | type | imports => exact .none

theorem imports_eq (h : p.Passes R p') : p'.imports = p.imports := by
  rw [← List.forall₂_eq_eq_eq]
  refine List.rel_filterMap ?_ h.decls.flip
  intro d' d hd
  cases hd with
  | function | type => exact .none
  | imports => exact .some rfl

end Program.Passes

variable {s : Scope}

private theorem Decl.addTypes_eq_ok_iff {d d' : Decl τ} :
    d.addTypes s = .ok d' ↔
      d.Passes (fun sig body body' => Stmt.addTypesAll s sig body = .ok body') d' := by
  constructor
  · intro h
    cases d with
    | function tag f =>
      simp only [addTypes, Outcome.bind_eq_ok] at h
      obtain ⟨body, hbody, h⟩ := h
      cases h
      exact .function tag ⟨body, hbody, rfl⟩
    | type tag decl =>
      cases h
      exact .type tag decl
    | imports tag module =>
      cases h
      exact .imports tag module
  · intro h
    cases h with
    | function tag h =>
      obtain ⟨body, hbody, rfl⟩ := h
      rw [addTypes, Outcome.ok_bind _ hbody]
      rfl
    | type | imports => rfl

theorem Program.addTypes_eq_ok_iff {p p' : Program τ} :
    p.addTypes s = .ok p' ↔
      p.Passes (fun sig body body' => Stmt.addTypesAll s sig body = .ok body') p' := by
  simp only [addTypes, Outcome.bind_eq_ok, Outcome.mapM_eq_ok, Decl.addTypes_eq_ok_iff]
  constructor
  · intro h
    obtain ⟨decls, hdecls, hp⟩ := h
    cases hp
    exact ⟨rfl, hdecls⟩
  · intro h
    refine ⟨p'.decls, h.decls, ?_⟩
    rw [← h.module_eq]
    rfl

section Resolution

variable [Located τ]

private theorem Decl.resolve_eq_ok_iff {d d' : Decl τ} :
    (d.resolve s).outcome = .ok d' ↔ d.Passes (fun sig body body' =>
      (Stmt.resolveAll s sig.params body).outcome = .ok body') d' := by
  constructor
  · intro h
    cases d with
    | function tag f =>
      simp only [resolve, Traced.bind_eq_ok] at h
      obtain ⟨body, hbody, h⟩ := h
      cases h
      exact .function tag ⟨body, hbody, rfl⟩
    | type tag decl =>
      cases h
      exact .type tag decl
    | imports tag module =>
      cases h
      exact .imports tag module
  · intro h
    cases h with
    | function tag h =>
      obtain ⟨body, hbody, rfl⟩ := h
      rw [resolve, Traced.outcome_bind_of_ok _ hbody]
      rfl
    | type | imports => rfl

private theorem Scope.requireImports_eq_ok_iff {entries : List (Path × τ)} :
    s.requireImports entries = .ok () ↔ ∀ entry ∈ entries, s.isImported entry.1 := by
  induction entries with
  | nil => simp [requireImports]
  | cons entry entries ih =>
    rw [requireImports, List.forall_mem_cons, ← ih]
    by_cases himp : s.isImported entry.1 <;> simp [himp]

/-- A program is resolved when its imports are recorded and all its bodies are resolved. -/
theorem Program.resolve_eq_ok_iff {p p' : Program τ} :
    (p.resolve s).outcome = .ok p' ↔ (∀ entry ∈ p.imports, s.isImported entry.1) ∧
      p.Passes (fun sig body body' => (Stmt.resolveAll s sig.params body).outcome = .ok body') p' := by
  rw [← Scope.requireImports_eq_ok_iff]
  simp only [resolve, Traced.bind_eq_ok, Traced.mapM_eq_ok, Decl.resolve_eq_ok_iff]
  constructor
  · intro h
    obtain ⟨⟨⟩, himports, decls, hdecls, hp⟩ := h
    cases hp
    exact ⟨himports, rfl, hdecls⟩
  · intro h
    obtain ⟨himports, hp⟩ := h
    refine ⟨(), himports, p'.decls, hp.decls, ?_⟩
    rw [← hp.module_eq]
    rfl

end Resolution

end BlockCompiler
