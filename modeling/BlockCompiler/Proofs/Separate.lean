import BlockCompiler.Proofs.Fixpoint
import BlockCompiler.Proofs.Visible

/-!
# Functions are compiled apart

Once the scope of a program is known, its functions go through the stages one by one. What becomes of
a function is settled by the scope, its own text and the path of its module, and a program is compiled
just when its scope can be built and each of its functions can be compiled in that scope.
-/

namespace BlockCompiler

open Target

variable {τ : Type} {s : Scope} {w : Width}

namespace Func

/-- `f'` is `f` with its names resolved and then, as it is well typed, with its types added. -/
inductive Elaborates (s : Scope) (f : Func τ) : Func τ → Prop where
  | intro {resolved typed : List (Stmt τ)}
      (resolves : Stmt.RelAll (Expr.Resolves s f.signature.params) f.body resolved)
      (wellTyped : ({ f with body := resolved } : Func τ).WellTyped s)
      (completes : Stmt.RelAll (Expr.Completed s f.signature) resolved typed) :
      Elaborates s f { f with body := typed }

/-- `g` is the definition that is made of `f`, under the link name of `path`. -/
def Yields (s : Scope) (w : Width) (path : Path) (f : Func τ) (g : Function) : Prop :=
  ∃ f', f.Elaborates s f' ∧ (f'.emit s w path).outcome = .ok g

private theorem Elaborates.head_eq {f f' : Func τ} (h : f.Elaborates s f') : f'.head = f.head := by
  cases h
  rfl

/-- Elaboration changes nothing but the bodies of functions. -/
private theorem heads_of_elaborates {fs fs' : List (Func τ)}
    (h : List.Forall₂ (Elaborates s) fs fs') :
    fs'.map head = fs.map head := by
  induction h with
  | nil => rfl
  | cons hf _ ih => rw [List.map_cons, List.map_cons, ih, hf.head_eq]

/-- Of elaborated functions, those that are not external correspond as well. -/
private theorem forall₂_elaborates_defined {fs fs' : List (Func τ)}
    (h : List.Forall₂ (Elaborates s) fs fs') :
    List.Forall₂ (Elaborates s) (fs.filter (!·.isExternal)) (fs'.filter (!·.isExternal)) := by
  refine List.rel_filter ?_ h
  intro f f' hf
  have hext : f'.isExternal = f.isExternal := (head_eq_iff.1 hf.head_eq).2.1
  simp only [hext]

private theorem Elaborates.unique [Located τ] {f f₁ f₂ : Func τ} (h₁ : f.Elaborates s f₁)
    (h₂ : f.Elaborates s f₂) : f₁ = f₂ := by
  obtain ⟨hr₁, _, hc₁⟩ := h₁
  obtain ⟨hr₂, _, hc₂⟩ := h₂
  have hresolved := Stmt.resolveAll_eq_ok_iff.2 hr₁
  rw [Stmt.resolveAll_eq_ok_iff.2 hr₂] at hresolved
  cases hresolved
  have htyped := (hc₁.imp fun e e' he => he.addTypes_eq).addTypesAll_eq
  rw [(hc₂.imp fun e e' he => he.addTypes_eq).addTypesAll_eq] at htyped
  cases htyped
  rfl

/-- Whatever its body is, a definition is under the signature that the function declares. -/
theorem Yields.exists_definition {path : Path} {f : Func τ} {g : Function} (h : f.Yields s w path g) :
    ∃ blocks, g = f.definition w path blocks := by
  obtain ⟨f', hf, hg⟩ := h
  obtain ⟨b, blocks, _, _, rfl⟩ := emit_eq_ok_iff.1 hg
  cases hf
  exact ⟨blocks, rfl⟩

end Func

/-- The declarations of the imported functions, in path order. -/
def Scope.importedDeclarations (s : Scope) (w : Width) : List Function :=
  s.functions.imported.map fun entry => entry.2.decl.declaration w entry.1

/-- The declarations of the program's external functions, in its order. -/
def Program.externalDeclarations (p : Program τ) (w : Width) : List Function :=
  (p.functions.filter (·.isExternal)).map fun f => f.signature.declaration w (p.module.child f.name)

theorem Program.functions_target (p : Program τ) (defined : List Function) :
    (p.target s w defined).functions =
      s.importedDeclarations w ++ p.externalDeclarations w ++ defined := rfl

/-- What a module has for the functions of a program depends on their heads and on the definitions. -/
private theorem Program.target_eq_of_heads {p p' : Program τ} (hmodule : p'.module = p.module)
    (hheads : p'.functions.map Func.head = p.functions.map Func.head) (defined : List Function) :
    p'.target s w defined = p.target s w defined := by
  have hexternal : ∀ fs : List (Func τ),
      ((fs.filter (·.isExternal)).map fun f => f.signature.declaration w (p.module.child f.name)) =
        ((fs.map Func.head).filter (·.isExternal)).map fun f =>
          f.signature.declaration w (p.module.child f.name) := by
    intro fs
    rw [List.filter_map, List.map_map]
    rfl
  rw [target, target, hmodule, hexternal p'.functions, hexternal p.functions, hheads]

variable [Located τ] {lib : Library} {p : Program τ}

/-- On its way to emission, each function of an accepted program is elaborated. -/
private theorem Accepted.functions_elaborate {resolved typed : Program τ}
    (h : Accepted lib p s resolved) (ht : resolved.addTypes s = .ok typed) :
    List.Forall₂ (Func.Elaborates s) p.functions typed.functions := by
  have hcompleted := (h.completed ht).functions
  have hwell : ∀ f ∈ resolved.functions, f.WellTyped s := Program.check_eq_ok_iff.1 h.check
  have hlate := (List.forall₂_and_left _ _).2 ⟨hwell, hcompleted⟩
  refine (forall₂_comp h.passes_resolve.functions hlate).imp ?_
  rintro f _ ⟨_, ⟨body, hbody, rfl⟩, hwell, typed, htyped, rfl⟩
  exact .intro (Stmt.resolveAll_eq_ok_iff.1 hbody) hwell htyped

/-- A program is accepted if each of its functions can be elaborated in its scope. -/
private theorem exists_accepted (hs : Scope.ofProgram lib p = .ok s)
    (hf : ∀ f ∈ p.functions, ∃ f', f.Elaborates s f') : ∃ resolved, Accepted lib p s resolved := by
  have hdecl : ∀ d ∈ p.decls, ∃ d', d.Passes (fun sig body body' =>
      (Stmt.resolveAll s sig.params body).outcome = .ok body') d' := by
    intro d hd
    cases d with
    | function tag f =>
      obtain ⟨_, hresolves, _, _⟩ := hf f (List.mem_filterMap.2 ⟨_, hd, rfl⟩)
      exact ⟨_, .function tag ⟨_, Stmt.resolveAll_eq_ok_iff.2 hresolves, rfl⟩⟩
    | type tag decl => exact ⟨_, .type tag decl⟩
    | imports tag module => exact ⟨_, .imports tag module⟩
  obtain ⟨decls, hdecls⟩ := exists_forall₂.2 hdecl
  have hpasses : p.Passes (fun sig body body' =>
      (Stmt.resolveAll s sig.params body).outcome = .ok body') ⟨p.module, decls⟩ := ⟨rfl, hdecls⟩
  have himports : ∀ entry ∈ p.imports, s.isImported entry.1 :=
    fun entry hentry => (Scope.isImported_iff hs).2 ⟨entry.2, hentry⟩
  refine ⟨⟨p.module, decls⟩, hs, Program.resolve_eq_ok_iff.2 ⟨himports, hpasses⟩, ?_⟩
  rw [Program.check_eq_ok_iff]
  intro f' hf'
  obtain ⟨f, hmem, body, hbody, rfl⟩ := exists_left_of_forall₂ hpasses.functions hf'
  obtain ⟨_, hresolves, hwell, _⟩ := hf f hmem
  rw [Stmt.resolveAll_eq_ok_iff.2 hresolves] at hbody
  cases hbody
  exact hwell

/-- A program is compiled just when its scope is built, all its functions can be elaborated in that
scope, and those that are not external yield the definitions of the module. -/
theorem compile_eq_ok_iff_yields {r : Compilation} :
    (compile lib w p).outcome = .ok r ↔
      Scope.ofProgram lib p = .ok r.scope ∧ (∀ f ∈ p.functions, ∃ f', f.Elaborates r.scope f') ∧
        ∃ defined, List.Forall₂ (fun f g => f.Yields r.scope w (p.module.child f.name) g)
            (p.functions.filter (!·.isExternal)) defined ∧
          r.module = p.target r.scope w defined := by
  constructor
  · intro h
    obtain ⟨resolved, typed, h⟩ := compile_eq_ok_iff.1 h
    have helab := h.functions_elaborate h.addTypes
    obtain ⟨defined, hemit, hm⟩ := Program.emit_eq_ok_iff.1 h.emit
    rw [h.typed_module] at hemit
    refine ⟨h.scope, exists_forall₂.1 ⟨_, helab⟩, defined, ?_, ?_⟩
    · refine (forall₂_comp (Func.forall₂_elaborates_defined helab) hemit).imp ?_
      rintro f g ⟨f', hf, hg⟩
      have hname : f'.name = f.name := (Func.head_eq_iff.1 hf.head_eq).1
      exact ⟨f', hf, hname ▸ hg⟩
    · rw [hm, Program.target_eq_of_heads h.typed_module (Func.heads_of_elaborates helab)]
  · intro h
    obtain ⟨hs, hf, defined, hyields, hm⟩ := h
    obtain ⟨resolved, hacc⟩ := exists_accepted hs hf
    obtain ⟨typed, ht⟩ := hacc.exists_addTypes
    have helab := hacc.functions_elaborate ht
    have hmodule : typed.module = p.module :=
      (Program.addTypes_eq_ok_iff.1 ht).module_eq.trans hacc.passes_resolve.module_eq
    refine compile_eq_ok_iff.2 ⟨resolved, typed, hacc, ht, Program.emit_eq_ok_iff.2 ⟨defined, ?_, ?_⟩⟩
    · -- Both lists are paired with the functions of the program, and elaboration has one result.
      refine (forall₂_comp (Func.forall₂_elaborates_defined helab).flip hyields).imp ?_
      rintro f' g ⟨f, hf, f'', hf'', hg⟩
      cases hf''.unique hf
      have hname : f'.name = f.name := (Func.head_eq_iff.1 hf.head_eq).1
      rwa [hmodule, hname]
    · rw [hm, Program.target_eq_of_heads hmodule (Func.heads_of_elaborates helab)]

end BlockCompiler
