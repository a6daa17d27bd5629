import BlockCompiler.Proofs.Agreement
import BlockCompiler.Proofs.Naming

/-!
# Compiling what was compiled

The program in which names are resolved and types are added can be compiled again. Its scope is the
same, since a scope does not look into bodies. Nothing is left to resolve, and no types are left to
add, so that the same code is emitted.
-/

namespace BlockCompiler

open Target

variable {τ : Type} [Located τ] {lib : Library} {w : Width} {s : Scope}

section Scope

variable {R : Signature → List (Stmt τ) → List (Stmt τ) → Prop}

private theorem Scope.addAll_passes {decls decls' : List (Decl τ)}
    (h : List.Forall₂ (Decl.Passes R) decls decls') (s : Scope) (seen : List (String × Option Span)) :
    addAll lib s seen decls' = addAll lib s seen decls := by
  induction h generalizing s seen with
  | nil => rfl
  | cons hd _ ih =>
    cases hd with
    | function tag hf =>
      obtain ⟨body, _, rfl⟩ := hf
      simp only [addAll, ih]
      rfl
    | type | imports => simp only [addAll, ih]

/-- A scope does not depend on bodies. -/
private theorem Program.Passes.ofProgram_eq {p p' : Program τ} (h : p.Passes R p') :
    Scope.ofProgram lib p' = Scope.ofProgram lib p := by
  rw [Scope.ofProgram, Scope.ofProgram, h.module_eq, Scope.addAll_passes h.decls]

end Scope

/-- An expression that has been completed resolves to itself. -/
private theorem Expr.Completed.resolve_eq {sig : Signature} {e e' : Expr τ}
    (h : Completed s sig e e') :
    (e'.resolve s sig.params).outcome = .ok e' := by
  obtain ⟨ty, ht⟩ := h.wellTyped
  exact Expr.resolve_eq_ok_iff.2 (h.ascribed.hasType ht).resolves

namespace Accepted

variable {p resolved typed : Program τ}

theorem completed (h : Accepted lib p s resolved) (ht : resolved.addTypes s = .ok typed) :
    resolved.Passes (fun sig => Stmt.RelAll (Expr.Completed s sig)) typed := by
  obtain ⟨typed', hp⟩ := Program.exists_passes h.check fun sig e ty ht => ht.exists_completed
  rw [hp.addTypes_of_completed] at ht
  cases ht
  exact hp

end Accepted

namespace Compiles

variable {p resolved typed : Program τ} {m : Module}

/-- Each stage gives back the program in which types were added. -/
theorem again (h : Compiles lib w p s resolved typed m) : Compiles lib w typed s typed typed m where
  scope := by
    rw [h.passes_addTypes.ofProgram_eq, h.passes_resolve.ofProgram_eq]
    exact h.scope
  resolve := by
    refine Program.resolve_eq_ok_iff.2 ⟨?_, ?_⟩
    · rw [h.passes_addTypes.imports_eq, h.passes_resolve.imports_eq]
      exact (Program.resolve_eq_ok_iff.1 h.resolve).1
    · refine (h.completed h.addTypes).again fun sig body body' hbody => ?_
      exact (hbody.again fun e e' he => he.resolve_eq).resolveAll_eq
  check := by
    rw [Program.check_eq_ok_iff]
    intro f' hf'
    obtain ⟨f, _, body, rfl, hwell, _, ht, _⟩ :=
      exists_left_of_forall₂ (h.functions_typed h.addTypes) hf'
    exact ⟨hwell.params, ht⟩
  addTypes := (h.completed h.addTypes).completed_again.addTypes_of_completed
  emit := h.emit

end Compiles

/-- The program that a compilation makes on its way, with names resolved and types added, is compiled
to the same scope and the same module, and resolution and the addition of types leave it as it is. -/
theorem compile_typed {p : Program τ} {r : Compilation} (h : (compile lib w p).outcome = .ok r) :
    ∃ resolved typed, (p.resolve r.scope).outcome = .ok resolved ∧
      resolved.addTypes r.scope = .ok typed ∧ (compile lib w typed).outcome = .ok r ∧
      (typed.resolve r.scope).outcome = .ok typed ∧ typed.addTypes r.scope = .ok typed := by
  obtain ⟨resolved, typed, h⟩ := compile_eq_ok_iff.1 h
  have hagain := h.again
  exact ⟨resolved, typed, h.resolve, h.addTypes, compile_eq_ok_iff.2 ⟨typed, typed, hagain⟩,
    hagain.resolve, hagain.addTypes⟩

/-- A program that calls by bare names and by paths, with an ascription on some of its expressions. -/
def partlyAscribed : Program Unit :=
  ⟨.single "m",
    [.function () ⟨"print", true, ⟨[⟨.any, "x"⟩], none⟩, []⟩,
     .function () ⟨"f", false, ⟨[⟨.int, "n"⟩, ⟨.any, "x"⟩], some .any⟩,
      [.loop () (.binary () (.compare .eq) (.ascribed () .int (.neg () (.var () "n"))) (.var () "x"))
        [.effect () (.bareCall () "print" [.ascribed () .int (.ascribed () .int (.var () "n"))])],
       .ret () (some (.call () ((Path.single "m").child "f")
        [.ascribed () .int (.lit () (.int 2)), .bareCall () "f" [.var () "n", .lit () (.str "s")]]))]⟩]⟩

theorem compile_typed_partlyAscribed :
    ∃ r, (compile Library.empty .w64 partlyAscribed).outcome = .ok r ∧
      ∃ resolved typed, (partlyAscribed.resolve r.scope).outcome = .ok resolved ∧
        resolved.addTypes r.scope = .ok typed ∧
        (compile Library.empty .w64 typed).outcome = .ok r ∧
        (typed.resolve r.scope).outcome = .ok typed ∧ typed.addTypes r.scope = .ok typed := by
  obtain ⟨r, hr⟩ := Outcome.exists_eq_ok
    (x := (compile Library.empty .w64 partlyAscribed).outcome) (by decide +kernel)
  exact ⟨r, hr, compile_typed hr⟩

end BlockCompiler
