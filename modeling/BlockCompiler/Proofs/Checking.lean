import BlockCompiler.Proofs.Agreement
import BlockCompiler.Proofs.Qualified

/-!
# Checked programs

Checking decides the typing rules: it accepts a program just when no function takes a parameter of
type `Void` and every body is well typed. There is no rule for bare calls, so none is left in a
program that is accepted.
-/

namespace BlockCompiler

variable {τ : Type} {s : Scope} {sig : Signature}

/-- A name has the type of its last parameter. -/
private theorem Signature.typeOf?_eq_some_iff {name : String} {ty : Ty} :
    sig.typeOf? name = some ty ↔ ∃ before after, sig.params = before ++ ⟨ty, name⟩ :: after ∧
      ∀ param ∈ after, param.name ≠ name := by
  simp only [typeOf?, Option.map_eq_some_iff, List.find?_eq_some_iff_append, decide_eq_true_eq,
    List.reverse_eq_iff]
  constructor
  · rintro ⟨⟨ty, name⟩, ⟨rfl, after, before, hparams, hafter⟩, rfl⟩
    refine ⟨before.reverse, after.reverse, by simpa using hparams, ?_⟩
    intro param hparam
    simpa using hafter param (List.mem_reverse.1 hparam)
  · rintro ⟨before, after, hparams, hafter⟩
    refine ⟨⟨ty, name⟩, ⟨rfl, after.reverse, before.reverse, by simpa using hparams, ?_⟩, rfl⟩
    intro param hparam
    simpa using hafter param (List.mem_reverse.1 hparam)

theorem Expr.hasType_var_iff {tag : τ} {name : String} {ty : Ty} :
    (var tag name).HasType s sig ty ↔ ∃ before after, sig.params = before ++ ⟨ty, name⟩ :: after ∧
      ∀ param ∈ after, param.name ≠ name := by
  rw [← Signature.typeOf?_eq_some_iff]
  constructor
  · rintro ⟨⟩
    assumption
  · exact .var tag

/-- Resolution leaves a typed expression as it is, and what it gives has no bare calls. -/
private theorem Expr.HasType.isBareCall_eq {e : Expr τ} {ty : Ty} (h : e.HasType s sig ty) :
    ∀ node ∈ e.nodes, node.isBareCall = false := by
  rw [h.resolves.eq_qualify]
  exact isBareCall_qualify s.meaning e

private theorem Stmt.AllWellTyped.exists_hasType {sts : List (Stmt τ)} (h : AllWellTyped s sig sts)
    {e : Expr τ} (he : e ∈ exprsAll sts) : ∃ ty, e.HasType s sig ty := by
  obtain ⟨sts', hrel⟩ := h.exists_relAll (R := fun e _ => ∃ ty, e.HasType s sig ty)
    fun e ty ht => ⟨e, ty, ht⟩
  obtain ⟨_, _, ht⟩ := exists_right_of_forall₂ hrel.exprsAll he
  exact ht

theorem Func.WellTyped.isBareCall_eq {f : Func τ} (h : f.WellTyped s) :
    ∀ node ∈ f.nodes, node.isBareCall = false := by
  intro node hnode
  obtain ⟨e, he, hnode⟩ := List.mem_flatMap.1 hnode
  obtain ⟨ty, ht⟩ := h.body.exists_hasType he
  exact ht.isBareCall_eq node hnode

/-- Checking accepts just the programs whose functions take no `Void` and are well typed in the
scope. The type it finds for an expression is the one that the rules give, and they give at most one;
for a variable it is the type of the last parameter of that name. -/
theorem Program.check_exact [Located τ] (s : Scope) (p : Program τ) :
    ((p.check s).outcome = .ok () ↔ ∀ f ∈ p.functions,
      (∀ param ∈ f.signature.params, param.ty ≠ .void) ∧
        Stmt.AllWellTyped s f.signature f.body) ∧
    (∀ (sig : Signature) (e : Expr τ) (ty : Ty), e.infer s sig = .ok ty ↔ e.HasType s sig ty) ∧
    (∀ (sig : Signature) (e : Expr τ) (ty ty' : Ty), e.HasType s sig ty → e.HasType s sig ty' →
      ty = ty') ∧
    (∀ (sig : Signature) (tag : τ) (name : String) (ty : Ty),
      (Expr.var tag name).HasType s sig ty ↔ ∃ before after,
        sig.params = before ++ ⟨ty, name⟩ :: after ∧ ∀ param ∈ after, param.name ≠ name) ∧
    ((p.check s).outcome = .ok () → ∀ f ∈ p.functions, ∀ tag name args,
      .bareCall tag name args ∉ f.nodes) := by
  refine ⟨?_, fun _ => Expr.infer_eq_ok_iff, fun _ _ _ _ h h' => h.unique h',
    fun _ _ _ _ => Expr.hasType_var_iff, ?_⟩
  · rw [check_eq_ok_iff]
    refine forall₂_congr fun f _ => ⟨fun h => ⟨h.params, h.body⟩, fun h => ⟨h.1, h.2⟩⟩
  · intro h f hf tag name args hnode
    cases (check_eq_ok_iff.1 h f hf).isBareCall_eq _ hnode

end BlockCompiler
