import BlockCompiler.Emission.Module
import BlockCompiler.Typing.Ascription

/-!
# Other tags

Replacing the tags of a tree twice is replacing them once, and a replacement that leaves every tag as it
is leaves the tree as it is. The addition of types keeps tags at their places, and emission does not
look at them.
-/

namespace BlockCompiler

variable {σ τ υ : Type}

namespace Expr

section

variable (f : σ → τ) (g : τ → υ)

mutual

private theorem retag_retag : ∀ e : Expr σ, (e.retag f).retag g = e.retag (g ∘ f)
  | bareCall _ _ args => by
    simp only [retag_bareCall, map_retag_retag args, Function.comp_apply]
  | call _ _ args => by
    simp only [retag_call, map_retag_retag args, Function.comp_apply]
  | binary _ _ lhs rhs => by
    simp only [retag_binary, retag_retag lhs, retag_retag rhs, Function.comp_apply]
  | neg _ operand => by
    simp only [retag_neg, retag_retag operand, Function.comp_apply]
  | ascribed _ _ inner => by
    simp only [retag_ascribed, retag_retag inner, Function.comp_apply]
  | lit .. | var .. => rfl

private theorem map_retag_retag : ∀ es : List (Expr σ),
    (es.map (retag f)).map (retag g) = es.map (retag (g ∘ f))
  | [] => rfl
  | e :: es => by
    simp only [List.map_cons, retag_retag e, map_retag_retag es]

end

theorem untagged_retag (e : Expr σ) : (e.retag f).untagged = e.untagged :=
  retag_retag f (fun _ => ()) e

theorem tag_retag (e : Expr σ) : (e.retag f).tag = f e.tag := by
  cases e <;> simp [tag]

private theorem ascribedType?_retag (e : Expr σ) : (e.retag f).ascribedType? = e.ascribedType? := by
  cases e <;> simp [ascribedType?]

private theorem retag_ascribe (ty : Ty) (e : Expr σ) :
    (e.ascribe ty).retag f = (e.retag f).ascribe ty := by
  rw [ascribe, ascribe, retag_ascribed, tag_retag]

end

mutual

private theorem retag_eq_self {f : τ → τ} : ∀ e : Expr τ, (∀ t ∈ e.tags, f t = t) → e.retag f = e
  | bareCall t _ args, h => by
    simp only [tags, List.forall_mem_append, List.forall_mem_singleton] at h
    rw [retag_bareCall, map_retag_eq_self args h.1, h.2]
  | call t _ args, h => by
    simp only [tags, List.forall_mem_append, List.forall_mem_singleton] at h
    rw [retag_call, map_retag_eq_self args h.1, h.2]
  | binary t _ lhs rhs, h => by
    simp only [tags, List.forall_mem_append, List.forall_mem_singleton] at h
    rw [retag_binary, retag_eq_self lhs h.1.1, retag_eq_self rhs h.1.2, h.2]
  | neg t operand, h => by
    simp only [tags, List.forall_mem_append, List.forall_mem_singleton] at h
    rw [retag_neg, retag_eq_self operand h.1, h.2]
  | ascribed t _ inner, h => by
    simp only [tags, List.forall_mem_append, List.forall_mem_singleton] at h
    rw [retag_ascribed, retag_eq_self inner h.1, h.2]
  | lit t _, h => by
    rw [retag_lit, h t (List.mem_singleton.2 rfl)]
  | var t _, h => by
    rw [retag_var, h t (List.mem_singleton.2 rfl)]

private theorem map_retag_eq_self {f : τ → τ} : ∀ es : List (Expr τ),
    (∀ t ∈ tagsAll es, f t = t) → es.map (retag f) = es
  | [], _ => rfl
  | e :: es, h => by
    simp only [tagsAll, List.forall_mem_append] at h
    rw [List.map_cons, retag_eq_self e h.1, map_retag_eq_self es h.2]

end

end Expr

namespace Stmt

mutual

private theorem retag_eq_self {f : τ → τ} :
    ∀ st : Stmt τ, (∀ t ∈ st.tags, f t = t) → st.retag f = st
  | branch t test thn els, h => by
    simp only [tags, List.forall_mem_append, List.forall_mem_singleton] at h
    obtain ⟨⟨⟨htest, hthn⟩, hels⟩, ht⟩ := h
    rw [retag_branch, test.retag_eq_self htest, map_retag_eq_self thn hthn,
      map_retag_eq_self els hels, ht]
  | loop t test body, h => by
    simp only [tags, List.forall_mem_append, List.forall_mem_singleton] at h
    rw [retag_loop, test.retag_eq_self h.1.1, map_retag_eq_self body h.1.2, h.2]
  | effect t value, h => by
    simp only [tags, List.forall_mem_append, List.forall_mem_singleton] at h
    rw [retag_effect, value.retag_eq_self h.1, h.2]
  | ret t none, h => by
    rw [retag_ret, h t (List.mem_singleton.2 rfl)]
    rfl
  | ret t (some value), h => by
    simp only [tags, Option.map_some, Option.getD_some, List.forall_mem_append,
      List.forall_mem_singleton] at h
    rw [retag_ret, Option.map_some, value.retag_eq_self h.1, h.2]

private theorem map_retag_eq_self {f : τ → τ} : ∀ sts : List (Stmt τ),
    (∀ t ∈ tagsAll sts, f t = t) → sts.map (retag f) = sts
  | [], _ => rfl
  | st :: sts, h => by
    simp only [tagsAll, List.forall_mem_append] at h
    rw [List.map_cons, retag_eq_self st h.1, map_retag_eq_self sts h.2]

end

end Stmt

/-- Replaces the tags in the body of a function. -/
def Func.retag (f : σ → τ) (decl : Func σ) : Func τ :=
  ⟨decl.name, decl.isExternal, decl.signature, decl.body.map (Stmt.retag f)⟩

/-- Replaces the tags of a declaration. -/
def Decl.retag (f : σ → τ) : Decl σ → Decl τ
  | function t decl => function (f t) (decl.retag f)
  | type t decl => type (f t) decl
  | imports t module => imports (f t) module

private theorem Decl.retagM_pure (f : σ → τ) (d : Decl σ) :
    Id.run (d.retagM fun t => pure (f t)) = d.retag f := by
  cases d with
  | function t decl =>
    rw [retag, Func.retag, ← Stmt.retagAllM_pure]
    rfl
  | type | imports => rfl

namespace Program

variable (f : σ → τ) (p : Program σ)

/-- The tags of a program are replaced in one declaration after the other. -/
theorem retag_eq : p.retag f = ⟨p.module, p.decls.map (Decl.retag f)⟩ := by
  have hdecls : Id.run (p.decls.mapM (Decl.retagM fun t => pure (f t))) =
      p.decls.map (Decl.retag f) := by
    induction p.decls with
    | nil => rfl
    | cons d decls ih =>
      rw [List.mapM_cons, List.map_cons, ← ih, ← Decl.retagM_pure]
      rfl
  rw [← hdecls]
  rfl

private theorem functions_retag : (p.retag f).functions = p.functions.map (Func.retag f) := by
  rw [retag_eq, functions, functions, List.filterMap_map, List.map_filterMap]
  congr 1
  funext d
  cases d <;> rfl

theorem imports_retag : (p.retag f).imports = p.imports.map (Prod.map id f) := by
  rw [retag_eq, imports, imports, List.filterMap_map, List.map_filterMap]
  congr 1
  funext d
  cases d <;> rfl

/-- A replacement that leaves the tags of a program as they are leaves the program as it is. -/
theorem retag_eq_self {f : τ → τ} {p : Program τ} (h : ∀ t ∈ p.tags, f t = t) : p.retag f = p := by
  have hdecl : ∀ d ∈ p.decls, d.retag f = d := by
    intro d hd
    have hd : ∀ t ∈ d.tags, f t = t := fun t ht => h t (List.mem_flatMap.2 ⟨d, hd, ht⟩)
    cases d with
    | function t decl =>
      simp only [Decl.tags, List.forall_mem_append, List.forall_mem_singleton] at hd
      rw [Decl.retag, Func.retag, Stmt.map_retag_eq_self _ hd.1, hd.2]
    | type t | imports t => rw [Decl.retag, hd t (List.mem_singleton.2 rfl)]
  rw [retag_eq, List.map_congr_left hdecl, List.map_id']

end Program

/-- Steps that agree on corresponding elements agree over lists. -/
theorem mapM_map_of_comm {m : Type → Type} [Monad m] [LawfulMonad m] {α β γ δ : Type} {step : α → m β}
    {step' : γ → m δ} {k : α → γ} {k' : β → δ} (h : ∀ a, step' (k a) = k' <$> step a) (l : List α) :
    (l.map k).mapM step' = List.map k' <$> l.mapM step := by
  induction l with
  | nil => simp
  | cons a l ih => simp [h, ih]

section Ascription

variable (f : σ → τ) (s : Scope) (sig : Signature)

mutual

/-- Types are added at the same places. -/
private theorem Expr.addTypes_retag : ∀ e : Expr σ,
    (e.retag f).addTypes s sig = Prod.map (retag f) id <$> e.addTypes s sig
  | bareCall .. => by
    simp only [retag_bareCall, addTypes]
    rfl
  | call t path args => by
    simp only [retag_call, addTypes, List.length_map]
    cases s.function? path with
    | none => rfl
    | some symbol =>
      by_cases hl : args.length = symbol.decl.params.length
      · simp only [hl, if_true, addTypesArgs_retag path args, bind_map_left, map_bind, map_pure,
          Prod.map_apply, id, retag_ascribe, retag_call]
      · simp only [hl, if_false]
        rfl
  | binary t op lhs rhs => by
    simp [addTypes, addTypes_retag lhs, addTypes_retag rhs, retag_ascribe]
  | neg t operand => by
    simp only [retag_neg, addTypes, addTypes_retag operand, bind_map_left, map_bind, Prod.map_fst,
      Prod.map_snd, id]
    refine bind_congr fun a => ?_
    split
    · simp only [map_pure, Prod.map_apply, id, retag_ascribe, retag_neg]
    · rfl
  | ascribed _ _ inner => by
    simp only [retag_ascribed, addTypes, addTypes_retag inner]
  | lit .. => by
    simp only [retag_lit, addTypes]
    rfl
  | var t name => by
    simp only [retag_var, addTypes]
    cases sig.typeOf? name <;> rfl

private theorem Expr.addTypesArgs_retag (callee : Path) :
    ∀ (args : List (Expr σ)) (params : List Param),
    addTypesArgs s sig callee (args.map (retag f)) params =
      List.map (retag f) <$> addTypesArgs s sig callee args params
  | [], _ => by
    simp only [List.map_nil, addTypesArgs]
    rfl
  | _ :: _, [] => by
    simp only [List.map_cons, addTypesArgs]
    rfl
  | arg :: args, param :: params => by
    simp only [List.map_cons, addTypesArgs, addTypes_retag arg, addTypesArgs_retag callee args params,
      bind_map_left, map_bind, Prod.map_fst, Prod.map_snd, id]
    refine bind_congr fun a => ?_
    split
    · simp only [map_bind, map_pure, List.map_cons]
    · rfl

end

mutual

private theorem Stmt.addTypes_retag : ∀ st : Stmt σ,
    (st.retag f).addTypes s sig = retag f <$> st.addTypes s sig
  | branch _ test thn els => by
    simp [addTypes, test.addTypes_retag, addTypesAll_retag thn, addTypesAll_retag els]
  | loop _ test body => by
    simp [addTypes, test.addTypes_retag, addTypesAll_retag body]
  | effect _ value => by
    simp [addTypes, value.addTypes_retag]
  | ret _ none => by
    simp [addTypes]
  | ret _ (some value) => by
    simp [addTypes, value.addTypes_retag]

private theorem Stmt.addTypesAll_retag : ∀ sts : List (Stmt σ),
    addTypesAll s sig (sts.map (retag f)) = List.map (retag f) <$> addTypesAll s sig sts
  | [] => rfl
  | st :: sts => by
    simp [addTypesAll, addTypes_retag st, addTypesAll_retag sts]

end

private theorem Decl.addTypes_retag (d : Decl σ) :
    (d.retag f).addTypes s = retag f <$> d.addTypes s := by
  cases d with
  | function t decl => simp [retag, Func.retag, addTypes, Stmt.addTypesAll_retag]
  | type | imports => rfl

theorem Program.addTypes_retag (p : Program σ) :
    (p.retag f).addTypes s = retag f <$> p.addTypes s := by
  simp [addTypes, retag_eq, mapM_map_of_comm (Decl.addTypes_retag f s)]

end Ascription

section Emission

variable (f : σ → τ) (frame : Frame)

private theorem Expr.carriedType_retag (e : Expr σ) : (e.retag f).carriedType = e.carriedType := by
  rw [carriedType, carriedType, ascribedType?_retag, untagged_retag]

/-- There is no code for an expression that carries no type. -/
private theorem Expr.emit_of_unascribed {e : Expr τ} (h : e.ascribedType? = none) :
    e.emit frame = Emit.fail (.untyped e.untagged) := by
  cases e with
  | ascribed => cases h
  | _ => rfl

mutual

/-- The code of an expression does not depend on tags. -/
private theorem Expr.emit_retag : ∀ e : Expr σ, (e.retag f).emit frame = e.emit frame
  | ascribed _ _ (lit _ (.bool _)) | ascribed _ _ (lit _ (.int _)) | ascribed _ _ (lit _ (.str _)) => by
    simp only [retag_ascribed, retag_lit, emit]
  | ascribed _ _ (var _ _) => by
    simp only [retag_ascribed, retag_var, emit]
  | ascribed _ _ (binary _ _ lhs rhs) => by
    simp only [retag_ascribed, retag_binary, emit, carriedType_retag, emit_retag lhs, emit_retag rhs]
  | ascribed _ _ (neg _ operand) => by
    simp only [retag_ascribed, retag_neg, emit, ascribedType?_retag, emit_retag operand, untagged_retag]
  | ascribed _ _ (call _ _ args) => by
    simp only [retag_ascribed, retag_call, emit]
    have hargs : emitArgs frame (args.map (retag f)) = emitArgs frame args :=
      funext (emitArgs_retag args)
    rw [hargs]
  | ascribed _ _ (bareCall _ _ _) => by
    simp only [retag_ascribed, retag_bareCall, emit]
  | ascribed t ty (ascribed t' ty' inner) => by
    have hun := untagged_retag f (ascribed t ty (ascribed t' ty' inner))
    simp only [retag_ascribed] at hun
    simp only [retag_ascribed, emit, hun]
  | bareCall .. | call .. | binary .. | neg .. | lit .. | var .. => by
    rw [emit_of_unascribed, emit_of_unascribed, untagged_retag] <;> simp [ascribedType?]

private theorem Expr.emitArgs_retag : ∀ (args : List (Expr σ)) (params : List Param),
    emitArgs frame (args.map (retag f)) params = emitArgs frame args params
  | [], _ => by
    simp only [List.map_nil, emitArgs]
  | _ :: _, [] => by
    simp only [List.map_cons, emitArgs]
  | arg :: args, param :: params => by
    simp only [List.map_cons, emitArgs, carriedType_retag, emit_retag arg, emitArgs_retag args params]

end

private theorem Expr.emitEffect_retag (e : Expr σ) :
    (e.retag f).emitEffect frame = e.emitEffect frame := by
  have hemit := emit_retag f frame e
  cases e with
  | ascribed t ty inner =>
    cases inner with
    | call t' path args =>
      simp only [retag_ascribed, retag_call, emitEffect, funext (emitArgs_retag f frame args)]
    | _ =>
      simp only [retag_ascribed, retag_bareCall, retag_binary, retag_neg, retag_lit,
        retag_var] at hemit ⊢
      simp only [emitEffect, hemit]
  | _ =>
    simp only [retag_bareCall, retag_call, retag_binary, retag_neg, retag_lit, retag_var] at hemit ⊢
    simp only [emitEffect, hemit]

mutual

private theorem Stmt.emit_retag : ∀ st : Stmt σ, (st.retag f).emit frame = st.emit frame
  | branch _ test thn els => by
    simp only [retag_branch, emit, test.emit_retag, emitAll_retag thn, emitAll_retag els]
  | loop _ test body => by
    simp only [retag_loop, emit, test.emit_retag, emitAll_retag body]
  | effect _ value => by
    simp only [retag_effect, emit, value.emitEffect_retag]
  | ret _ none => by
    simp only [retag_ret, Option.map_none, emit]
  | ret _ (some value) => by
    simp only [retag_ret, Option.map_some, emit, value.carriedType_retag, value.emitEffect_retag,
      value.emit_retag]

private theorem Stmt.emitAll_retag : ∀ sts : List (Stmt σ),
    emitAll frame (sts.map (retag f)) = emitAll frame sts
  | [] => rfl
  | st :: sts => by
    simp only [List.map_cons, emitAll, emit_retag st, emitAll_retag sts]

end

private theorem Func.emit_retag (s : Scope) (w : Target.Width) (path : Path) (decl : Func σ) :
    (decl.retag f).emit s w path = decl.emit s w path := by
  have hbody : ∀ frame, (decl.retag f).emitBody frame = decl.emitBody frame := by
    intro frame
    rw [emitBody, emitBody, retag, Stmt.emitAll_retag]
  rw [emit, emit, hbody]
  rfl

/-- The module of a program does not depend on tags. -/
theorem Program.emit_retag (s : Scope) (w : Target.Width) (p : Program σ) :
    (p.retag f).emit s w = p.emit s w := by
  have hmodule : (p.retag f).module = p.module := rfl
  simp only [emit, functions_retag, hmodule, List.filter_map, List.map_map, List.mapM_map,
    Function.comp_def, Func.emit_retag]
  rfl

end Emission

end BlockCompiler
