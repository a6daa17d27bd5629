import BlockCompiler.Proofs.Nodes
import BlockCompiler.Proofs.Positions

/-!
# What emission admits

Emission looks at every live expression, and there at every node but one kind: an argument for which
the callee has no parameter is passed over, whatever it is. All that it looks at is ascribed once and
calls visible functions. So a live expression is in order just if no call that is looked at has too
many or too few arguments.
-/

namespace BlockCompiler

open Target

variable {τ : Type} {s : Scope}

namespace Expr

/-- A call is of a visible function and has an argument for each of its parameters. -/
def Fits (s : Scope) : Expr τ → Prop
  | call _ path args =>
    ∃ symbol, s.function? path = some symbol ∧ args.length = symbol.decl.params.length
  | _ => True

/-- Every node is ascribed once, and every call fits its function. -/
structure Regular (s : Scope) (e : Expr τ) : Prop where
  wrapped : e.Wrapped
  fits : ∀ node ∈ e.nodes, node.Fits s

mutual

/-- Every node is ascribed once, and every call is of a visible function. Of its arguments, only those
that have a parameter count. -/
def InForm (s : Scope) : Expr τ → Prop
  | ascribed _ _ (lit ..) | ascribed _ _ (var ..) => True
  | ascribed _ _ (neg _ operand) => operand.InForm s
  | ascribed _ _ (binary _ _ lhs rhs) => lhs.InForm s ∧ rhs.InForm s
  | ascribed _ _ (call _ path args) =>
    ∃ symbol, s.function? path = some symbol ∧ ArgsInForm s args symbol.decl.params
  | _ => False

def ArgsInForm (s : Scope) : List (Expr τ) → List Param → Prop
  | arg :: args, _ :: params => arg.InForm s ∧ ArgsInForm s args params
  | _, _ => True

end

mutual

/-- The nodes of an expression without those of arguments that have no parameter. -/
def reached (s : Scope) : Expr τ → List (Expr τ)
  | bareCall tag name args => [bareCall tag name args]
  | call tag path args =>
    call tag path args :: reachedArgs s args ((s.function? path).elim [] (·.decl.params))
  | binary tag op lhs rhs => binary tag op lhs rhs :: (lhs.reached s ++ rhs.reached s)
  | neg tag operand => neg tag operand :: operand.reached s
  | ascribed tag ty inner => ascribed tag ty inner :: inner.reached s
  | lit tag value => [lit tag value]
  | var tag name => [var tag name]

def reachedArgs (s : Scope) : List (Expr τ) → List Param → List (Expr τ)
  | arg :: args, _ :: params => arg.reached s ++ reachedArgs s args params
  | _, _ => []

end

mutual

private theorem reached_subset : ∀ e : Expr τ, e.reached s ⊆ e.nodes
  | bareCall .. => by
    simp [reached, nodes]
  | call _ _ args => by
    rw [reached, nodes]
    exact List.cons_subset_cons _ (reachedArgs_subset args _)
  | binary _ _ lhs rhs => by
    rw [reached, nodes]
    apply List.cons_subset_cons
    exact List.append_subset.2 ⟨List.subset_append_of_subset_left _ (reached_subset lhs),
      List.subset_append_of_subset_right _ (reached_subset rhs)⟩
  | neg _ e | ascribed _ _ e => by
    rw [reached, nodes]
    exact List.cons_subset_cons _ (reached_subset e)
  | lit .. | var .. => by
    rw [reached, nodes]
    exact List.Subset.refl _

private theorem reachedArgs_subset : ∀ (args : List (Expr τ)) (params : List Param),
    reachedArgs s args params ⊆ nodesAll args
  | arg :: args, _ :: params => by
    rw [reachedArgs, nodesAll]
    exact List.append_subset.2 ⟨List.subset_append_of_subset_left _ (reached_subset arg),
      List.subset_append_of_subset_right _ (reachedArgs_subset args params)⟩
  | [], _ | _ :: _, [] => by
    simp [reachedArgs]

end

mutual

/-- Where every call that is looked at fits its function, nothing is passed over. -/
private theorem InForm.regular : ∀ {e : Expr τ}, e.InForm s → (∀ node ∈ e.reached s, node.Fits s) →
    e.Regular s
  | ascribed _ _ (lit ..), _, _ | ascribed _ _ (var ..), _, _ =>
    ⟨by simp [Wrapped], by simp [nodes, Fits]⟩
  | ascribed _ _ (neg _ operand), h, hfits => by
    rw [InForm] at h
    simp only [reached, List.forall_mem_cons] at hfits
    have hoperand := h.regular hfits.2.2
    exact ⟨by simpa [Wrapped] using hoperand.wrapped,
      by simpa [nodes, Fits] using hoperand.fits⟩
  | ascribed _ _ (binary _ _ lhs rhs), h, hfits => by
    rw [InForm] at h
    simp only [reached, List.forall_mem_cons, List.forall_mem_append] at hfits
    have hlhs := h.1.regular hfits.2.2.1
    have hrhs := h.2.regular hfits.2.2.2
    constructor
    · simpa [Wrapped] using ⟨hlhs.wrapped, hrhs.wrapped⟩
    · simp only [nodes, List.forall_mem_cons, List.forall_mem_append]
      exact ⟨trivial, trivial, hlhs.fits, hrhs.fits⟩
  | ascribed _ _ (call _ path args), h, hfits => by
    rw [InForm] at h
    simp only [reached, List.forall_mem_cons] at hfits
    obtain ⟨_, hcall, hfits⟩ := hfits
    obtain ⟨symbol, hs, hargs⟩ := h
    have ⟨symbol', hs', hlen⟩ := hcall
    cases hs.symm.trans hs'
    rw [hs] at hfits
    obtain ⟨hwrapped, hfits⟩ := hargs.regular hlen hfits
    constructor
    · simpa [Wrapped] using hwrapped
    · simp only [nodes, List.forall_mem_cons]
      exact ⟨trivial, hcall, hfits⟩

private theorem ArgsInForm.regular : ∀ {args : List (Expr τ)} {params : List Param},
    ArgsInForm s args params → args.length = params.length →
    (∀ node ∈ reachedArgs s args params, node.Fits s) →
    WrappedAll args ∧ ∀ node ∈ nodesAll args, node.Fits s
  | [], _, _, _, _ => ⟨by simp [WrappedAll], by simp [nodesAll]⟩
  | arg :: args, param :: params, h, hlen, hfits => by
    rw [ArgsInForm] at h
    rw [reachedArgs, List.forall_mem_append] at hfits
    have harg := h.1.regular hfits.1
    obtain ⟨hwrapped, hargs⟩ := h.2.regular (by simpa using hlen) hfits.2
    rw [WrappedAll, nodesAll, List.forall_mem_append]
    exact ⟨⟨harg.wrapped, hwrapped⟩, harg.fits, hargs⟩

end

/-- An expression that emission admits is regular just if every call that is looked at fits. -/
theorem InForm.regular_iff {e : Expr τ} (h : e.InForm s) :
    e.Regular s ↔ ∀ node ∈ e.reached s, node.Fits s := by
  constructor
  · intro hr node hmem
    exact hr.fits node (reached_subset e hmem)
  · exact h.regular

variable {f : Frame}

mutual

private theorem Emits.inForm {e : Expr τ} {n n' : Nat} {x : Operand} {c : Code} :
    e.Emits f n x c n' → e.InForm f.scope
  | .bool .. | .int .. | .str .. | .var .. => by
    simp [InForm]
  | .binary _ _ _ _ _ _ hl hr _ _ => by
    rw [InForm]
    exact ⟨hl.inForm, hr.inForm⟩
  | .neg _ _ _ _ h => by
    rw [InForm]
    exact h.inForm
  | .call _ _ _ hs h _ => by
    rw [InForm]
    exact ⟨_, hs, h.inForm⟩

private theorem EmitsArgs.inForm {args : List (Expr τ)} {params : List Param} {n n' : Nat}
    {xs : List Operand} {c : Code} : EmitsArgs f args params n xs c n' →
    ArgsInForm f.scope args params
  | .noArgs .. | .noParams .. => by
    simp [ArgsInForm]
  | .cons _ h _ rest => by
    rw [ArgsInForm]
    exact ⟨h.inForm, rest.inForm⟩

end

theorem EmitsEffect.inForm {e : Expr τ} {n n' : Nat} {c : Code} (h : e.EmitsEffect f n c n') :
    e.InForm f.scope := by
  cases h with
  | value h => exact h.inForm
  | voidCall _ _ _ hs h _ =>
    rw [InForm]
    exact ⟨_, hs, h.inForm⟩

end Expr

namespace Stmt

variable {f : Frame}

mutual

/-- What a live statement evaluates was emitted. -/
private theorem Emitted.exists_emitsEffect {st : Stmt τ} {b b' : Builder} :
    st.Emitted f b b' → b.isOpen →
    ∀ st' ∈ st.live, ∀ e, st'.value? = some e → ∃ n c n', e.EmitsEffect f n c n'
  | .effect _ h, _ | .voidRet _ _ h, _ => by
    simp only [live, List.forall_mem_singleton, value?, Option.some.injEq, forall_eq']
    exact ⟨_, _, _, h⟩
  | .bareRet _ _, _ => by
    simp [live, value?]
  | .ret _ _ _ h _, _ => by
    simp only [live, List.forall_mem_singleton, value?, Option.some.injEq, forall_eq']
    exact ⟨_, _, _, .value h⟩
  | .branch _ h hthn j₁ hels _, ho => by
    simp only [live, List.forall_mem_cons, List.forall_mem_append, value?, Option.some.injEq,
      forall_eq']
    exact ⟨⟨_, _, _, .value h⟩, hthn.exists_emitsEffect (Builder.isOpen_split _ _ _ (by simpa)),
      hels.exists_emitsEffect (hthn.blank_else j₁ ho).isOpen_moveTo⟩
  | .loop _ h hbody, ho => by
    simp only [live, List.forall_mem_cons, value?, Option.some.injEq, forall_eq']
    exact ⟨⟨_, _, _, .value h⟩, hbody.exists_emitsEffect
      (Builder.isOpen_split _ _ _ (by simpa using Builder.isOpen_proceed _ ho))⟩

theorem EmittedAll.exists_emitsEffect {sts : List (Stmt τ)} {b b' : Builder} :
    EmittedAll f sts b b' → b.isOpen →
    ∀ st ∈ liveAll sts, ∀ e, st.value? = some e → ∃ n c n', e.EmitsEffect f n c n'
  | .nil _, _ => by
    simp [liveAll]
  | .dead hf, ho => by
    simp [ho] at hf
  | @EmittedAll.cons _ _ st sts _ b₁ _ _ hst hsts, ho => by
    rw [liveAll, List.forall_mem_append]
    refine ⟨hst.exists_emitsEffect ho, ?_⟩
    have hopen := hst.isOpen_eq ho
    cases hcl : st.closes with
    | true => simp
    | false =>
      rw [hcl] at hopen
      exact hsts.exists_emitsEffect hopen

end

end Stmt

variable {w : Width}

/-- What a live statement evaluates is in order, once its program was emitted, but for arguments that
have no parameter and parameters that have no argument. -/
theorem Program.emit_regular_iff {p : Program τ} {m : Module} (h : (p.emit s w).outcome = .ok m)
    {f : Func τ} (hf : f ∈ p.functions) (hext : f.isExternal = false) {st : Stmt τ}
    (hlive : st.LiveIn f.body) {e : Expr τ} (he : st.value? = some e) :
    e.InForm s ∧ (e.Regular s ↔ ∀ node ∈ e.reached s, node.Fits s) := by
  have hmem : f ∈ p.functions.filter (!·.isExternal) := List.mem_filter.2 ⟨hf, by simp [hext]⟩
  obtain ⟨_, _, _, _, _, hbuilds⟩ := exists_right_of_forall₂ (forall₂_builds_of_emit h) hmem
  obtain ⟨_, _, _, heffect⟩ := hbuilds.emitted.exists_emitsEffect (Builder.isOpen_start _) st
    (Stmt.mem_liveAll_iff.2 hlive) e he
  exact ⟨heffect.inForm, heffect.inForm.regular_iff⟩

/-- A call with one argument too many, and that one neither ascribed nor resolved. -/
def overfull : Expr Unit :=
  .ascribed () .void (.call () ((Path.single "m").child "g")
    [.ascribed () .int (.lit () (.int 1)), .bareCall () "h" []])

def spilling : Program Unit :=
  ⟨.single "m",
    [.function () ⟨"g", true, ⟨[⟨.int, "x"⟩], some .void⟩, []⟩,
     .function () ⟨"f", false, ⟨[⟨.bool, "b"⟩], some .void⟩,
      [.branch () (.ascribed () .bool (.var () "b")) [.effect () overfull] []]⟩]⟩

def spillingScope : Scope :=
  spilling.decls.foldl (Scope.enter Library.empty) (Scope.empty spilling.module)

theorem overfull_live : ∃ f ∈ spilling.functions, f.isExternal = false ∧
    (Stmt.effect () overfull).LiveIn f.body :=
  ⟨_, .tail _ (.head _), rfl, .thn [] () _ [] [] rfl (.here [] [] rfl)⟩

theorem emit_regular_iff_spilling :
    ∃ m, (spilling.emit spillingScope .w64).outcome = .ok m ∧ overfull.InForm spillingScope ∧
      (overfull.Regular spillingScope ↔
        ∀ node ∈ overfull.reached spillingScope, node.Fits spillingScope) := by
  obtain ⟨m, hm⟩ := Outcome.exists_eq_ok (x := (spilling.emit spillingScope .w64).outcome)
    (by decide +kernel)
  obtain ⟨f, hf, hext, hlive⟩ := overfull_live
  exact ⟨m, hm, Program.emit_regular_iff hm hf hext hlive rfl⟩

/-- A call that has one argument too many is emitted all the same. -/
theorem spilling_emitted_not_regular :
    (∃ m, (spilling.emit spillingScope .w64).outcome = .ok m) ∧
      (∃ f ∈ spilling.functions, f.isExternal = false ∧ (Stmt.effect () overfull).LiveIn f.body) ∧
      ¬overfull.Regular spillingScope := by
  refine ⟨Outcome.exists_eq_ok (by decide +kernel), overfull_live, ?_⟩
  intro h
  exact absurd h.wrapped (by simp [overfull, Expr.Wrapped, Expr.WrappedAll])

end BlockCompiler
