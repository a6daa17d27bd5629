import BlockCompiler.Proofs.Separate

/-!
# Wider scopes

Typing and emission look up the functions that are called and nothing else of a scope. So in a scope
where more functions are visible they go as before. Names are resolved as before if those that are
called get no further meaning, and then a function yields the same definition.
-/

namespace BlockCompiler

open Target

variable {τ : Type} {s s' : Scope} {sig : Signature}

/-- Whatever function is visible in `s` is visible in `s'`, and the same. -/
def Scope.Widens (s s' : Scope) : Prop :=
  ∀ path symbol, s.function? path = some symbol → s'.function? path = some symbol

section Typing

mutual

private theorem Expr.HasType.widen (hs : s.Widens s') {e : Expr τ} {ty : Ty} :
    e.HasType s sig ty → e.HasType s' sig ty
  | .lit tag value => .lit tag value
  | .var tag h => .var tag h
  | .neg tag h => .neg tag (h.widen hs)
  | .binary tag hl hr h => .binary tag (hl.widen hs) (hr.widen hs) h
  | .call tag h fit => .call tag (hs _ _ h) (fit.widen hs)
  | .ascribed tag h => .ascribed tag (h.widen hs)

private theorem Expr.ArgsFit.widen (hs : s.Widens s') {args : List (Expr τ)} {params : List Param} :
    ArgsFit s sig args params → ArgsFit s' sig args params
  | .nil => .nil
  | .cons h value fits rest => .cons (h.widen hs) value fits (rest.widen hs)

end

mutual

private theorem Stmt.WellTyped.widen (hs : s.Widens s') {st : Stmt τ} :
    st.WellTyped s sig → st.WellTyped s' sig
  | .branch tag h hthn hels => .branch tag (h.widen hs) (hthn.widen hs) (hels.widen hs)
  | .loop tag h hbody => .loop tag (h.widen hs) (hbody.widen hs)
  | .effect tag h => .effect tag (h.widen hs)
  | .ret tag h fits nothing => .ret tag (h.widen hs) fits nothing
  | .bareRet tag h => .bareRet tag h

private theorem Stmt.AllWellTyped.widen (hs : s.Widens s') {sts : List (Stmt τ)} :
    AllWellTyped s sig sts → AllWellTyped s' sig sts
  | .nil => .nil
  | .cons h rest => .cons (h.widen hs) (rest.widen hs)

end

private theorem Expr.Completed.widen (hs : s.Widens s') {e e' : Expr τ} (h : Completed s sig e e') :
    Completed s' sig e e' := by
  obtain ⟨ty, ht⟩ := h.wellTyped
  exact ⟨⟨ty, ht.widen hs⟩, h.ascribed.imp fun _ _ ht => ht.widen hs⟩

end Typing

section Resolution

variable {params : List Param}

namespace Expr

mutual

/-- The names by which an expression calls functions other than by path. -/
def bareNames : Expr τ → List String
  | bareCall _ name args => name :: bareNamesAll args
  | call _ _ args => bareNamesAll args
  | binary _ _ lhs rhs => lhs.bareNames ++ rhs.bareNames
  | neg _ operand => operand.bareNames
  | ascribed _ _ inner => inner.bareNames
  | lit .. | var .. => []

def bareNamesAll : List (Expr τ) → List String
  | [] => []
  | e :: es => e.bareNames ++ bareNamesAll es

end

mutual

/-- An expression is resolved as before if the names it calls keep their meaning. -/
private theorem Resolves.widen (hs : s.Widens s') {e e' : Expr τ} : Resolves s params e e' →
    (∀ name ∈ e.bareNames, s'.candidates name = s.candidates name) → Resolves s' params e e'
  | .bareCall tag h hargs, hn => by
    rw [bareNames, List.forall_mem_cons] at hn
    exact .bareCall tag (hn.1.trans h) (hargs.widen hs hn.2)
  | .call tag h hargs, hn => by
    obtain ⟨symbol, h⟩ := Option.isSome_iff_exists.1 h
    exact .call tag (Option.isSome_of_eq_some (hs _ _ h)) (hargs.widen hs hn)
  | .binary tag op hl hr, hn => by
    rw [bareNames, List.forall_mem_append] at hn
    exact .binary tag op (hl.widen hs hn.1) (hr.widen hs hn.2)
  | .neg tag h, hn => .neg tag (h.widen hs hn)
  | .ascribed tag ty h, hn => .ascribed tag ty (h.widen hs hn)
  | .lit tag value, _ => .lit tag value
  | .var tag h, _ => .var tag h

private theorem ResolvesAll.widen (hs : s.Widens s') {es es' : List (Expr τ)} :
    ResolvesAll s params es es' →
    (∀ name ∈ bareNamesAll es, s'.candidates name = s.candidates name) →
    ResolvesAll s' params es es'
  | .nil, _ => .nil
  | .cons h rest, hn => by
    rw [bareNamesAll, List.forall_mem_append] at hn
    exact .cons (h.widen hs hn.1) (rest.widen hs hn.2)

end

end Expr

end Resolution

section Emission

variable {f : Frame}

mutual

/-- The code for an expression depends on the functions it calls only. -/
private theorem Expr.Emits.widen (hs : f.scope.Widens s') {e : Expr τ} {n n' : Nat} {x : Operand}
    {c : Code} :
    e.Emits f n x c n' → e.Emits { f with scope := s' } n x c n'
  | .bool t t' ty v n => .bool t t' ty v n
  | .int t t' ty v n => .int t t' ty v n
  | .str t t' ty v n => .str t t' ty v n
  | .var t t' ty n hr => .var t t' ty n hr
  | .binary t t' ty op ha hb hl hr hx hy =>
    .binary t t' ty op ha hb (hl.widen hs) (hr.widen hs) hx hy
  | .neg t t' ty ht h => .neg t t' ty ht (h.widen hs)
  | .call t t' ty h hargs hv => .call t t' ty (hs _ _ h) (hargs.widen hs) hv

private theorem Expr.EmitsArgs.widen (hs : f.scope.Widens s') {args : List (Expr τ)}
    {params : List Param} {n n' : Nat} {xs : List Operand} {c : Code} :
    EmitsArgs f args params n xs c n' → EmitsArgs { f with scope := s' } args params n xs c n'
  | .noArgs params n => .noArgs params n
  | .noParams arg args n => .noParams arg args n
  | .cons ht h hc rest => .cons ht (h.widen hs) hc (rest.widen hs)

end

private theorem Expr.EmitsEffect.widen (hs : f.scope.Widens s') {e : Expr τ} {n n' : Nat}
    {c : Code} :
    e.EmitsEffect f n c n' → e.EmitsEffect { f with scope := s' } n c n'
  | .value h => .value (h.widen hs)
  | .voidCall t t' ty h hargs hv => .voidCall t t' ty (hs _ _ h) (hargs.widen hs) hv

mutual

private theorem Stmt.Emitted.widen (hs : f.scope.Widens s') {st : Stmt τ} {b b' : Builder} :
    st.Emitted f b b' → st.Emitted { f with scope := s' } b b'
  | .effect t h => .effect t (h.widen hs)
  | .bareRet t b => .bareRet t b
  | .voidRet t ht h => .voidRet t ht (h.widen hs)
  | .ret t ht hv h hc => .ret t ht hv (h.widen hs) hc
  | .branch t h hthn j₁ hels j₂ => .branch t (h.widen hs) (hthn.widen hs) j₁ (hels.widen hs) j₂
  | .loop t h hbody => .loop t (h.widen hs) (hbody.widen hs)

private theorem Stmt.EmittedAll.widen (hs : f.scope.Widens s') {sts : List (Stmt τ)}
    {b b' : Builder} :
    EmittedAll f sts b b' → EmittedAll { f with scope := s' } sts b b'
  | .nil b => .nil b
  | .dead h => .dead h
  | .cons h hst hsts => .cons h (hst.widen hs) (hsts.widen hs)

end

end Emission

namespace Func

variable {w : Width} {path : Path}

/-- The names by which a function calls functions other than by path. -/
def bareNames (f : Func τ) : List String :=
  (Stmt.exprsAll f.body).flatMap Expr.bareNames

theorem Elaborates.widen (hs : s.Widens s') {f f' : Func τ} (h : f.Elaborates s f')
    (hn : ∀ name ∈ f.bareNames, s'.candidates name = s.candidates name) : f.Elaborates s' f' := by
  obtain ⟨hresolves, hwell, hcompletes⟩ := h
  refine .intro (hresolves.imp_of_mem ?_) ⟨hwell.params, hwell.body.widen hs⟩
    (hcompletes.imp fun _ _ he => he.widen hs)
  intro e he e' hee'
  refine hee'.widen hs fun name hname => hn name ?_
  exact List.mem_flatMap.2 ⟨e, he, hname⟩

/-- A function whose calls keep their meaning yields the same definition. -/
theorem Yields.widen (hs : s.Widens s') {f : Func τ} {g : Function} (h : f.Yields s w path g)
    (hn : ∀ name ∈ f.bareNames, s'.candidates name = s.candidates name) : f.Yields s' w path g := by
  obtain ⟨f', hf, hg⟩ := h
  obtain ⟨b, blocks, hb, hblocks, rfl⟩ := emit_eq_ok_iff.1 hg
  have hb' : Stmt.EmittedAll (f'.frame s' w) f'.body (.start f'.signature.params.length) b :=
    hb.widen hs
  exact ⟨f', hf.widen hs hn, emit_eq_ok_iff.2 ⟨b, blocks, hb', hblocks, rfl⟩⟩

end Func

end BlockCompiler
