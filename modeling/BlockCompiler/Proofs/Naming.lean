import BlockCompiler.Proofs.Bodies

/-!
# Resolved names

What resolution makes of an expression, as rules: a call by bare name becomes a call of the one
function that the name can stand for, and everything else is kept. Variables are parameters, and
paths lead to visible functions. A second resolution changes nothing, and neither does the first if
the expression is well typed.
-/

namespace BlockCompiler

variable {τ : Type} {s : Scope}

namespace Scope

private theorem callee_eq_ok_iff {name : String} {span? : Option Span} {path : Path} :
    s.callee name span? = .ok path ↔ s.candidates name = [path] := by
  unfold callee
  split
  · next hc => simp [hc]
  · next path' hc => simp [hc]
  · next hnil hone =>
    simp only [reduceCtorEq, false_iff]
    exact hone path

/-- Whatever a bare name can stand for is visible. -/
theorem isSome_function?_of_mem_candidates {name : String} {path : Path}
    (h : path ∈ s.candidates name) : (s.function? path).isSome := by
  unfold candidates at h
  simp only at h
  split at h
  · next hown =>
    cases List.mem_singleton.1 h
    exact Option.isSome_of_any hown
  · obtain ⟨hmem, _⟩ := List.mem_filter.1 h
    obtain ⟨⟨path, symbol⟩, hentry, rfl⟩ := List.mem_map.1 hmem
    have hs := Std.ExtTreeMap.mem_toList_iff_getElem?_eq_some.1 (List.mem_filter.1 hentry).1
    exact Option.isSome_of_eq_some hs

end Scope

mutual

/-- `e'` is `e` with its names resolved, in a function with the given parameters. -/
inductive Expr.Resolves (s : Scope) (params : List Param) : Expr τ → Expr τ → Prop where
  | bareCall (tag : τ) {name : String} {path : Path} {args args' : List (Expr τ)}
      (h : s.candidates name = [path]) (hargs : Expr.ResolvesAll s params args args') :
      Resolves s params (.bareCall tag name args) (.call tag path args')
  | call (tag : τ) {path : Path} {args args' : List (Expr τ)} (h : (s.function? path).isSome)
      (hargs : Expr.ResolvesAll s params args args') :
      Resolves s params (.call tag path args) (.call tag path args')
  | binary (tag : τ) (op : BinOp) {lhs lhs' rhs rhs' : Expr τ} (hl : Resolves s params lhs lhs')
      (hr : Resolves s params rhs rhs') :
      Resolves s params (.binary tag op lhs rhs) (.binary tag op lhs' rhs')
  | neg (tag : τ) {operand operand' : Expr τ} (h : Resolves s params operand operand') :
      Resolves s params (.neg tag operand) (.neg tag operand')
  | ascribed (tag : τ) (ty : Ty) {inner inner' : Expr τ} (h : Resolves s params inner inner') :
      Resolves s params (.ascribed tag ty inner) (.ascribed tag ty inner')
  | lit (tag : τ) (value : Literal) : Resolves s params (.lit tag value) (.lit tag value)
  | var (tag : τ) {name : String} (h : ∃ param ∈ params, param.name = name) :
      Resolves s params (.var tag name) (.var tag name)

inductive Expr.ResolvesAll (s : Scope) (params : List Param) :
    List (Expr τ) → List (Expr τ) → Prop where
  | nil : ResolvesAll s params [] []
  | cons {e e' : Expr τ} {es es' : List (Expr τ)} (h : Expr.Resolves s params e e')
      (rest : Expr.ResolvesAll s params es es') : ResolvesAll s params (e :: es) (e' :: es')

end

namespace Expr

variable {params : List Param}

private theorem requireVisible_eq_ok_iff [Located τ] {visible : Bool} {name : String} {tag : τ} :
    requireVisible visible name tag = .ok () ↔ visible := by
  unfold requireVisible
  cases visible <;> simp

mutual

/-- Resolution succeeds just when the rules apply, and gives what they give. -/
theorem resolve_eq_ok_iff [Located τ] : ∀ {e e' : Expr τ},
    (e.resolve s params).outcome = .ok e' ↔ e.Resolves s params e'
  | bareCall tag name args, e' => by
    simp only [resolve, Traced.bind_eq_ok, Traced.outcome_pure]
    constructor
    · rintro ⟨path, hpath, _, _, args', hargs, he⟩
      cases he
      exact .bareCall tag (Scope.callee_eq_ok_iff.1 hpath) (resolveAll_eq_ok_iff.1 hargs)
    · rintro ⟨⟩
      exact ⟨_, Scope.callee_eq_ok_iff.2 ‹_›, (), rfl, _, resolveAll_eq_ok_iff.2 ‹_›, rfl⟩
  | call tag path args, e' => by
    simp only [resolve, Traced.bind_eq_ok, Traced.outcome_pure]
    constructor
    · rintro ⟨⟨⟩, hvisible, args', hargs, he⟩
      cases he
      exact .call tag (requireVisible_eq_ok_iff.1 hvisible) (resolveAll_eq_ok_iff.1 hargs)
    · rintro ⟨⟩
      exact ⟨(), requireVisible_eq_ok_iff.2 ‹_›, _, resolveAll_eq_ok_iff.2 ‹_›, rfl⟩
  | binary tag op lhs rhs, e' => by
    simp only [resolve, Traced.bind_eq_ok, Traced.outcome_pure]
    constructor
    · rintro ⟨lhs', hl, rhs', hr, he⟩
      cases he
      exact .binary tag op (resolve_eq_ok_iff.1 hl) (resolve_eq_ok_iff.1 hr)
    · intro h
      cases h with
      | binary _ _ hl hr => exact ⟨_, resolve_eq_ok_iff.2 hl, _, resolve_eq_ok_iff.2 hr, rfl⟩
  | neg tag operand, e' => by
    simp only [resolve, Traced.bind_eq_ok, Traced.outcome_pure]
    constructor
    · rintro ⟨operand', h, he⟩
      cases he
      exact .neg tag (resolve_eq_ok_iff.1 h)
    · rintro ⟨⟩
      exact ⟨_, resolve_eq_ok_iff.2 ‹_›, rfl⟩
  | ascribed tag ty inner, e' => by
    simp only [resolve, Traced.bind_eq_ok, Traced.outcome_pure]
    constructor
    · rintro ⟨inner', h, he⟩
      cases he
      exact .ascribed tag ty (resolve_eq_ok_iff.1 h)
    · rintro ⟨⟩
      exact ⟨_, resolve_eq_ok_iff.2 ‹_›, rfl⟩
  | lit tag value, e' => by
    simp only [resolve, Traced.outcome_pure]
    constructor
    · intro h
      cases h
      exact .lit tag value
    · rintro ⟨⟩
      rfl
  | var tag name, e' => by
    simp only [resolve, Traced.bind_eq_ok, Traced.outcome_pure]
    constructor
    · rintro ⟨⟨⟩, hvisible, he⟩
      cases he
      exact .var tag (by simpa using requireVisible_eq_ok_iff.1 hvisible)
    · intro h
      cases h with
      | var _ h => exact ⟨(), requireVisible_eq_ok_iff.2 (by simpa using h), rfl⟩

private theorem resolveAll_eq_ok_iff [Located τ] : ∀ {es es' : List (Expr τ)},
    (resolveAll s params es).outcome = .ok es' ↔ ResolvesAll s params es es'
  | [], es' => by
    simp only [resolveAll, Traced.outcome_pure]
    constructor
    · intro h
      cases h
      exact .nil
    · rintro ⟨⟩
      rfl
  | e :: es, es' => by
    simp only [resolveAll, Traced.bind_eq_ok, Traced.outcome_pure]
    constructor
    · rintro ⟨e', he, rest, hrest, hes⟩
      cases hes
      exact .cons (resolve_eq_ok_iff.1 he) (resolveAll_eq_ok_iff.1 hrest)
    · rintro ⟨⟩
      exact ⟨_, resolve_eq_ok_iff.2 ‹_›, _, resolveAll_eq_ok_iff.2 ‹_›, rfl⟩

end

mutual

/-- Nothing is left to resolve in the result. -/
theorem Resolves.again {e e' : Expr τ} : Resolves s params e e' → Resolves s params e' e'
  | .bareCall tag h hargs =>
    .call tag (Scope.isSome_function?_of_mem_candidates (h ▸ List.mem_singleton.2 rfl)) hargs.again
  | .call tag h hargs => .call tag h hargs.again
  | .binary tag op hl hr => .binary tag op hl.again hr.again
  | .neg tag h => .neg tag h.again
  | .ascribed tag ty h => .ascribed tag ty h.again
  | .lit tag value => .lit tag value
  | .var tag h => .var tag h

private theorem ResolvesAll.again {es es' : List (Expr τ)} :
    ResolvesAll s params es es' → ResolvesAll s params es' es'
  | .nil => .nil
  | .cons h rest => .cons h.again rest.again

end

end Expr

/-- A block is resolved just when its expressions are. -/
theorem Stmt.resolveAll_eq_ok_iff [Located τ] {params : List Param} {sts sts' : List (Stmt τ)} :
    (resolveAll s params sts).outcome = .ok sts' ↔ RelAll (Expr.Resolves s params) sts sts' := by
  constructor
  · intro h
    exact (relAll_of_resolveAll h).imp fun e e' => Expr.resolve_eq_ok_iff.1
  · intro h
    exact (h.imp fun e e' => Expr.resolve_eq_ok_iff.2).resolveAll_eq

theorem Signature.isSome_typeOf?_iff {sig : Signature} {name : String} :
    (sig.typeOf? name).isSome ↔ ∃ param ∈ sig.params, param.name = name := by
  simp [typeOf?, List.find?_isSome]

namespace Expr

variable {sig : Signature}

mutual

/-- In a well-typed expression nothing is left to resolve. -/
theorem HasType.resolves {e : Expr τ} {ty : Ty} :
    e.HasType s sig ty → Resolves s sig.params e e
  | .lit tag value => .lit tag value
  | .var tag h => .var tag (Signature.isSome_typeOf?_iff.1 (Option.isSome_of_eq_some h))
  | .neg tag h => .neg tag h.resolves
  | .binary tag hl hr _ => .binary tag _ hl.resolves hr.resolves
  | .call tag h fit => .call tag (Option.isSome_of_eq_some h) fit.resolvesAll
  | .ascribed tag h => .ascribed tag _ h.resolves

private theorem ArgsFit.resolvesAll {args : List (Expr τ)} {params : List Param} :
    ArgsFit s sig args params → ResolvesAll s sig.params args args
  | .nil => .nil
  | .cons h _ _ rest => .cons h.resolves rest.resolvesAll

end

end Expr

end BlockCompiler
