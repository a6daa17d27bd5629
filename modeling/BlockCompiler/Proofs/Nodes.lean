import BlockCompiler.Proofs.Naming
import BlockCompiler.Proofs.Visible

/-!
# Names at the nodes of expressions

What a bare name can stand for in a scope, and where names stand in a program. An expression is
resolved only if each of its nodes is known by itself, and what cannot be resolved is reported at a
node.
-/

namespace BlockCompiler

variable {τ : Type} {s : Scope} {params : List Param}

namespace Scope

variable {name : String} {path : Path}

/-- The function at `path` is imported, and `path` ends in `name`. -/
def Imports (s : Scope) (name : String) (path : Path) : Prop :=
  path.name = name ∧ ∃ symbol, s.function? path = some symbol ∧ symbol.isOwn = false

/-- What a bare name stands for: the module's own function, or else the only imported one. -/
inductive Means (s : Scope) (name : String) : Path → Prop where
  | own (h : s.declaresFunction (s.module.child name)) : Means s name (s.module.child name)
  | imported {path : Path} (hown : s.declaresFunction (s.module.child name) = false)
      (h : s.Imports name path) (honly : ∀ path', s.Imports name path' → path' = path) :
      Means s name path

private theorem candidates_of_own (h : s.declaresFunction (s.module.child name)) :
    s.candidates name = [s.module.child name] :=
  if_pos h

private theorem candidates_of_not_own (h : s.declaresFunction (s.module.child name) = false) :
    s.candidates name = (s.functions.imported.map Prod.fst).filter (·.name = name) :=
  if_neg (by simp [h])

theorem mem_candidates_iff (h : s.declaresFunction (s.module.child name) = false) :
    path ∈ s.candidates name ↔ s.Imports name path := by
  rw [candidates_of_not_own h, List.mem_filter, Table.mem_importedPaths, decide_eq_true_iff,
    and_comm]
  rfl

theorem pairwise_candidates (s : Scope) (name : String) :
    (s.candidates name).Pairwise (compare · · = .lt) := by
  cases hown : s.declaresFunction (s.module.child name) with
  | true =>
    rw [candidates_of_own hown]
    exact List.pairwise_singleton _ _
  | false =>
    rw [candidates_of_not_own hown]
    exact (Table.pairwise_importedPaths s.functions).filter _

private theorem nodup_candidates (s : Scope) (name : String) : (s.candidates name).Nodup := by
  refine (s.pairwise_candidates name).imp ?_
  rintro path _ hlt rfl
  simp at hlt

theorem candidates_eq_singleton_iff : s.candidates name = [path] ↔ s.Means name path := by
  cases hown : s.declaresFunction (s.module.child name) with
  | true =>
    rw [candidates_of_own hown]
    constructor
    · intro h
      cases h
      exact .own hown
    · intro h
      cases h with
      | own => rfl
      | imported hno => rw [hown] at hno; cases hno
  | false =>
    -- no candidate is listed twice, so the list is told by its members
    rw [← List.perm_singleton,
      List.perm_ext_iff_of_nodup (s.nodup_candidates name) (List.nodup_singleton path)]
    simp only [mem_candidates_iff hown, List.mem_singleton]
    constructor
    · intro h
      exact .imported hown ((h path).2 rfl) fun path' => (h path').1
    · intro h path'
      cases h with
      | own h => rw [hown] at h; cases h
      | imported _ h honly => exact ⟨honly path', fun heq => heq ▸ h⟩

theorem exists_means_iff : (∃ path, s.Means name path) ↔
    s.declaresFunction (s.module.child name) ∨ ∃! path, s.Imports name path := by
  constructor
  · rintro ⟨path, h⟩
    cases h with
    | own h => exact .inl h
    | imported _ h honly => exact .inr ⟨path, h, honly⟩
  · rintro (h | ⟨path, h, honly⟩)
    · exact ⟨_, .own h⟩
    · cases hown : s.declaresFunction (s.module.child name) with
      | true => exact ⟨_, .own hown⟩
      | false => exact ⟨path, .imported hown h honly⟩

theorem callee_eq_error_iff {span? : Option Span} {e : ResolveError} :
    s.callee name span? = .error e ↔
      (s.candidates name = [] ∧ e = .undeclared name span?) ∨
      (2 ≤ (s.candidates name).length ∧ e = .ambiguous name (s.candidates name) span?) := by
  unfold callee
  split
  · next hc => simp [hc, eq_comm]
  · next path hc => simp [hc]
  · next hnil hone =>
    have hlen : 2 ≤ (s.candidates name).length := by
      match hc : s.candidates name with
      | [] => exact absurd hc hnil
      | [path] => exact absurd hc (hone path)
      | _ :: _ :: _ => simp
    simp only [eq_false hnil, hlen, false_and, true_and, false_or, Except.error.injEq]
    exact eq_comm

end Scope

namespace Expr

mutual

/-- The nodes of an expression, with itself. -/
def nodes : Expr τ → List (Expr τ)
  | bareCall tag name args => bareCall tag name args :: nodesAll args
  | call tag path args => call tag path args :: nodesAll args
  | binary tag op lhs rhs => binary tag op lhs rhs :: (lhs.nodes ++ rhs.nodes)
  | neg tag operand => neg tag operand :: operand.nodes
  | ascribed tag ty inner => ascribed tag ty inner :: inner.nodes
  | lit tag value => [lit tag value]
  | var tag name => [var tag name]

def nodesAll : List (Expr τ) → List (Expr τ)
  | [] => []
  | e :: es => e.nodes ++ nodesAll es

end

theorem mem_nodes_self (e : Expr τ) : e ∈ e.nodes := by
  cases e <;> simp [nodes]

theorem mem_nodesAll {args : List (Expr τ)} {arg : Expr τ} (h : arg ∈ args) : arg ∈ nodesAll args := by
  induction args with
  | nil => cases h
  | cons arg' args ih =>
    rw [nodesAll, List.mem_append]
    rcases List.mem_cons.1 h with rfl | h
    · exact .inl arg.mem_nodes_self
    · exact .inr (ih h)

mutual

/-- The nodes of a node are nodes of the expression. -/
theorem nodes_subset {node : Expr τ} : ∀ {e : Expr τ}, node ∈ e.nodes → node.nodes ⊆ e.nodes
  | bareCall tag name args, h | call tag name args, h => by
    rcases List.mem_cons.1 h with rfl | h
    · exact List.Subset.refl _
    · exact List.subset_cons_of_subset _ (nodes_subset_all h)
  | binary tag op lhs rhs, h => by
    rcases List.mem_cons.1 h with rfl | h
    · exact List.Subset.refl _
    · refine List.subset_cons_of_subset _ ?_
      rcases List.mem_append.1 h with h | h
      · exact List.subset_append_of_subset_left _ (nodes_subset h)
      · exact List.subset_append_of_subset_right _ (nodes_subset h)
  | neg tag inner, h | ascribed tag _ inner, h => by
    rcases List.mem_cons.1 h with rfl | h
    · exact List.Subset.refl _
    · exact List.subset_cons_of_subset _ (nodes_subset h)
  | lit .., h | var .., h => by
    cases List.mem_singleton.1 h
    exact List.Subset.refl _

theorem nodes_subset_all {node : Expr τ} : ∀ {es : List (Expr τ)}, node ∈ nodesAll es →
    node.nodes ⊆ nodesAll es
  | [], h => by
    cases h
  | e :: es, h => by
    rcases List.mem_append.1 h with h | h
    · exact List.subset_append_of_subset_left _ (nodes_subset h)
    · exact List.subset_append_of_subset_right _ (nodes_subset_all h)

end

/-- What the node itself names can be found, whatever is below it. -/
def Known (s : Scope) (params : List Param) : Expr τ → Prop
  | bareCall _ name _ => ∃ path, s.Means name path
  | call _ path _ => (s.function? path).isSome
  | var _ name => ∃ param ∈ params, param.name = name
  | binary .. | neg .. | ascribed .. | lit .. => True

mutual

theorem Resolves.known {e e' : Expr τ} :
    Resolves s params e e' → ∀ node ∈ e.nodes, node.Known s params
  | .bareCall _ h hargs => by
    rw [nodes, List.forall_mem_cons]
    exact ⟨⟨_, Scope.candidates_eq_singleton_iff.1 h⟩, hargs.known⟩
  | .call _ h hargs => by
    rw [nodes, List.forall_mem_cons]
    exact ⟨h, hargs.known⟩
  | .binary _ _ hl hr => by
    rw [nodes, List.forall_mem_cons, List.forall_mem_append]
    exact ⟨trivial, hl.known, hr.known⟩
  | .neg _ h | .ascribed _ _ h => by
    rw [nodes, List.forall_mem_cons]
    exact ⟨trivial, h.known⟩
  | .lit .. => List.forall_mem_singleton.2 trivial
  | .var _ h => List.forall_mem_singleton.2 h

private theorem ResolvesAll.known {es es' : List (Expr τ)} :
    ResolvesAll s params es es' → ∀ node ∈ nodesAll es, node.Known s params
  | .nil => List.forall_mem_nil _
  | .cons h rest => by
    rw [nodesAll, List.forall_mem_append]
    exact ⟨h.known, rest.known⟩

end

/-- Whether the node is a call by bare name. -/
def isBareCall : Expr τ → Bool
  | bareCall .. => true
  | call .. | binary .. | neg .. | ascribed .. | lit .. | var .. => false

section Errors

variable [Located τ] {err : ResolveError}

/-- The error of a node that is not known. -/
inductive Unknown (s : Scope) (params : List Param) : Expr τ → ResolveError → Prop where
  | bareCall {tag : τ} {name : String} {args : List (Expr τ)} {err : ResolveError}
      (h : s.callee name (Located.span? tag) = .error err) :
      Unknown s params (.bareCall tag name args) err
  | call {tag : τ} {path : Path} {args : List (Expr τ)} (h : s.function? path = none) :
      Unknown s params (.call tag path args) (.undeclared path.dotted (Located.span? tag))
  | var {tag : τ} {name : String} (h : ∀ param ∈ params, param.name ≠ name) :
      Unknown s params (.var tag name) (.undeclared name (Located.span? tag))

private theorem requireVisible_eq_error_iff {visible : Bool} {name : String} {tag : τ} :
    requireVisible visible name tag = .error err ↔
      visible = false ∧ err = .undeclared name (Located.span? tag) := by
  unfold requireVisible
  cases visible <;> simp [eq_comm]

mutual

/-- An expression that cannot be resolved has a node that is not known. -/
private theorem exists_unknown_of_resolve :
    ∀ {e : Expr τ}, (e.resolve s params).outcome = .error err →
    ∃ node ∈ e.nodes, node.Unknown s params err
  | bareCall tag name args, h => by
    simp only [resolve, Traced.bind_eq_error] at h
    rw [nodes, List.exists_mem_cons_iff]
    rcases h with h | ⟨_, _, h | ⟨_, _, h | ⟨_, _, h⟩⟩⟩
    · exact .inl (.bareCall h)
    · cases h
    · exact .inr (exists_unknown_of_resolveAll h)
    · cases h
  | call tag path args, h => by
    simp only [resolve, Traced.bind_eq_error] at h
    rw [nodes, List.exists_mem_cons_iff]
    rcases h with h | ⟨_, _, h | ⟨_, _, h⟩⟩
    · obtain ⟨hno, rfl⟩ := requireVisible_eq_error_iff.1 h
      exact .inl (.call (by simpa using hno))
    · exact .inr (exists_unknown_of_resolveAll h)
    · cases h
  | binary _ _ lhs rhs, h => by
    simp only [resolve, Traced.bind_eq_error] at h
    simp only [nodes, List.exists_mem_cons_iff, List.mem_append, or_and_right, exists_or]
    rcases h with h | ⟨_, _, h | ⟨_, _, h⟩⟩
    · exact .inr (.inl (exists_unknown_of_resolve h))
    · exact .inr (.inr (exists_unknown_of_resolve h))
    · cases h
  | neg _ inner, h | ascribed _ _ inner, h => by
    simp only [resolve, Traced.bind_eq_error] at h
    rw [nodes, List.exists_mem_cons_iff]
    rcases h with h | ⟨_, _, h⟩
    · exact .inr (exists_unknown_of_resolve h)
    · cases h
  | lit .., h => by
    cases h
  | var tag name, h => by
    simp only [resolve, Traced.bind_eq_error] at h
    rcases h with h | ⟨_, _, h⟩
    · obtain ⟨hno, rfl⟩ := requireVisible_eq_error_iff.1 h
      exact ⟨_, List.mem_singleton.2 rfl, .var (by simpa using hno)⟩
    · cases h

private theorem exists_unknown_of_resolveAll : ∀ {es : List (Expr τ)},
    (resolveAll s params es).outcome = .error err → ∃ node ∈ nodesAll es, node.Unknown s params err
  | [], h => by
    cases h
  | e :: es, h => by
    simp only [resolveAll, Traced.bind_eq_error] at h
    simp only [nodesAll, List.mem_append, or_and_right, exists_or]
    rcases h with h | ⟨_, _, h | ⟨_, _, h⟩⟩
    · exact .inl (exists_unknown_of_resolve h)
    · exact .inr (exists_unknown_of_resolveAll h)
    · cases h

end

end Errors

end Expr

/-- All nodes of the expressions in the body. -/
def Func.nodes (f : Func τ) : List (Expr τ) :=
  (Stmt.exprsAll f.body).flatMap Expr.nodes

section Errors

variable [Located τ] {err : ResolveError}

namespace Stmt

mutual

/-- A statement that cannot be resolved has an expression that cannot. -/
private theorem exists_of_resolve_error :
    ∀ {st : Stmt τ}, (st.resolve s params).outcome = .error err →
    ∃ x ∈ st.exprs, (x.resolve s params).outcome = .error err
  | branch _ test thn els, h => by
    simp only [resolve, Traced.bind_eq_error] at h
    simp only [exprs, List.exists_mem_cons_iff, List.mem_append, or_and_right, exists_or]
    rcases h with h | ⟨_, _, h | ⟨_, _, h | ⟨_, _, h⟩⟩⟩
    · exact .inl h
    · exact .inr (.inl (exists_of_resolveAll_error h))
    · exact .inr (.inr (exists_of_resolveAll_error h))
    · cases h
  | loop _ test body, h => by
    simp only [resolve, Traced.bind_eq_error] at h
    simp only [exprs, List.exists_mem_cons_iff]
    rcases h with h | ⟨_, _, h | ⟨_, _, h⟩⟩
    · exact .inl h
    · exact .inr (exists_of_resolveAll_error h)
    · cases h
  | effect _ value, h | ret _ (some value), h => by
    simp only [resolve, Traced.bind_eq_error] at h
    rcases h with h | ⟨_, _, h⟩
    · exact ⟨value, List.mem_singleton.2 rfl, h⟩
    · cases h
  | ret _ none, h => by
    cases h

private theorem exists_of_resolveAll_error : ∀ {sts : List (Stmt τ)},
    (resolveAll s params sts).outcome = .error err →
    ∃ x ∈ exprsAll sts, (x.resolve s params).outcome = .error err
  | [], h => by
    cases h
  | st :: sts, h => by
    simp only [resolveAll, Traced.bind_eq_error] at h
    simp only [exprsAll, List.mem_append, or_and_right, exists_or]
    rcases h with h | ⟨_, _, h | ⟨_, _, h⟩⟩
    · exact .inl (exists_of_resolve_error h)
    · exact .inr (exists_of_resolveAll_error h)
    · cases h

end

end Stmt

private theorem Scope.exists_of_requireImports_error {entries : List (Path × τ)}
    (h : s.requireImports entries = .error err) : ∃ entry ∈ entries,
      s.isImported entry.1 = false ∧ err = .missingImport entry.1 (Located.span? entry.2) := by
  induction entries with
  | nil => cases h
  | cons entry entries ih =>
    rw [requireImports] at h
    split at h
    · obtain ⟨entry', hmem, hentry⟩ := ih h
      exact ⟨entry', List.mem_cons_of_mem _ hmem, hentry⟩
    · next hno =>
      cases h
      exact ⟨entry, List.mem_cons_self, by simpa using hno, rfl⟩

namespace Program

variable {p : Program τ}

/-- A program that cannot be resolved has an import that is not recorded or a node that is not
known, and that is what is reported. -/
theorem exists_of_resolve_error (h : (p.resolve s).outcome = .error err) :
    (∃ entry ∈ p.imports, s.isImported entry.1 = false ∧
      err = .missingImport entry.1 (Located.span? entry.2)) ∨
    ∃ f ∈ p.functions, ∃ node ∈ f.nodes, node.Unknown s f.signature.params err := by
  simp only [resolve, Traced.bind_eq_error] at h
  rcases h with h | ⟨_, _, h | ⟨_, _, h⟩⟩
  · exact .inl (Scope.exists_of_requireImports_error h)
  · obtain ⟨d, hd, h⟩ := Traced.exists_of_mapM_eq_error h
    cases d with
    | type | imports => cases h
    | function tag f =>
      simp only [Decl.resolve, Traced.bind_eq_error] at h
      rcases h with h | ⟨_, _, h⟩
      · obtain ⟨e, he, h⟩ := Stmt.exists_of_resolveAll_error h
        obtain ⟨node, hnode, h⟩ := Expr.exists_unknown_of_resolve h
        exact .inr ⟨f, List.mem_filterMap.2 ⟨_, hd, rfl⟩, node, List.mem_flatMap.2 ⟨e, he, hnode⟩, h⟩
      · cases h
  · cases h

/-- An ambiguous name stands in a bare call. It is not declared by the module, and what is reported
are the imported functions that end in it, in path order. -/
theorem of_resolve_ambiguous {name : String} {paths : List Path} {span? : Option Span}
    (h : (p.resolve s).outcome = .error (.ambiguous name paths span?)) :
    (∃ f ∈ p.functions, ∃ tag args, .bareCall tag name args ∈ f.nodes ∧
      span? = Located.span? tag) ∧
    s.declaresFunction (s.module.child name) = false ∧ 2 ≤ paths.length ∧
    paths = s.candidates name := by
  rcases exists_of_resolve_error h with ⟨_, _, _, h⟩ | ⟨f, hf, node, hnode, h⟩
  · cases h
  · cases h with
    | @bareCall tag name args _ h =>
      rcases Scope.callee_eq_error_iff.1 h with ⟨_, h⟩ | ⟨hlen, h⟩
      · cases h
      · cases h
        refine ⟨⟨f, hf, tag, args, hnode, rfl⟩, ?_, hlen, rfl⟩
        cases hown : s.declaresFunction (s.module.child name) with
        | false => rfl
        | true => simp [Scope.candidates_of_own hown] at hlen

end Program

end Errors

end BlockCompiler
