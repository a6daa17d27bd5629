import BlockCompiler.Diagnostic
import BlockCompiler.Proofs.Nodes

/-!
# Qualified programs

The path that a bare call gets in resolution depends on its name alone, so a resolved program is the
given one after a substitution. Which programs can be resolved is told by the nodes of their
expressions.
-/

namespace BlockCompiler

variable {τ : Type} {s : Scope} {params : List Param}

namespace Scope

variable {name : String} {path : Path}

/-- A path for each name, which is what the name stands for if it stands for one function. -/
def meaning (s : Scope) (name : String) : Path :=
  (s.candidates name).headD (s.module.child name)

theorem Means.meaning_eq (h : s.Means name path) : s.meaning name = path := by
  rw [meaning, candidates_eq_singleton_iff.2 h]
  rfl

end Scope

namespace Expr

mutual

/-- The expression with a path for each bare name. -/
def qualify (target : String → Path) : Expr τ → Expr τ
  | bareCall tag name args => call tag (target name) (qualifyAll target args)
  | call tag path args => call tag path (qualifyAll target args)
  | binary tag op lhs rhs => binary tag op (lhs.qualify target) (rhs.qualify target)
  | neg tag operand => neg tag (operand.qualify target)
  | ascribed tag ty inner => ascribed tag ty (inner.qualify target)
  | lit tag value => lit tag value
  | var tag name => var tag name

def qualifyAll (target : String → Path) : List (Expr τ) → List (Expr τ)
  | [] => []
  | e :: es => e.qualify target :: qualifyAll target es

end

mutual

theorem Resolves.eq_qualify {e e' : Expr τ} :
    Resolves s params e e' → e' = e.qualify s.meaning
  | .bareCall _ h hargs => by
    rw [qualify, (Scope.candidates_eq_singleton_iff.1 h).meaning_eq, hargs.eq_qualifyAll]
  | .call _ _ hargs => by
    rw [qualify, hargs.eq_qualifyAll]
  | .binary _ _ hl hr => by
    rw [qualify, hl.eq_qualify, hr.eq_qualify]
  | .neg _ h | .ascribed _ _ h => by
    rw [qualify, h.eq_qualify]
  | .lit .. | .var .. => rfl

private theorem ResolvesAll.eq_qualifyAll {es es' : List (Expr τ)} :
    ResolvesAll s params es es' → es' = qualifyAll s.meaning es
  | .nil => rfl
  | .cons h rest => by
    rw [qualifyAll, h.eq_qualify, rest.eq_qualifyAll]

end

mutual

/-- An expression is resolved if each of its nodes is known. -/
private theorem resolves_qualify : ∀ {e : Expr τ}, (∀ node ∈ e.nodes, node.Known s params) →
    Resolves s params e (e.qualify s.meaning)
  | bareCall tag name args, h => by
    rw [nodes, List.forall_mem_cons] at h
    obtain ⟨⟨path, hpath⟩, hargs⟩ := h
    rw [qualify, hpath.meaning_eq]
    exact .bareCall tag (Scope.candidates_eq_singleton_iff.2 hpath) (resolvesAll_qualifyAll hargs)
  | call tag path args, h => by
    rw [nodes, List.forall_mem_cons] at h
    exact .call tag h.1 (resolvesAll_qualifyAll h.2)
  | binary tag op lhs rhs, h => by
    rw [nodes, List.forall_mem_cons, List.forall_mem_append] at h
    exact .binary tag op (resolves_qualify h.2.1) (resolves_qualify h.2.2)
  | neg tag operand, h => by
    rw [nodes, List.forall_mem_cons] at h
    exact .neg tag (resolves_qualify h.2)
  | ascribed tag ty inner, h => by
    rw [nodes, List.forall_mem_cons] at h
    exact .ascribed tag ty (resolves_qualify h.2)
  | lit tag value, _ => .lit tag value
  | var tag name, h => .var tag (h (var tag name) (List.mem_singleton.2 rfl))

private theorem resolvesAll_qualifyAll : ∀ {es : List (Expr τ)},
    (∀ node ∈ nodesAll es, node.Known s params) → ResolvesAll s params es (qualifyAll s.meaning es)
  | [], _ => .nil
  | e :: es, h => by
    rw [nodesAll, List.forall_mem_append] at h
    exact .cons (resolves_qualify h.1) (resolvesAll_qualifyAll h.2)

end

mutual

theorem isBareCall_qualify (target : String → Path) :
    ∀ e : Expr τ, ∀ node ∈ (e.qualify target).nodes, node.isBareCall = false
  | bareCall _ _ args | call _ _ args => by
    rw [qualify, nodes, List.forall_mem_cons]
    exact ⟨rfl, isBareCall_qualifyAll target args⟩
  | binary _ _ lhs rhs => by
    rw [qualify, nodes, List.forall_mem_cons, List.forall_mem_append]
    exact ⟨rfl, isBareCall_qualify target lhs, isBareCall_qualify target rhs⟩
  | neg _ inner | ascribed _ _ inner => by
    rw [qualify, nodes, List.forall_mem_cons]
    exact ⟨rfl, isBareCall_qualify target inner⟩
  | lit .. | var .. => List.forall_mem_singleton.2 rfl

private theorem isBareCall_qualifyAll (target : String → Path) :
    ∀ es : List (Expr τ), ∀ node ∈ nodesAll (qualifyAll target es), node.isBareCall = false
  | [] => List.forall_mem_nil _
  | e :: es => by
    rw [qualifyAll, nodesAll, List.forall_mem_append]
    exact ⟨isBareCall_qualify target e, isBareCall_qualifyAll target es⟩

end

end Expr

namespace Stmt

variable {R : Expr τ → Expr τ → Prop} {g : Expr τ → Expr τ}

mutual

/-- Rewrites the expressions of a statement, with those in its blocks. -/
def mapExprs (g : Expr τ → Expr τ) : Stmt τ → Stmt τ
  | branch tag test thn els => branch tag (g test) (mapExprsAll g thn) (mapExprsAll g els)
  | loop tag test body => loop tag (g test) (mapExprsAll g body)
  | effect tag value => effect tag (g value)
  | ret tag value? => ret tag (value?.map g)

def mapExprsAll (g : Expr τ → Expr τ) : List (Stmt τ) → List (Stmt τ)
  | [] => []
  | st :: sts => st.mapExprs g :: mapExprsAll g sts

end

mutual

private theorem rel_mapExprs :
    ∀ {st : Stmt τ}, (∀ e ∈ st.exprs, R e (g e)) → Rel R st (st.mapExprs g)
  | branch tag test thn els, h => by
    rw [exprs, List.forall_mem_cons, List.forall_mem_append] at h
    exact .branch tag h.1 (relAll_mapExprsAll h.2.1) (relAll_mapExprsAll h.2.2)
  | loop tag test body, h => by
    rw [exprs, List.forall_mem_cons] at h
    exact .loop tag h.1 (relAll_mapExprsAll h.2)
  | effect tag value, h => .effect tag (h value (List.mem_singleton.2 rfl))
  | ret tag (some value), h => .ret tag (h value (List.mem_singleton.2 rfl))
  | ret tag none, _ => .bareRet tag

private theorem relAll_mapExprsAll : ∀ {sts : List (Stmt τ)}, (∀ e ∈ exprsAll sts, R e (g e)) →
    RelAll R sts (mapExprsAll g sts)
  | [], _ => .nil
  | st :: sts, h => by
    rw [exprsAll, List.forall_mem_append] at h
    exact .cons (rel_mapExprs h.1) (relAll_mapExprsAll h.2)

end

mutual

private theorem Rel.eq_mapExprs (hR : ∀ e e', R e e' → e' = g e) {st st' : Stmt τ} :
    Rel R st st' → st' = st.mapExprs g
  | .branch _ h hthn hels => by
    rw [mapExprs, hR _ _ h, hthn.eq_mapExprsAll hR, hels.eq_mapExprsAll hR]
  | .loop _ h hbody => by
    rw [mapExprs, hR _ _ h, hbody.eq_mapExprsAll hR]
  | .effect _ h | .ret _ h => by
    rw [hR _ _ h]
    rfl
  | .bareRet _ => rfl

private theorem RelAll.eq_mapExprsAll (hR : ∀ e e', R e e' → e' = g e) {sts sts' : List (Stmt τ)} :
    RelAll R sts sts' → sts' = mapExprsAll g sts
  | .nil => rfl
  | .cons h rest => by
    rw [mapExprsAll, h.eq_mapExprs hR, rest.eq_mapExprsAll hR]

end

private theorem mem_exprsAll_mapExprsAll {sts : List (Stmt τ)} {e' : Expr τ}
    (h : e' ∈ exprsAll (mapExprsAll g sts)) : ∃ e ∈ exprsAll sts, e' = g e := by
  have hrel : RelAll (fun e e' => e' = g e) sts (mapExprsAll g sts) :=
    relAll_mapExprsAll fun _ _ => rfl
  exact exists_left_of_forall₂ hrel.exprsAll h

end Stmt

namespace Func

/-- Every name and path in the body leads to something: variables to parameters, paths to visible
functions, and bare names to a function of the module or to a single imported one. -/
structure Resolvable (s : Scope) (f : Func τ) : Prop where
  vars : ∀ tag name, .var tag name ∈ f.nodes → ∃ param ∈ f.signature.params, param.name = name
  paths : ∀ tag path args, .call tag path args ∈ f.nodes → (s.function? path).isSome
  names : ∀ tag name args, .bareCall tag name args ∈ f.nodes →
    s.declaresFunction (s.module.child name) ∨ ∃! path, s.Imports name path

/-- The function with a path for each bare name in its body. -/
def qualify (target : String → Path) (f : Func τ) : Func τ :=
  { f with body := Stmt.mapExprsAll (Expr.qualify target) f.body }

private theorem resolvable_iff {f : Func τ} :
    f.Resolvable s ↔ ∀ node ∈ f.nodes, node.Known s f.signature.params := by
  constructor
  · intro h node hnode
    cases node with
    | bareCall tag name args => exact Scope.exists_means_iff.2 (h.names tag name args hnode)
    | call tag path args => exact h.paths tag path args hnode
    | var tag name => exact h.vars tag name hnode
    | binary | neg | ascribed | lit => trivial
  · intro h
    exact ⟨fun tag name hnode => h _ hnode, fun tag path args hnode => h _ hnode,
      fun tag name args hnode => Scope.exists_means_iff.1 (h _ hnode)⟩

end Func

private theorem Stmt.relAll_resolves_iff {sts sts' : List (Stmt τ)} :
    RelAll (Expr.Resolves s params) sts sts' ↔
      (∀ node ∈ (exprsAll sts).flatMap Expr.nodes, node.Known s params) ∧
        sts' = mapExprsAll (Expr.qualify s.meaning) sts := by
  rw [List.forall_mem_flatMap]
  constructor
  · intro h
    refine ⟨fun e he => ?_, h.eq_mapExprsAll fun _ _ he => he.eq_qualify⟩
    obtain ⟨e', _, he'⟩ := exists_right_of_forall₂ h.exprsAll he
    exact he'.known
  · rintro ⟨h, rfl⟩
    exact relAll_mapExprsAll fun e he => Expr.resolves_qualify (h e he)

/-- The declaration with a path for each bare name in it. -/
def Decl.qualify (target : String → Path) : Decl τ → Decl τ
  | function tag f => function tag (f.qualify target)
  | type tag decl => type tag decl
  | imports tag module => imports tag module

private theorem Decl.passes_resolves_iff {d d' : Decl τ} :
    d.Passes (fun sig => Stmt.RelAll (Expr.Resolves s sig.params)) d' ↔
      (∀ f, d.function? = some f → f.Resolvable s) ∧ d.qualify s.meaning = d' := by
  constructor
  · intro h
    cases h with
    | @function tag f f' h =>
      obtain ⟨body, h, rfl⟩ := h
      obtain ⟨hknown, rfl⟩ := Stmt.relAll_resolves_iff.1 h
      refine ⟨?_, rfl⟩
      intro g hg
      cases hg
      exact Func.resolvable_iff.2 hknown
    | type | imports => exact ⟨nofun, rfl⟩
  · rintro ⟨h, rfl⟩
    cases d with
    | function tag f =>
      have hknown := Func.resolvable_iff.1 (h f rfl)
      exact .function tag ⟨_, Stmt.relAll_resolves_iff.2 ⟨hknown, rfl⟩, rfl⟩
    | type tag decl => exact .type tag decl
    | imports tag module => exact .imports tag module

namespace Program

/-- The program with a path for each bare name in it. -/
def qualify (target : String → Path) (p : Program τ) : Program τ :=
  { p with decls := p.decls.map (Decl.qualify target) }

private theorem mem_functions_qualify {target : String → Path} {p : Program τ} {f' : Func τ}
    (h : f' ∈ (p.qualify target).functions) : ∃ f ∈ p.functions, f' = f.qualify target := by
  obtain ⟨d', hd', hf'⟩ := List.mem_filterMap.1 h
  obtain ⟨d, hd, rfl⟩ := List.mem_map.1 hd'
  cases d with
  | function tag f =>
    cases hf'
    exact ⟨f, List.mem_filterMap.2 ⟨_, hd, rfl⟩, rfl⟩
  | type | imports => cases hf'

theorem isBareCall_nodes_qualify {target : String → Path} {p : Program τ} {f : Func τ}
    (hf : f ∈ (p.qualify target).functions) : ∀ node ∈ f.nodes, node.isBareCall = false := by
  obtain ⟨f, _, rfl⟩ := mem_functions_qualify hf
  intro node hnode
  obtain ⟨e', he', hnode⟩ := List.mem_flatMap.1 hnode
  obtain ⟨e, _, rfl⟩ := Stmt.mem_exprsAll_mapExprsAll he'
  exact Expr.isBareCall_qualify target e node hnode

private theorem passes_resolves_iff {p p' : Program τ} :
    p.Passes (fun sig => Stmt.RelAll (Expr.Resolves s sig.params)) p' ↔
      (∀ f ∈ p.functions, f.Resolvable s) ∧ p' = p.qualify s.meaning := by
  -- from the single declarations to the list of them
  have hdecls : ∀ decls', List.Forall₂ (fun d d' => (∀ f, d.function? = some f → f.Resolvable s) ∧
      d.qualify s.meaning = d') p.decls decls' ↔
      (∀ f ∈ p.functions, f.Resolvable s) ∧ p.decls.map (Decl.qualify s.meaning) = decls' := by
    intro decls'
    rw [List.forall₂_and_left, ← List.forall₂_map_left_iff, List.forall₂_eq_eq_eq, functions,
      List.forall_mem_filterMap]
  constructor
  · rintro ⟨hmodule, hp⟩
    obtain ⟨hknown, hmap⟩ := (hdecls _).1 (hp.imp fun _ _ => Decl.passes_resolves_iff.1)
    refine ⟨hknown, ?_⟩
    rw [qualify, hmap, ← hmodule]
  · rintro ⟨hknown, rfl⟩
    exact ⟨rfl, ((hdecls _).2 ⟨hknown, rfl⟩).imp fun _ _ => Decl.passes_resolves_iff.2⟩

section Resolution

variable [Located τ] {p p' : Program τ}

/-- A program is resolved just when its imports are recorded and its functions resolvable. -/
theorem resolve_eq_ok_iff_qualify : (p.resolve s).outcome = .ok p' ↔
    ((∀ entry ∈ p.imports, s.isImported entry.1) ∧ ∀ f ∈ p.functions, f.Resolvable s) ∧
      p' = p.qualify s.meaning := by
  simp only [resolve_eq_ok_iff, Stmt.resolveAll_eq_ok_iff, passes_resolves_iff, and_assoc]

theorem resolve_again (h : (p.resolve s).outcome = .ok p') : (p'.resolve s).outcome = .ok p' := by
  rw [resolve_eq_ok_iff] at h ⊢
  obtain ⟨himports, hp⟩ := h
  rw [hp.imports_eq]
  refine ⟨himports, hp.again ?_⟩
  intro sig body body' h
  rw [Stmt.resolveAll_eq_ok_iff] at h ⊢
  exact h.again fun _ _ he => he.again

/-- Resolution succeeds just when the scope records all imports and every name and path leads to
something. The result is the program with each bare name replaced by what it stands for in the scope;
no bare call is left, and resolving it again changes nothing. If a bare name is ambiguous, all
imported functions that end in it are listed in path order, and shown by their dotted paths. -/
theorem resolve_exact (s : Scope) (p : Program τ) :
    ((∃ p', (p.resolve s).outcome = .ok p') ↔
      (∀ entry ∈ p.imports, s.isImported entry.1) ∧ ∀ f ∈ p.functions, f.Resolvable s) ∧
    (∀ p', (p.resolve s).outcome = .ok p' →
      (∃ target : String → Path, p' = p.qualify target ∧
        ∀ f ∈ p.functions, ∀ tag name args, .bareCall tag name args ∈ f.nodes →
          s.Means name (target name)) ∧
      (∀ f ∈ p'.functions, ∀ tag name args, .bareCall tag name args ∉ f.nodes) ∧
      (p'.resolve s).outcome = .ok p') ∧
    ∀ name paths span?, (p.resolve s).outcome = .error (.ambiguous name paths span?) →
      (∃ f ∈ p.functions, ∃ tag args, .bareCall tag name args ∈ f.nodes ∧
        span? = Located.span? tag) ∧
      s.declaresFunction (s.module.child name) = false ∧
      (∀ path, path ∈ paths ↔ s.Imports name path) ∧ 2 ≤ paths.length ∧
      paths.Pairwise (compare · · = .lt) ∧
      (ResolveError.ambiguous name paths span?).diagnostic.help? =
        some ("It is exported by each of: [" ++
          ", ".intercalate ((paths.map Path.dotted).map Text.quoted) ++ "]") := by
  refine ⟨?_, ?_, ?_⟩
  · simp only [resolve_eq_ok_iff_qualify, exists_and_left, exists_eq, and_true]
  · intro p' h
    obtain ⟨⟨_, hknown⟩, rfl⟩ := resolve_eq_ok_iff_qualify.1 h
    refine ⟨⟨s.meaning, rfl, ?_⟩, ?_, resolve_again h⟩
    · intro f hf tag name args hnode
      obtain ⟨path, hpath⟩ := Scope.exists_means_iff.2 ((hknown f hf).names tag name args hnode)
      rwa [hpath.meaning_eq]
    · intro f hf tag name args hnode
      cases isBareCall_nodes_qualify hf _ hnode
  · intro name paths span? h
    obtain ⟨hnode, hown, hlen, rfl⟩ := of_resolve_ambiguous h
    refine ⟨hnode, hown, fun path => Scope.mem_candidates_iff hown, hlen, s.pairwise_candidates name,
      ?_⟩
    rw [List.map_map]
    rfl

end Resolution

end Program

end BlockCompiler
