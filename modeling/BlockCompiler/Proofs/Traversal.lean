import BlockCompiler.Proofs.Retagging
import Mathlib.Logic.Basic

/-!
# Traversals in order

Replacing the tags of a tree by a computation with state keeps the tree, and the computation meets the
tags in the order in which they are listed. A tree is told by its shape and that list, so two traversals
one after the other are one traversal with both states.
-/

namespace BlockCompiler

variable {σ τ υ : Type}

/-- Takes the next tag off a list of tags. -/
def next (_ : σ) : StateT (List τ) Option τ
  | [] => none
  | t :: ts => some (t, ts)

@[simp] theorem run_next_cons (x : σ) (t : τ) (ts : List τ) :
    (next x).run (t :: ts) = some (t, ts) := rfl

namespace Expr

mutual

/-- The expression with its tags erased. -/
def shape : Expr τ → Expr Unit
  | bareCall _ name args => bareCall () name (shapeAll args)
  | call _ path args => call () path (shapeAll args)
  | binary _ op lhs rhs => binary () op (shape lhs) (shape rhs)
  | neg _ operand => neg () (shape operand)
  | ascribed _ ty inner => ascribed () ty (shape inner)
  | lit _ value => lit () value
  | var _ name => var () name

def shapeAll : List (Expr τ) → List (Expr Unit)
  | [] => []
  | e :: es => shape e :: shapeAll es

end

mutual

private theorem untagged_eq_shape : ∀ e : Expr τ, e.untagged = e.shape
  | bareCall _ _ args => (retag_bareCall ..).trans (congrArg _ (map_untagged args))
  | call _ _ args => (retag_call ..).trans (congrArg _ (map_untagged args))
  | binary _ op lhs rhs => congrArg₂ (binary () op) (untagged_eq_shape lhs) (untagged_eq_shape rhs)
  | neg _ operand => congrArg (neg ()) (untagged_eq_shape operand)
  | ascribed _ ty inner => congrArg (ascribed () ty) (untagged_eq_shape inner)
  | lit .. | var .. => rfl

private theorem map_untagged : ∀ es : List (Expr τ), es.map untagged = shapeAll es
  | [] => rfl
  | e :: es => congrArg₂ List.cons (untagged_eq_shape e) (map_untagged es)

end

section

variable {m : Type → Type} [Monad m] [LawfulMonad m] (f : σ → m τ)

mutual

/-- The tags of an expression are replaced in the order in which they are listed. -/
private theorem tags_retagM : ∀ e : Expr σ, tags <$> e.retagM f = e.tags.mapM f
  | bareCall _ _ args => by
    simp [retagM, tags, ← tagsAll_retagAllM args]
  | call _ _ args => by
    simp [retagM, tags, ← tagsAll_retagAllM args]
  | binary _ _ lhs rhs => by
    simp [retagM, tags, ← tags_retagM lhs, ← tags_retagM rhs]
  | neg _ operand => by
    simp [retagM, tags, ← tags_retagM operand]
  | ascribed _ _ inner => by
    simp [retagM, tags, ← tags_retagM inner]
  | lit .. | var .. => by
    simp [retagM, tags]

private theorem tagsAll_retagAllM :
    ∀ es : List (Expr σ), tagsAll <$> retagAllM f es = (tagsAll es).mapM f
  | [] => by
    simp [retagAllM, tagsAll]
  | e :: es => by
    simp [retagAllM, tagsAll, ← tags_retagM e, ← tagsAll_retagAllM es]

end

end

section

variable {S : Type} (f : σ → StateM S τ)

mutual

private theorem shape_retagM : ∀ (e : Expr σ) (s : S), ((e.retagM f).run s).1.shape = e.shape
  | bareCall _ name args, s => congrArg (bareCall () name) (shapeAll_retagAllM args s)
  | call _ path args, s => congrArg (call () path) (shapeAll_retagAllM args s)
  | binary _ op lhs rhs, s => congrArg₂ (binary () op) (shape_retagM lhs s) (shape_retagM rhs _)
  | neg _ operand, s => congrArg (neg ()) (shape_retagM operand s)
  | ascribed _ ty inner, s => congrArg (ascribed () ty) (shape_retagM inner s)
  | lit .., _ | var .., _ => rfl

private theorem shapeAll_retagAllM : ∀ (es : List (Expr σ)) (s : S),
    shapeAll ((retagAllM f es).run s).1 = shapeAll es
  | [], _ => rfl
  | e :: es, s => congrArg₂ List.cons (shape_retagM e s) (shapeAll_retagAllM es _)

end

end

mutual

/-- Reading the tags off a list rebuilds an expression from its shape. -/
private theorem retagM_next : ∀ (e : Expr τ) (rest : List τ),
    (e.shape.retagM next).run (e.tags ++ rest) = some (e, rest)
  | bareCall t _ args, rest | call t _ args, rest => by
    simp [shape, retagM, tags, retagAllM_next args]
  | binary t _ lhs rhs, rest => by
    simp [shape, retagM, tags, retagM_next lhs, retagM_next rhs]
  | neg t e, rest | ascribed t _ e, rest => by
    simp [shape, retagM, tags, retagM_next e]
  | lit .., rest | var .., rest => by
    simp [shape, retagM, tags]

private theorem retagAllM_next : ∀ (es : List (Expr τ)) (rest : List τ),
    (retagAllM next (shapeAll es)).run (tagsAll es ++ rest) = some (es, rest)
  | [], rest => rfl
  | e :: es, rest => by
    simp [shapeAll, retagAllM, tagsAll, retagM_next e, retagAllM_next es]

end

end Expr

namespace Stmt

mutual

/-- The statement with its tags erased. -/
def shape : Stmt τ → Stmt Unit
  | branch _ test thn els => branch () test.shape (shapeAll thn) (shapeAll els)
  | loop _ test body => loop () test.shape (shapeAll body)
  | effect _ value => effect () value.shape
  | ret _ value => ret () (value.map Expr.shape)

def shapeAll : List (Stmt τ) → List (Stmt Unit)
  | [] => []
  | st :: sts => shape st :: shapeAll sts

end

mutual

private theorem retag_eq_shape : ∀ st : Stmt τ, st.retag (fun _ => ()) = st.shape
  | branch _ test thn els => by
    have htest := test.untagged_eq_shape
    rw [retag_branch, map_retag_eq_shape thn, map_retag_eq_shape els, shape, ← htest]
    rfl
  | loop _ test body => by
    rw [retag_loop, map_retag_eq_shape body, shape, ← test.untagged_eq_shape]
    rfl
  | effect _ value => congrArg (effect ()) value.untagged_eq_shape
  | ret _ none => rfl
  | ret _ (some value) => congrArg (fun e => ret () (some e)) value.untagged_eq_shape

private theorem map_retag_eq_shape :
    ∀ sts : List (Stmt τ), sts.map (retag fun _ => ()) = shapeAll sts
  | [] => rfl
  | st :: sts => congrArg₂ List.cons (retag_eq_shape st) (map_retag_eq_shape sts)

end

section

variable {m : Type → Type} [Monad m] [LawfulMonad m] (f : σ → m τ)

mutual

private theorem tags_retagM : ∀ st : Stmt σ, tags <$> st.retagM f = st.tags.mapM f
  | branch _ test thn els => by
    simp [retagM, tags, ← test.tags_retagM, ← tagsAll_retagAllM thn, ← tagsAll_retagAllM els]
  | loop _ test body => by
    simp [retagM, tags, ← test.tags_retagM, ← tagsAll_retagAllM body]
  | effect _ value | ret _ (some value) => by
    simp [retagM, tags, ← value.tags_retagM]
  | ret _ none => by
    simp [retagM, tags]

private theorem tagsAll_retagAllM : ∀ sts : List (Stmt σ),
    tagsAll <$> retagAllM f sts = (tagsAll sts).mapM f
  | [] => by
    simp [retagAllM, tagsAll]
  | st :: sts => by
    simp [retagAllM, tagsAll, ← tags_retagM st, ← tagsAll_retagAllM sts]

end

end

section

variable {S : Type} (f : σ → StateM S τ)

mutual

private theorem shape_retagM : ∀ (st : Stmt σ) (s : S), ((st.retagM f).run s).1.shape = st.shape
  | branch _ test thn els, s =>
    congr (congrArg₂ (branch ()) (test.shape_retagM f s) (shapeAll_retagAllM thn _))
      (shapeAll_retagAllM els _)
  | loop _ test body, s =>
    congrArg₂ (loop ()) (test.shape_retagM f s) (shapeAll_retagAllM body _)
  | effect _ value, s => congrArg (effect ()) (value.shape_retagM f s)
  | ret _ none, _ => rfl
  | ret _ (some value), s => congrArg (fun e => ret () (some e)) (value.shape_retagM f s)

private theorem shapeAll_retagAllM : ∀ (sts : List (Stmt σ)) (s : S),
    shapeAll ((retagAllM f sts).run s).1 = shapeAll sts
  | [], _ => rfl
  | st :: sts, s => congrArg₂ List.cons (shape_retagM st s) (shapeAll_retagAllM sts _)

end

end

mutual

private theorem retagM_next : ∀ (st : Stmt τ) (rest : List τ),
    (st.shape.retagM next).run (st.tags ++ rest) = some (st, rest)
  | branch t test thn els, rest => by
    simp [shape, retagM, tags, test.retagM_next, retagAllM_next thn, retagAllM_next els]
  | loop t test body, rest => by
    simp [shape, retagM, tags, test.retagM_next, retagAllM_next body]
  | effect t value, rest | ret t (some value), rest => by
    simp [shape, retagM, tags, value.retagM_next]
  | ret t none, rest => by
    simp [shape, retagM, tags]

private theorem retagAllM_next : ∀ (sts : List (Stmt τ)) (rest : List τ),
    (retagAllM next (shapeAll sts)).run (tagsAll sts ++ rest) = some (sts, rest)
  | [], rest => rfl
  | st :: sts, rest => by
    simp [shapeAll, retagAllM, tagsAll, retagM_next st, retagAllM_next sts]

end

end Stmt

namespace Decl

/-- The declaration with its tags erased. -/
def shape : Decl τ → Decl Unit
  | function _ decl =>
    function () ⟨decl.name, decl.isExternal, decl.signature, Stmt.shapeAll decl.body⟩
  | type _ decl => type () decl
  | imports _ module => imports () module

private theorem retag_eq_shape (d : Decl τ) : d.retag (fun _ => ()) = d.shape := by
  cases d with
  | function t decl =>
    rw [retag, Func.retag, Stmt.map_retag_eq_shape]
    rfl
  | type | imports => rfl

private theorem tags_retagM {m : Type → Type} [Monad m] [LawfulMonad m] (f : σ → m τ) (d : Decl σ) :
    tags <$> d.retagM f = d.tags.mapM f := by
  cases d with
  | function t decl => simp [retagM, tags, ← Stmt.tagsAll_retagAllM]
  | type | imports => simp [retagM, tags]

private theorem shape_retagM {S : Type} (f : σ → StateM S τ) (d : Decl σ) (s : S) :
    ((d.retagM f).run s).1.shape = d.shape := by
  cases d with
  | function t decl =>
    have hbody := Stmt.shapeAll_retagAllM f decl.body s
    exact congrArg (fun body => function () ⟨decl.name, decl.isExternal, decl.signature, body⟩) hbody
  | type | imports => rfl

private theorem retagM_next (d : Decl τ) (rest : List τ) :
    (d.shape.retagM next).run (d.tags ++ rest) = some (d, rest) := by
  cases d with
  | function t decl => simp [shape, retagM, tags, Stmt.retagAllM_next]
  | type | imports => simp [shape, retagM, tags]

end Decl

namespace Program

/-- The program with its tags erased. -/
def shape (p : Program τ) : Program Unit :=
  ⟨p.module, p.decls.map Decl.shape⟩

theorem untagged_eq_shape (p : Program τ) : p.untagged = p.shape := by
  rw [untagged, retag_eq, shape, List.map_congr_left fun d _ => d.retag_eq_shape]

private theorem tags_retagM {m : Type → Type} [Monad m] [LawfulMonad m] (f : σ → m τ)
    (p : Program σ) :
    tags <$> p.retagM f = p.tags.mapM f := by
  have hdecls (decls : List (Decl σ)) : List.flatMap Decl.tags <$> decls.mapM (Decl.retagM f) =
      (decls.flatMap Decl.tags).mapM f := by
    induction decls with
    | nil => simp
    | cons d decls ih => simp [← d.tags_retagM, ← ih]
  rw [tags, ← hdecls]
  simp [retagM, tags]

theorem shape_retagM {S : Type} (f : σ → StateM S τ) (p : Program σ) (s : S) :
    ((p.retagM f).run s).1.shape = p.shape := by
  have hdecls (decls : List (Decl σ)) (s : S) :
      ((decls.mapM (Decl.retagM f)).run s).1.map Decl.shape = decls.map Decl.shape := by
    induction decls generalizing s with
    | nil => rfl
    | cons d decls ih =>
      rw [List.mapM_cons]
      exact congrArg₂ List.cons (d.shape_retagM f s) (ih _)
  exact congrArg (Program.mk p.module) (hdecls p.decls s)

private theorem retagM_next (p : Program τ) (rest : List τ) :
    (p.shape.retagM next).run (p.tags ++ rest) = some (p, rest) := by
  have hdecls (decls : List (Decl τ)) :
      ((decls.map Decl.shape).mapM (Decl.retagM next)).run (decls.flatMap Decl.tags ++ rest) =
        some (decls, rest) := by
    induction decls with
    | nil => rfl
    | cons d decls ih => simp [-List.mapM_map, d.retagM_next, ih]
  simp [-List.mapM_map, shape, retagM, tags, hdecls]

/-- A program is told by its shape and the list of its tags. -/
private theorem eq_of_shape_eq {p q : Program τ} (hshape : p.shape = q.shape)
    (htags : p.tags = q.tags) :
    p = q := by
  have hp := p.retagM_next []
  rw [hshape, htags, q.retagM_next] at hp
  exact (Prod.mk.inj (Option.some.inj hp)).1.symm

end Program

section InTurn

variable {S R : Type}

/-- Two computations on a tag, the second on what the first makes of it, each with a state of its
own. -/
def inTurn (f : σ → StateM S τ) (g : τ → StateM R υ) (t : σ) : StateM (S × R) υ := fun state =>
  let first := (f t).run state.1
  let second := (g first.1).run state.2
  (second.1, first.2, second.2)

variable (f : σ → StateM S τ) (g : τ → StateM R υ)

private theorem run_inTurn (t : σ) (s : S) (r : R) :
    (inTurn f g t).run (s, r) = (((g ((f t).run s).1).run r).1, ((f t).run s).2,
      ((g ((f t).run s).1).run r).2) := rfl

private theorem run_mapM_cons (t : σ) (ts : List σ) (s : S) :
    ((t :: ts).mapM f).run s = (((f t).run s).1 :: ((ts.mapM f).run ((f t).run s).2).1,
      ((ts.mapM f).run ((f t).run s).2).2) := by
  rw [List.mapM_cons]
  rfl

private theorem run_mapM_inTurn (ts : List σ) (s : S) (r : R) :
    let first := (ts.mapM f).run s
    let second := (first.1.mapM g).run r
    (ts.mapM (inTurn f g)).run (s, r) = (second.1, first.2, second.2) := by
  induction ts generalizing s r with
  | nil => rfl
  | cons t ts ih => simp only [run_mapM_cons, run_inTurn, ih]

namespace Program

/-- The state goes through the tags in the order of their list. -/
theorem run_retagM (p : Program σ) (s : S) :
    (((p.retagM f).run s).1.tags, ((p.retagM f).run s).2) = (p.tags.mapM f).run s :=
  congrArg (StateT.run · s) (p.tags_retagM f)

theorem run_retagM_inTurn (p : Program σ) (s : S) (r : R) :
    let first := (p.retagM f).run s
    let second := (first.1.retagM g).run r
    (p.retagM (inTurn f g)).run (s, r) = (second.1, first.2, second.2) := by
  intro first second
  have hrun := p.run_retagM (inTurn f g) (s, r)
  rw [run_mapM_inTurn, ← p.run_retagM f s, ← first.1.run_retagM g r] at hrun
  obtain ⟨htags, hstates⟩ := Prod.mk.inj hrun
  have hshape : ((p.retagM (inTurn f g)).run (s, r)).1.shape = second.1.shape := by
    rw [p.shape_retagM, first.1.shape_retagM, p.shape_retagM]
  exact Prod.ext (eq_of_shape_eq hshape htags) hstates

/-- Replacing tags by a computation with state keeps the tree, and takes the state through the tags in
the order of their list. So one replacement after another is one with both states. -/
theorem retagM_exact (p : Program σ) (s : S) :
    p.untagged = p.shape ∧ ((p.retagM f).run s).1.shape = p.shape ∧
      (((p.retagM f).run s).1.tags, ((p.retagM f).run s).2) = (p.tags.mapM f).run s ∧
      ∀ r : R,
        let first := (p.retagM f).run s
        let second := (first.1.retagM g).run r
        (p.retagM (inTurn f g)).run (s, r) = (second.1, first.2, second.2) :=
  ⟨p.untagged_eq_shape, p.shape_retagM f s, p.run_retagM f s, p.run_retagM_inTurn f g s⟩

end Program

end InTurn

end BlockCompiler
