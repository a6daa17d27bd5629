import BlockCompiler.Source.Program

/-!
# Tags

The tags of a tree in visiting order, and the traversal that replaces them. Both visit the children
of a node before the node, in the order in which they are written: test before blocks, left operand
before right, arguments from the first, a body before its declaration.
-/

namespace BlockCompiler

variable {σ τ : Type}

namespace Expr

mutual

def tags : Expr τ → List τ
  | bareCall t _ args => tagsAll args ++ [t]
  | call t _ args => tagsAll args ++ [t]
  | binary t _ lhs rhs => tags lhs ++ tags rhs ++ [t]
  | neg t operand => tags operand ++ [t]
  | ascribed t _ inner => tags inner ++ [t]
  | lit t _ => [t]
  | var t _ => [t]

def tagsAll : List (Expr τ) → List τ
  | [] => []
  | e :: es => tags e ++ tagsAll es

end

variable {m : Type → Type} [Monad m] (f : σ → m τ)

mutual

/-- Replaces every tag, running `f` on the tags in visiting order. -/
def retagM : Expr σ → m (Expr τ)
  | bareCall t name args => do
    let args ← retagAllM args
    return bareCall (← f t) name args
  | call t path args => do
    let args ← retagAllM args
    return call (← f t) path args
  | binary t op lhs rhs => do
    let lhs ← retagM lhs
    let rhs ← retagM rhs
    return binary (← f t) op lhs rhs
  | neg t operand => do
    let operand ← retagM operand
    return neg (← f t) operand
  | ascribed t ty inner => do
    let inner ← retagM inner
    return ascribed (← f t) ty inner
  | lit t value => do
    return lit (← f t) value
  | var t name => do
    return var (← f t) name

def retagAllM : List (Expr σ) → m (List (Expr τ))
  | [] => return []
  | e :: es => do
    let e ← retagM e
    return e :: (← retagAllM es)

end

/-- Replaces every tag by a function of it. -/
def retag (f : σ → τ) (e : Expr σ) : Expr τ :=
  Id.run (e.retagM fun t => pure (f t))

/-- The expression without its tags. -/
def untagged (e : Expr τ) : Expr Unit :=
  e.retag fun _ => ()

theorem retagAllM_pure (f : σ → τ) (es : List (Expr σ)) :
    Id.run (retagAllM (fun t => pure (f t)) es) = es.map (retag f) := by
  induction es with
  | nil => rfl
  | cons e es ih => rw [List.map_cons, ← ih]; rfl

section

variable (g : σ → τ) (t : σ)

@[simp] theorem retag_bareCall (name : String) (args : List (Expr σ)) :
    retag g (bareCall t name args) = bareCall (g t) name (args.map (retag g)) := by
  rw [← retagAllM_pure]; rfl

@[simp] theorem retag_call (path : Path) (args : List (Expr σ)) :
    retag g (call t path args) = call (g t) path (args.map (retag g)) := by
  rw [← retagAllM_pure]; rfl

@[simp] theorem retag_binary (op : BinOp) (lhs rhs : Expr σ) :
    retag g (binary t op lhs rhs) = binary (g t) op (retag g lhs) (retag g rhs) := rfl

@[simp] theorem retag_neg (operand : Expr σ) :
    retag g (neg t operand) = neg (g t) (retag g operand) := rfl

@[simp] theorem retag_ascribed (ty : Ty) (inner : Expr σ) :
    retag g (ascribed t ty inner) = ascribed (g t) ty (retag g inner) := rfl

@[simp] theorem retag_lit (value : Literal) : retag g (lit t value) = lit (g t) value := rfl

@[simp] theorem retag_var (name : String) : retag g (var t name) = var (g t) name := rfl

end

end Expr

namespace Stmt

mutual

def tags : Stmt τ → List τ
  | branch t test thn els => test.tags ++ tagsAll thn ++ tagsAll els ++ [t]
  | loop t test body => test.tags ++ tagsAll body ++ [t]
  | effect t value => value.tags ++ [t]
  | ret t value => (value.map Expr.tags).getD [] ++ [t]

def tagsAll : List (Stmt τ) → List τ
  | [] => []
  | s :: ss => tags s ++ tagsAll ss

end

variable {m : Type → Type} [Monad m] (f : σ → m τ)

mutual

def retagM : Stmt σ → m (Stmt τ)
  | branch t test thn els => do
    let test ← test.retagM f
    let thn ← retagAllM thn
    let els ← retagAllM els
    return branch (← f t) test thn els
  | loop t test body => do
    let test ← test.retagM f
    let body ← retagAllM body
    return loop (← f t) test body
  | effect t value => do
    let value ← value.retagM f
    return effect (← f t) value
  | ret t none => do
    return ret (← f t) none
  | ret t (some value) => do
    let value ← value.retagM f
    return ret (← f t) (some value)

def retagAllM : List (Stmt σ) → m (List (Stmt τ))
  | [] => return []
  | s :: ss => do
    let s ← retagM s
    return s :: (← retagAllM ss)

end

def retag (f : σ → τ) (s : Stmt σ) : Stmt τ :=
  Id.run (s.retagM fun t => pure (f t))

/-- The statement without its tags. -/
def untagged (st : Stmt τ) : Stmt Unit :=
  st.retag fun _ => ()

theorem retagAllM_pure (f : σ → τ) (ss : List (Stmt σ)) :
    Id.run (retagAllM (fun t => pure (f t)) ss) = ss.map (retag f) := by
  induction ss with
  | nil => rfl
  | cons s ss ih => rw [List.map_cons, ← ih]; rfl

section

variable (g : σ → τ) (t : σ)

@[simp] theorem retag_branch (test : Expr σ) (thn els : List (Stmt σ)) :
    retag g (branch t test thn els) =
      branch (g t) (test.retag g) (thn.map (retag g)) (els.map (retag g)) := by
  rw [← retagAllM_pure, ← retagAllM_pure]; rfl

@[simp] theorem retag_loop (test : Expr σ) (body : List (Stmt σ)) :
    retag g (loop t test body) = loop (g t) (test.retag g) (body.map (retag g)) := by
  rw [← retagAllM_pure]; rfl

@[simp] theorem retag_effect (value : Expr σ) :
    retag g (effect t value) = effect (g t) (value.retag g) := rfl

@[simp] theorem retag_ret (value : Option (Expr σ)) :
    retag g (ret t value) = ret (g t) (value.map (Expr.retag g)) := by
  cases value <;> rfl

end

section

variable (t : τ)

@[simp] theorem untagged_branch (test : Expr τ) (thn els : List (Stmt τ)) :
    (branch t test thn els).untagged =
      branch () test.untagged (thn.map untagged) (els.map untagged) :=
  retag_branch _ t test thn els

@[simp] theorem untagged_loop (test : Expr τ) (body : List (Stmt τ)) :
    (loop t test body).untagged = loop () test.untagged (body.map untagged) :=
  retag_loop _ t test body

@[simp] theorem untagged_effect (value : Expr τ) :
    (effect t value).untagged = effect () value.untagged := rfl

@[simp] theorem untagged_ret (value : Option (Expr τ)) :
    (ret t value).untagged = ret () (value.map Expr.untagged) :=
  retag_ret _ t value

end

end Stmt

namespace Decl

def tags : Decl τ → List τ
  | function t decl => Stmt.tagsAll decl.body ++ [t]
  | type t _ => [t]
  | imports t _ => [t]

def retagM {m : Type → Type} [Monad m] (f : σ → m τ) : Decl σ → m (Decl τ)
  | function t decl => do
    let body ← Stmt.retagAllM f decl.body
    return function (← f t) { decl with body }
  | type t decl => do
    return type (← f t) decl
  | imports t module => do
    return imports (← f t) module

end Decl

namespace Program

def tags (p : Program τ) : List τ :=
  p.decls.flatMap Decl.tags

def retagM {m : Type → Type} [Monad m] (f : σ → m τ) (p : Program σ) : m (Program τ) := do
  return ⟨p.module, ← p.decls.mapM (Decl.retagM f)⟩

def retag (f : σ → τ) (p : Program σ) : Program τ :=
  Id.run (p.retagM fun t => pure (f t))

/-- The program without its tags. -/
def untagged (p : Program τ) : Program Unit :=
  p.retag fun _ => ()

end Program

end BlockCompiler
