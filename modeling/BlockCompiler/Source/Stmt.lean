import BlockCompiler.Source.Expr

/-!
# Statements

A block is a list of statements. Statements carry tags as expressions do.
-/

namespace BlockCompiler

inductive Stmt (τ : Type) where
  | branch (tag : τ) (test : Expr τ) (thn els : List (Stmt τ))
  | loop (tag : τ) (test : Expr τ) (body : List (Stmt τ))
  | effect (tag : τ) (value : Expr τ)
  | ret (tag : τ) (value : Option (Expr τ))

namespace Stmt

variable {τ : Type}

def tag : Stmt τ → τ
  | branch t .. | loop t .. | effect t _ | ret t _ => t

variable [DecidableEq τ]

mutual

/-- Structural equality, tags included. -/
def same : Stmt τ → Stmt τ → Bool
  | branch t c xs ys, branch t' c' xs' ys' => t = t' && c = c' && sameAll xs xs' && sameAll ys ys'
  | loop t c xs, loop t' c' xs' => t = t' && c = c' && sameAll xs xs'
  | effect t e, effect t' e' => t = t' && e = e'
  | ret t e, ret t' e' => t = t' && e = e'
  | _, _ => false

def sameAll : List (Stmt τ) → List (Stmt τ) → Bool
  | [], [] => true
  | s :: ss, s' :: ss' => same s s' && sameAll ss ss'
  | _, _ => false

end

mutual

theorem same_iff : ∀ a b : Stmt τ, a.same b ↔ a = b
  | branch _ _ xs ys, b => by
    cases b <;> simp [same, sameAll_iff xs, sameAll_iff ys, and_assoc]
  | loop _ _ xs, b => by
    cases b <;> simp [same, sameAll_iff xs, and_assoc]
  | effect .., b => by
    cases b <;> simp [same]
  | ret .., b => by
    cases b <;> simp [same]

theorem sameAll_iff : ∀ xs ys : List (Stmt τ), sameAll xs ys ↔ xs = ys
  | [], ys => by
    cases ys <;> simp [sameAll]
  | x :: xs, ys => by
    cases ys <;> simp [sameAll, same_iff x, sameAll_iff xs]

end

instance : DecidableEq (Stmt τ) := fun a b => decidable_of_iff _ (same_iff a b)

end Stmt

end BlockCompiler
