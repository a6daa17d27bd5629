import BlockCompiler.Name.Path
import BlockCompiler.Source.Operator
import BlockCompiler.Source.Ty

/-!
# Expressions

Every node of an expression carries a tag of type `τ`. Calls come in two forms: by the bare name the
author wrote, and by the path that name stands for. A type ascription wraps an expression together
with its type.
-/

namespace BlockCompiler

inductive Literal where
  | bool (value : Bool)
  | int (value : Int)
  | str (value : String)
deriving DecidableEq

def Literal.ty : Literal → Ty
  | bool _ => .bool
  | int _ => .int
  | str _ => .str

inductive Expr (τ : Type) where
  | bareCall (tag : τ) (name : String) (args : List (Expr τ))
  | call (tag : τ) (path : Path) (args : List (Expr τ))
  | binary (tag : τ) (op : BinOp) (lhs rhs : Expr τ)
  | neg (tag : τ) (operand : Expr τ)
  | ascribed (tag : τ) (ty : Ty) (inner : Expr τ)
  | lit (tag : τ) (value : Literal)
  | var (tag : τ) (name : String)

namespace Expr

variable {τ : Type}

def tag : Expr τ → τ
  | bareCall t _ _ | call t _ _ | binary t _ _ _ | neg t _ | ascribed t _ _ | lit t _ | var t _ => t

/-- The type an ascription gives; no other node knows its type. -/
def ascribedType? : Expr τ → Option Ty
  | ascribed _ ty _ => some ty
  | _ => none

/-- Wraps the expression in an ascription that carries the same tag. -/
def ascribe (ty : Ty) (e : Expr τ) : Expr τ :=
  ascribed e.tag ty e

def isBinary : Expr τ → Bool
  | binary .. => true
  | _ => false

variable [DecidableEq τ]

mutual

/-- Structural equality, tags included. -/
def same : Expr τ → Expr τ → Bool
  | bareCall t n xs, bareCall t' n' xs' => t = t' && n = n' && sameAll xs xs'
  | call t p xs, call t' p' xs' => t = t' && p = p' && sameAll xs xs'
  | binary t op l r, binary t' op' l' r' => t = t' && op = op' && same l l' && same r r'
  | neg t x, neg t' x' => t = t' && same x x'
  | ascribed t ty x, ascribed t' ty' x' => t = t' && ty = ty' && same x x'
  | lit t v, lit t' v' => t = t' && v = v'
  | var t n, var t' n' => t = t' && n = n'
  | _, _ => false

def sameAll : List (Expr τ) → List (Expr τ) → Bool
  | [], [] => true
  | x :: xs, x' :: xs' => same x x' && sameAll xs xs'
  | _, _ => false

end

mutual

theorem same_iff : ∀ a b : Expr τ, a.same b ↔ a = b
  | bareCall _ _ xs, b => by
    cases b <;> simp [same, sameAll_iff xs, and_assoc]
  | call _ _ xs, b => by
    cases b <;> simp [same, sameAll_iff xs, and_assoc]
  | binary _ _ l r, b => by
    cases b <;> simp [same, same_iff l, same_iff r, and_assoc]
  | neg _ x, b => by
    cases b <;> simp [same, same_iff x]
  | ascribed _ _ x, b => by
    cases b <;> simp [same, same_iff x, and_assoc]
  | lit .., b => by
    cases b <;> simp [same]
  | var .., b => by
    cases b <;> simp [same]

theorem sameAll_iff : ∀ xs ys : List (Expr τ), sameAll xs ys ↔ xs = ys
  | [], ys => by
    cases ys <;> simp [sameAll]
  | x :: xs, ys => by
    cases ys <;> simp [sameAll, same_iff x, sameAll_iff xs]

end

instance : DecidableEq (Expr τ) := fun a b => decidable_of_iff _ (same_iff a b)

end Expr

end BlockCompiler
