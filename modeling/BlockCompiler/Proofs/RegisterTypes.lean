import BlockCompiler.Target.Code
import Mathlib.Algebra.Ring.Int.Defs
import Mathlib.Data.List.Forall2

/-!
# Types of registers

Target code is well typed if its registers can be given types such that every instruction is used at
the types it is for. Where registers are numbered in the order of the code, the types can be chosen
along the way: each piece of code settles the types of the registers it takes and leaves those after
it free.
-/

namespace BlockCompiler

namespace Target

/-- An assignment of types to registers. -/
abbrev RegTypes := Reg → Ty

/-- The type of an operand. An integer constant has to lie in the signed range of its type. -/
inductive Operand.HasType (w : Width) (Γ : RegTypes) : Operand → Ty → Prop where
  | reg {r : Reg} {ty : Ty} (h : Γ r = ty) : HasType w Γ (.reg r) ty
  | int {v : Int} (lower : -2 ^ (w.bits - 1) ≤ v) (upper : v < 2 ^ (w.bits - 1)) :
      HasType w Γ (.int v) (.int w)
  | bool (v : Bool) : HasType w Γ (.bool v) .bool

/-- An instruction in a body of module `m`. -/
inductive Instr.WellTyped (m : Module) (Γ : RegTypes) : Instr → Prop where
  | arith {dest : Reg} (op : ArithOp) {lhs rhs : Operand} (hl : lhs.HasType m.width Γ (.int m.width))
      (hr : rhs.HasType m.width Γ (.int m.width)) (hd : Γ dest = .int m.width) :
      WellTyped m Γ (.arith dest op lhs rhs)
  | compare {dest : Reg} (op : CompareOp) {lhs rhs : Operand} {ty : Ty}
      (hl : lhs.HasType m.width Γ ty) (hr : rhs.HasType m.width Γ ty) (hd : Γ dest = .bool) :
      WellTyped m Γ (.compare dest op lhs rhs)
  | neg {dest : Reg} {operand : Operand} (h : operand.HasType m.width Γ (.int m.width))
      (hd : Γ dest = .int m.width) : WellTyped m Γ (.neg dest operand)
  | call {dest? : Option Reg} {args : List Operand} {g : Function} (hg : g ∈ m.functions)
      (hargs : List.Forall₂ (fun x ty => x.HasType m.width Γ ty) args g.params)
      (hd : ∀ dest, dest? = some dest → Γ dest = g.result) (hv : dest? = none ↔ g.result = .void) :
      WellTyped m Γ (.call dest? g.name args)
  | alloca {dest : Reg} (length : Nat) (hd : Γ dest = .ptr) : WellTyped m Γ (.alloca dest length)
  | store {ptr : Reg} (data : List UInt8) (hp : Γ ptr = .ptr) : WellTyped m Γ (.store ptr data)
  | bitcast {dest value : Reg} (h : Γ value = .ptr) (hd : Γ dest = .ptr) :
      WellTyped m Γ (.bitcast dest value)
  | intToPtr {dest : Reg} {value : Operand} {ty : Ty} (h : value.HasType m.width Γ ty)
      (ht : ty = .int m.width ∨ ty = .bool) (hd : Γ dest = .ptr) :
      WellTyped m Γ (.intToPtr dest value)
  | ptrToInt {dest : Reg} {value : Operand} {ty : Ty} (h : value.HasType m.width Γ .ptr)
      (ht : ty = .int m.width ∨ ty = .bool) (hd : Γ dest = ty) :
      WellTyped m Γ (.ptrToInt dest value ty)

/-- A terminator in a function that returns `result`. -/
inductive Terminator.WellTyped (w : Width) (Γ : RegTypes) (result : Ty) : Terminator → Prop where
  | jump (id : BlockId) : WellTyped w Γ result (.jump id)
  | branch {test : Operand} (thn els : BlockId) (h : test.HasType w Γ .bool) :
      WellTyped w Γ result (.branch test thn els)
  | bareRet : WellTyped w Γ result (.ret none)
  | ret {x : Operand} (h : x.HasType w Γ result) (hv : result ≠ .void) :
      WellTyped w Γ result (.ret (some x))
  | unreachable : WellTyped w Γ result .unreachable

/-- A function of module `m`: there are types for its registers, among them those of the parameters,
at which all its code is well typed. -/
def Function.WellTyped (m : Module) (g : Function) : Prop :=
  ∀ body, g.body? = some body → ∃ Γ : RegTypes, body.args.map Γ = g.params ∧
    ∀ block ∈ body.blocks, (∀ i ∈ block.instrs, i.WellTyped m Γ) ∧
      block.terminator.WellTyped m.width Γ g.result

/-- `Γ'` gives the registers below `n` the types that `Γ` does. -/
def SameBelow (n : Nat) (Γ Γ' : RegTypes) : Prop :=
  ∀ r : Reg, r.index < n → Γ' r = Γ r

private theorem SameBelow.trans {n n' : Nat} {Γ Γ₁ Γ₂ : RegTypes} (h : SameBelow n Γ Γ₁)
    (h' : SameBelow n' Γ₁ Γ₂) (hn : n ≤ n') : SameBelow n Γ Γ₂ := by
  intro r hr
  rw [h' r (by omega), h r hr]

/-- The registers from `n` up to `n'` can be given types such that `F` holds, whatever the types of
the registers after them. Those before them have the types of `Γ₀`. -/
def Assignable (n n' : Nat) (Γ₀ : RegTypes) (F : RegTypes → Prop) : Prop :=
  ∃ Γ, SameBelow n Γ₀ Γ ∧ ∀ Γ', SameBelow n' Γ Γ' → F Γ'

namespace Assignable

variable {n n₁ n₂ : Nat} {Γ₀ : RegTypes} {F G : RegTypes → Prop}

theorem imp (h : Assignable n n₁ Γ₀ F) (hF : ∀ Γ, F Γ → G Γ) : Assignable n n₁ Γ₀ G := by
  obtain ⟨Γ, hΓ, h⟩ := h
  exact ⟨Γ, hΓ, fun Γ' hΓ' => hF Γ' (h Γ' hΓ')⟩

/-- Code that takes no registers. -/
theorem none (h : ∀ Γ, SameBelow n Γ₀ Γ → F Γ) : Assignable n n Γ₀ F :=
  ⟨Γ₀, fun _ _ => rfl, h⟩

/-- One register can be given any type. -/
theorem one (n : Nat) (Γ₀ : RegTypes) (ty : Ty) : Assignable n (n + 1) Γ₀ fun Γ => Γ ⟨n⟩ = ty := by
  refine ⟨fun r => if r.index = n then ty else Γ₀ r, ?_, ?_⟩
  · intro r hr
    simp [Nat.ne_of_lt hr]
  · intro Γ' hΓ'
    simp [hΓ' ⟨n⟩ (Nat.lt_succ_self n)]

theorem seq (h : Assignable n n₁ Γ₀ F) (hn : n ≤ n₁) (hn' : n₁ ≤ n₂)
    (h' : ∀ Γ₁, SameBelow n Γ₀ Γ₁ → Assignable n₁ n₂ Γ₁ G) :
    Assignable n n₂ Γ₀ fun Γ => F Γ ∧ G Γ := by
  obtain ⟨Γ₁, hΓ₁, hF⟩ := h
  obtain ⟨Γ₂, hΓ₂, hG⟩ := h' Γ₁ hΓ₁
  refine ⟨Γ₂, hΓ₁.trans hΓ₂ hn, ?_⟩
  intro Γ' hΓ'
  exact ⟨hF Γ' (hΓ₂.trans hΓ' hn'), hG Γ' hΓ'⟩

end Assignable

end Target

end BlockCompiler
