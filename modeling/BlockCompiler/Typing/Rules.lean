import BlockCompiler.Proofs.Outcome
import BlockCompiler.Typing.Check

/-!
# Typing rules

The types of expressions and the well-typed statements, as rules. Looking for the type of an
expression finds exactly the type the rules give, and checking a block accepts exactly the blocks
that are well typed.
-/

namespace BlockCompiler

/-- `op.Types a b ty`: on operands of types `a` and `b`, the operator yields `ty`. -/
inductive BinOp.Types : BinOp → Ty → Ty → Ty → Prop where
  | arith (op : ArithOp) : Types (.arith op) .int .int .int
  | order (op : CompareOp) (h : op.isEquality = false) : Types (.compare op) .int .int .bool
  | equality (op : CompareOp) (h : op.isEquality = true) {a b : Ty} (ha : a ≠ .void)
      (hb : b ≠ .void) (fits : a = b ∨ a = .any ∨ b = .any) : Types (.compare op) a b .bool

variable {τ : Type}

mutual

/-- The type of an expression in a function of signature `sig`. -/
inductive Expr.HasType (s : Scope) (sig : Signature) : Expr τ → Ty → Prop where
  | lit (tag : τ) (value : Literal) : HasType s sig (.lit tag value) value.ty
  | var (tag : τ) {name : String} {ty : Ty} (h : sig.typeOf? name = some ty) :
      HasType s sig (.var tag name) ty
  | neg (tag : τ) {operand : Expr τ} (h : HasType s sig operand .int) :
      HasType s sig (.neg tag operand) .int
  | binary (tag : τ) {op : BinOp} {lhs rhs : Expr τ} {a b ty : Ty} (hl : HasType s sig lhs a)
      (hr : HasType s sig rhs b) (h : op.Types a b ty) : HasType s sig (.binary tag op lhs rhs) ty
  | call (tag : τ) {path : Path} {args : List (Expr τ)} {symbol : Symbol Signature}
      (h : s.function? path = some symbol) (fit : Expr.ArgsFit s sig args symbol.decl.params) :
      HasType s sig (.call tag path args) symbol.decl.result
  | ascribed (tag : τ) {ty : Ty} {inner : Expr τ} (h : HasType s sig inner ty) :
      HasType s sig (.ascribed tag ty inner) ty

/-- There is one argument for each parameter, and each is a value that fits. -/
inductive Expr.ArgsFit (s : Scope) (sig : Signature) : List (Expr τ) → List Param → Prop where
  | nil : ArgsFit s sig [] []
  | cons {arg : Expr τ} {args : List (Expr τ)} {param : Param} {params : List Param} {ty : Ty}
      (h : Expr.HasType s sig arg ty) (value : ty ≠ .void)
      (fits : ty = param.ty ∨ ty = .any ∨ param.ty = .any) (rest : ArgsFit s sig args params) :
      ArgsFit s sig (arg :: args) (param :: params)

end

mutual

/-- The well-typed statements of a function of signature `sig`. -/
inductive Stmt.WellTyped (s : Scope) (sig : Signature) : Stmt τ → Prop where
  | branch (tag : τ) {test : Expr τ} {thn els : List (Stmt τ)} (h : test.HasType s sig .bool)
      (hthn : Stmt.AllWellTyped s sig thn) (hels : Stmt.AllWellTyped s sig els) :
      WellTyped s sig (.branch tag test thn els)
  | loop (tag : τ) {test : Expr τ} {body : List (Stmt τ)} (h : test.HasType s sig .bool)
      (hbody : Stmt.AllWellTyped s sig body) : WellTyped s sig (.loop tag test body)
  | effect (tag : τ) {value : Expr τ} {ty : Ty} (h : value.HasType s sig ty) :
      WellTyped s sig (.effect tag value)
  | ret (tag : τ) {value : Expr τ} {ty : Ty} (h : value.HasType s sig ty)
      (fits : ty = sig.result ∨ ty = .any ∨ sig.result = .any)
      (nothing : ty = .void → sig.result = .void) : WellTyped s sig (.ret tag (some value))
  | bareRet (tag : τ) (h : sig.result = .void ∨ sig.result = .any) :
      WellTyped s sig (.ret tag none)

inductive Stmt.AllWellTyped (s : Scope) (sig : Signature) : List (Stmt τ) → Prop where
  | nil : AllWellTyped s sig []
  | cons {st : Stmt τ} {sts : List (Stmt τ)} (h : Stmt.WellTyped s sig st)
      (rest : AllWellTyped s sig sts) : AllWellTyped s sig (st :: sts)

end

theorem BinOp.resultType_eq_ok_iff {op : BinOp} {a b ty : Ty} :
    op.resultType a b = .ok ty ↔ op.Types a b ty := by
  constructor
  · intro h
    cases op with
    | arith op =>
      cases a <;> cases b <;> cases h
      exact .arith op
    | compare op =>
      cases he : op.isEquality with
      | false =>
        simp only [resultType, he, Bool.false_eq_true, if_false] at h
        cases a <;> cases b <;> cases h
        exact .order op he
      | true =>
        simp only [resultType, he, if_true] at h
        cases a <;> cases b <;> cases h <;> exact .equality op he (by simp) (by simp) (by simp)
  · intro h
    cases h with
    | arith op => rfl
    | order op he => simp [resultType, he, OperandMismatch.requireExact, bind, Except.bind, pure,
        Except.pure]
    | equality op he ha hb fits =>
      have hf : b.fits a := by simp only [Ty.fits_iff]; grind
      simp [resultType, he, OperandMismatch.requireValue, OperandMismatch.requireFit, ha, hb, hf,
        bind, Except.bind, pure, Except.pure]

variable {s : Scope} {sig : Signature}

theorem Expr.ArgsFit.length_eq {args : List (Expr τ)} {params : List Param} :
    ArgsFit s sig args params → args.length = params.length
  | .nil => rfl
  | .cons _ _ _ rest => by simp [rest.length_eq]

variable [Located τ]

namespace Expr

mutual

/-- The type found for an expression is the one the rules give it. -/
theorem infer_eq_ok_iff : ∀ (e : Expr τ) (ty : Ty), e.infer s sig = .ok ty ↔ e.HasType s sig ty
  | bareCall _ name _, ty => by
    simp only [infer, reduceCtorEq, false_iff]
    rintro ⟨⟩
  | call tag path args, ty => by
    rw [infer]
    constructor
    · intro h
      split at h
      · cases h
      · next symbol hs =>
        simp only at h
        split at h
        · next hlen =>
          obtain ⟨⟨⟩, hargs, hty⟩ := Outcome.bind_eq_ok.1 h
          cases hty
          exact .call tag hs ((inferArgs_eq_ok_iff path args _ 1 hlen).1 hargs)
        · cases h
    · intro h
      cases h with
      | call _ hs fit =>
        have hargs := (inferArgs_eq_ok_iff path args _ 1 fit.length_eq).2 fit
        simp [hs, fit.length_eq, hargs, bind, Except.bind, pure, Except.pure]
  | binary tag op lhs rhs, ty => by
    simp only [infer, Outcome.bind_eq_ok, Outcome.mapError_eq_ok, BinOp.resultType_eq_ok_iff,
      infer_eq_ok_iff lhs, infer_eq_ok_iff rhs]
    constructor
    · rintro ⟨a, hl, b, hr, h⟩
      exact .binary tag hl hr h
    · rintro ⟨⟩
      exact ⟨_, ‹_›, _, ‹_›, ‹_›⟩
  | neg tag operand, ty => by
    simp only [infer, Outcome.bind_eq_ok, infer_eq_ok_iff operand]
    constructor
    · rintro ⟨a, h, hty⟩
      split at hty <;> cases hty
      next ha => exact .neg tag (ha ▸ h)
    · rintro ⟨⟩
      exact ⟨.int, ‹_›, rfl⟩
  | ascribed tag ty' inner, ty => by
    simp only [infer, Outcome.bind_eq_ok, infer_eq_ok_iff inner]
    constructor
    · rintro ⟨a, h, hty⟩
      split at hty <;> cases hty
      next ha => exact .ascribed tag (ha ▸ h)
    · rintro ⟨⟩
      exact ⟨ty', ‹_›, by simp [pure, Except.pure]⟩
  | lit tag value, ty => by
    simp only [infer, Except.ok.injEq]
    constructor
    · rintro rfl
      exact .lit tag value
    · rintro ⟨⟩
      rfl
  | var tag name, ty => by
    rw [infer]
    constructor
    · intro h
      split at h <;> cases h
      exact .var tag ‹_›
    · rintro ⟨⟩
      simp_all

theorem inferArgs_eq_ok_iff (callee : Path) : ∀ (args : List (Expr τ)) (params : List Param)
    (index : Nat), args.length = params.length →
    (inferArgs s sig callee index args params = .ok () ↔ ArgsFit s sig args params)
  | [], [], _, _ => by
    simpa [inferArgs] using ArgsFit.nil
  | arg :: args, param :: params, index, hlen => by
    have ih := inferArgs_eq_ok_iff callee args params (index + 1) (by simpa using hlen)
    simp only [inferArgs, Outcome.bind_eq_ok, infer_eq_ok_iff arg]
    constructor
    · rintro ⟨ty, h, hrest⟩
      split at hrest
      · next hfit => exact .cons h hfit.1 (Ty.fits_iff.1 hfit.2) (ih.1 hrest)
      · cases hrest
    · intro h
      cases h with
      | cons h value fits rest =>
        refine ⟨_, h, ?_⟩
        rw [if_pos ⟨value, Ty.fits_iff.2 fits⟩]
        exact ih.2 rest

end

theorem checkTest_eq_ok_iff {construct : Construct} {test : Expr τ} :
    test.checkTest s sig construct = .ok () ↔ test.HasType s sig .bool := by
  simp only [checkTest, Outcome.bind_eq_ok, infer_eq_ok_iff]
  constructor
  · rintro ⟨ty, h, hty⟩
    split at hty
    · next ht => exact ht ▸ h
    · cases hty
  · exact fun h => ⟨.bool, h, rfl⟩

end Expr

theorem Ty.returnable_iff {result actual : Ty} :
    result.returnable actual ↔
      (actual = result ∨ actual = .any ∨ result = .any) ∧ (actual = .void → result = .void) := by
  cases result <;> cases actual <;> decide

namespace Stmt

mutual

theorem check_eq_ok_iff : ∀ st : Stmt τ, st.check s sig = .ok () ↔ st.WellTyped s sig
  | branch tag test thn els => by
    simp only [check, Outcome.bind_eq_ok, checkAll_eq_ok_iff thn, checkAll_eq_ok_iff els]
    constructor
    · rintro ⟨⟨⟩, h, ⟨⟩, hthn, hels⟩
      exact .branch tag (Expr.checkTest_eq_ok_iff.1 h) hthn hels
    · rintro ⟨⟩
      exact ⟨(), Expr.checkTest_eq_ok_iff.2 ‹_›, (), ‹_›, ‹_›⟩
  | loop tag test body => by
    simp only [check, Outcome.bind_eq_ok, checkAll_eq_ok_iff body]
    constructor
    · rintro ⟨⟨⟩, h, hbody⟩
      exact .loop tag (Expr.checkTest_eq_ok_iff.1 h) hbody
    · rintro ⟨⟩
      exact ⟨(), Expr.checkTest_eq_ok_iff.2 ‹_›, ‹_›⟩
  | effect tag value => by
    simp only [check, Outcome.bind_eq_ok, Expr.infer_eq_ok_iff]
    constructor
    · rintro ⟨ty, h, -⟩
      exact .effect tag h
    · rintro ⟨⟩
      exact ⟨_, ‹_›, rfl⟩
  | ret tag (some value) => by
    simp only [check, Outcome.bind_eq_ok, Expr.infer_eq_ok_iff]
    constructor
    · rintro ⟨ty, h, hty⟩
      split at hty
      · next hr =>
        obtain ⟨fits, nothing⟩ := Ty.returnable_iff.1 hr
        exact .ret tag h fits nothing
      · cases hty
    · intro h
      cases h with
      | ret _ h fits nothing =>
        refine ⟨_, h, ?_⟩
        rw [if_pos (Ty.returnable_iff.2 ⟨fits, nothing⟩)]
        rfl
  | ret tag none => by
    have hfits : Ty.void.fits sig.result ↔ sig.result = .void ∨ sig.result = .any := by
      cases sig.result <;> decide
    rw [check]
    constructor
    · intro h
      split at h
      · next hf => exact .bareRet tag (hfits.1 hf)
      · cases h
    · intro h
      cases h with
      | bareRet _ h => rw [if_pos (hfits.2 h)]

theorem checkAll_eq_ok_iff : ∀ sts : List (Stmt τ),
    checkAll s sig sts = .ok () ↔ AllWellTyped s sig sts
  | [] => by
    simpa [checkAll] using AllWellTyped.nil
  | st :: sts => by
    simp only [checkAll, Outcome.bind_eq_ok, check_eq_ok_iff st, checkAll_eq_ok_iff sts]
    constructor
    · rintro ⟨⟨⟩, h, rest⟩
      exact .cons h rest
    · rintro ⟨⟩
      exact ⟨(), ‹_›, ‹_›⟩

end

end Stmt

end BlockCompiler
