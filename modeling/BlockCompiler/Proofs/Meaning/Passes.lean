import BlockCompiler.Proofs.Meaning.Source
import BlockCompiler.Proofs.Naming

/-!
# Passes keep the meaning

Neither resolution nor the addition of types changes what an expression evaluates to, and so neither
changes how a body runs.
-/

namespace BlockCompiler

open Target

variable {w : Width} {P : Type} {τ : Type} {a : Activation w P}

namespace Expr

private theorem headType?_plain (s : Scope) (sig : Signature) : ∀ e : Expr τ,
    e.plain.headType? s sig = e.headType? s sig
  | bareCall .. | call .. | neg .. | lit .. | var .. => rfl
  | binary _ (.arith _) _ _ | binary _ (.compare _) _ _ => rfl
  | ascribed _ _ inner => by
    rw [plain, headType?_plain s sig inner, headType?]

/-- The type of a well-typed expression can be read off its head. -/
theorem HasType.headType?_eq {s : Scope} {sig : Signature} {ty : Ty} : ∀ {e : Expr τ},
    e.HasType s sig ty → e.headType? s sig = some ty
  | .ascribed .., h => by
    cases h with
    | ascribed _ h => exact h.headType?_eq
  | .lit .., h => by
    cases h
    rfl
  | .var .., h => by
    cases h with
    | var _ h => exact h
  | .neg .., h => by
    cases h
    rfl
  | .binary .., h => by
    cases h with
    | binary _ _ _ h => cases h <;> rfl
  | .call .., h => by
    cases h with
    | call _ h _ => simp [headType?, h]
  | .bareCall .., h => by
    cases h

/-- Two expressions that cannot be told apart by running them. -/
structure SameMeaning [DecidableEq P] (a : Activation w P) (e e' : Expr τ) : Prop where
  eval : e'.eval a = e.eval a
  headType? : e'.headType? a.scope a.signature = e.headType? a.scope a.signature

namespace SameMeaning

variable [DecidableEq P] {e e' e'' : Expr τ}

private theorem symm (h : SameMeaning a e e') : SameMeaning a e' e :=
  ⟨h.eval.symm, h.headType?.symm⟩

private theorem deliver (h : SameMeaning a e e') : e'.deliver a = e.deliver a := by
  funext dest v
  rw [Expr.deliver, Expr.deliver, h.headType?]

private theorem evalReturn (h : SameMeaning a e e') : e'.evalReturn a = e.evalReturn a := by
  rw [Expr.evalReturn, Expr.evalReturn, h.eval, h.deliver]

end SameMeaning

variable [DecidableEq P]

mutual

private theorem eval_plain (a : Activation w P) : ∀ e : Expr τ, e.plain.eval a = e.eval a
  | bareCall _ _ args => by
    rw [plain, eval, eval, evalArgs_plainAll a args]
  | call _ _ args => by
    rw [plain, eval, eval, evalArgs_plainAll a args]
  | binary _ _ lhs rhs => by
    rw [plain, eval, eval, eval_plain a lhs, eval_plain a rhs, headType?_plain, headType?_plain]
  | neg _ operand => by
    rw [plain, eval, eval, eval_plain a operand]
  | ascribed _ _ inner => by
    rw [plain, eval_plain a inner, eval]
  | lit .. | var .. => rfl

private theorem evalArgs_plainAll (a : Activation w P) : ∀ args : List (Expr τ),
    evalArgs a (plainAll args) = evalArgs a args
  | [] => rfl
  | arg :: args => by
    funext params
    cases params with
    | nil => rw [plainAll, evalArgs, evalArgs] <;> simp
    | cons param params =>
      have hd : arg.plain.deliver a = arg.deliver a := by
        funext dest v
        rw [deliver, deliver, headType?_plain]
      rw [plainAll, evalArgs, evalArgs, eval_plain a arg, evalArgs_plainAll a args, hd]

end

/-- Ascriptions mean nothing. -/
private theorem sameMeaning_of_plain_eq {e e' : Expr τ} (h : e'.plain = e.plain) :
    SameMeaning a e e' where
  eval := by
    rw [← eval_plain a e', h, eval_plain]
  headType? := by
    rw [← headType?_plain _ _ e', h, headType?_plain]

variable {params : List Param}

mutual

/-- An expression means the same once its names are resolved. -/
private theorem Resolves.sameMeaning {e e' : Expr τ} :
    Resolves a.scope params e e' → SameMeaning a e e'
  | @Resolves.bareCall _ _ _ _ name path _ _ h hargs => by
    have hsole : a.scope.sole? name = some path := by
      rw [Scope.sole?, h]
    constructor
    · rw [Expr.eval, Expr.eval, hargs.evalArgs_eq, hsole]
      rfl
    · simp [Expr.headType?, hsole]
  | .call _ _ hargs => by
    constructor
    · rw [Expr.eval, Expr.eval, hargs.evalArgs_eq]
    · rfl
  | .binary _ op hl hr => by
    have hl := hl.sameMeaning
    have hr := hr.sameMeaning
    constructor
    · rw [Expr.eval, Expr.eval, hl.eval, hr.eval, hl.headType?, hr.headType?]
    · cases op <;> rfl
  | .neg _ h => by
    constructor
    · rw [Expr.eval, Expr.eval, h.sameMeaning.eval]
    · rfl
  | .ascribed _ _ h => by
    have h := h.sameMeaning
    constructor
    · rw [Expr.eval, Expr.eval, h.eval]
    · rw [Expr.headType?, Expr.headType?, h.headType?]
  | .lit .. | .var .. => ⟨rfl, rfl⟩

private theorem ResolvesAll.evalArgs_eq {args args' : List (Expr τ)} :
    ResolvesAll a.scope params args args' → evalArgs a args' = evalArgs a args
  | .nil => rfl
  | .cons h rest => by
    have h := h.sameMeaning
    funext params
    cases params with
    | nil => rw [evalArgs, evalArgs] <;> simp
    | cons param params => rw [evalArgs, evalArgs, h.eval, h.deliver, rest.evalArgs_eq]

end

end Expr

namespace Stmt

variable [DecidableEq P]

mutual

private theorem Runs.of_rel {st st' : Stmt τ} {h₀ : History w P} {flow : Flow w P} :
    st.Runs a h₀ flow → Rel (Expr.SameMeaning a) st st' → st'.Runs a h₀ flow
  | .effect t h, .effect _ hv => .effect t (hv.eval ▸ h)
  | .effectTraps t h, .effect _ hv => .effectTraps t (hv.eval ▸ h)
  | .bareRet t _, .bareRet _ => .bareRet t _
  | .ret t h, .ret _ hv => .ret t (hv.evalReturn ▸ h)
  | .retTraps t h, .ret _ hv => .retTraps t (hv.evalReturn ▸ h)
  | .branchThen t h arm, .branch _ hv hthn _ => .branchThen t (hv.eval ▸ h) (arm.of_relAll hthn)
  | .branchElse t h arm, .branch _ hv _ hels => .branchElse t (hv.eval ▸ h) (arm.of_relAll hels)
  | .branchTraps t h, .branch _ hv _ _ => .branchTraps t (hv.eval ▸ h)
  | .loopExit t h, .loop _ hv _ => .loopExit t (hv.eval ▸ h)
  | .loopAgain t h round again, .loop _ hv hbody =>
    .loopAgain t (hv.eval ▸ h) (round.of_relAll hbody) (again.of_rel (.loop t hv hbody))
  | .loopEnded t h round, .loop _ hv hbody =>
    .loopEnded t (hv.eval ▸ h) (round.of_relAll hbody)
  | .loopTraps t h, .loop _ hv _ => .loopTraps t (hv.eval ▸ h)

private theorem RunsAll.of_relAll {sts sts' : List (Stmt τ)} {h₀ : History w P} {flow : Flow w P} :
    RunsAll a sts h₀ flow → RelAll (Expr.SameMeaning a) sts sts' → RunsAll a sts' h₀ flow
  | .nil h₀, .nil => .nil h₀
  | .cons h rest, .cons hr hrest => .cons (h.of_rel hr) (rest.of_relAll hrest)
  | .ended h, .cons hr _ => .ended (h.of_rel hr)

end

private theorem RelAll.runsAll_iff {sts sts' : List (Stmt τ)} {h₀ : History w P} {flow : Flow w P}
    (h : RelAll (Expr.SameMeaning a) sts sts') : RunsAll a sts' h₀ flow ↔ RunsAll a sts h₀ flow :=
  ⟨fun hr => hr.of_relAll (h.symm fun _ _ => Expr.SameMeaning.symm), fun hr => hr.of_relAll h⟩

/-- A body runs the same before and after resolution and the addition of types. -/
theorem runsAll_iff_of_passes [Located τ] {params : List Param} {body resolved typed : List (Stmt τ)}
    {h₀ : History w P} {flow : Flow w P}
    (hresolve : (resolveAll a.scope params body).outcome = .ok resolved)
    (htyped : SamePlainAll resolved typed) :
    RunsAll a typed h₀ flow ↔ RunsAll a body h₀ flow := by
  have hr := (relAll_of_resolveAll hresolve).imp fun _ _ h =>
    (Expr.resolve_eq_ok_iff.1 h).sameMeaning (a := a)
  have ht := htyped.imp fun _ _ => Expr.sameMeaning_of_plain_eq (a := a)
  rw [ht.runsAll_iff, hr.runsAll_iff]

end Stmt

end BlockCompiler
