import BlockCompiler.Proofs.Nodes
import BlockCompiler.Proofs.Stages

/-!
# What type errors tell

A program that does not check has a first function that does not. Its error is that of one rule, which
is broken by the declaration of the function, by a statement in its body or by a node of an expression
there, and it is reported where this rule finds the wrong type.
-/

namespace BlockCompiler

variable {τ : Type} {s : Scope} {sig : Signature} {err : CheckError}

theorem Ty.ne_of_not_fits {a b : Ty} (h : a.fits b = false) : a ≠ b := by
  rintro rfl
  simp [fits] at h

/-- What stands on the given side of an operator. -/
def Side.pick {α : Type} (lhs rhs : α) : Side → α
  | .lhs => lhs
  | .rhs => rhs

namespace OperandMismatch

variable {side : Side} {expected actual : Ty} {m : OperandMismatch}

private theorem requireExact_eq_error_iff : requireExact side expected actual = .error m ↔
    actual ≠ expected ∧ m = ⟨side, expected, actual⟩ := by
  unfold requireExact
  split
  · next h => simp [h]
  · next h => simp [h, eq_comm (a := m)]

private theorem requireValue_eq_error_iff : requireValue side actual = .error m ↔
    actual = .void ∧ m = ⟨side, .any, actual⟩ := by
  unfold requireValue
  split
  · next h => simp [h, eq_comm (a := m)]
  · next h => simp [h]

private theorem requireFit_eq_error_iff : requireFit side expected actual = .error m ↔
    actual.fits expected = false ∧ m = ⟨side, expected, actual⟩ := by
  unfold requireFit
  split
  · next h => simp [h]
  · next h => simp [h, eq_comm (a := m)]

end OperandMismatch

open OperandMismatch in
/-- The operand that an operator refuses has the type that is reported, and another was expected. -/
theorem BinOp.of_resultType_error {op : BinOp} {a b : Ty} {m : OperandMismatch}
    (h : op.resultType a b = .error m) : m.actual = m.side.pick a b ∧ m.expected ≠ m.actual := by
  cases op with
  | arith =>
    simp only [resultType, Outcome.bind_eq_error, requireExact_eq_error_iff] at h
    rcases h with ⟨hne, rfl⟩ | ⟨_, _, ⟨hne, rfl⟩ | ⟨_, _, h⟩⟩
    · exact ⟨rfl, hne.symm⟩
    · exact ⟨rfl, hne.symm⟩
    · cases h
  | compare op =>
    cases he : op.isEquality with
    | false =>
      simp only [resultType, he, Bool.false_eq_true, if_false, Outcome.bind_eq_error,
        requireExact_eq_error_iff] at h
      rcases h with ⟨hne, rfl⟩ | ⟨_, _, ⟨hne, rfl⟩ | ⟨_, _, h⟩⟩
      · exact ⟨rfl, hne.symm⟩
      · exact ⟨rfl, hne.symm⟩
      · cases h
    | true =>
      simp only [resultType, he, if_true, Outcome.bind_eq_error, requireValue_eq_error_iff,
        requireFit_eq_error_iff] at h
      rcases h with ⟨rfl, rfl⟩ | ⟨_, _, ⟨rfl, rfl⟩ | ⟨_, _, ⟨hno, rfl⟩ | ⟨_, _, h⟩⟩⟩
      · exact ⟨rfl, by simp⟩
      · exact ⟨rfl, by simp⟩
      · exact ⟨rfl, (Ty.ne_of_not_fits hno).symm⟩
      · cases h

namespace Stmt

mutual

/-- A statement with the statements in its blocks, dead ones too. -/
def parts : Stmt τ → List (Stmt τ)
  | branch tag test thn els => branch tag test thn els :: (partsAll thn ++ partsAll els)
  | loop tag test body => loop tag test body :: partsAll body
  | effect tag value => [effect tag value]
  | ret tag value => [ret tag value]

def partsAll : List (Stmt τ) → List (Stmt τ)
  | [] => []
  | st :: sts => st.parts ++ partsAll sts

end

mutual

/-- The expressions of a statement within another are expressions of the other. -/
private theorem exprs_subset {part : Stmt τ} :
    ∀ {st : Stmt τ}, part ∈ st.parts → part.exprs ⊆ st.exprs
  | branch tag test thn els, h => by
    rcases List.mem_cons.1 h with rfl | h
    · exact List.Subset.refl _
    · refine List.subset_cons_of_subset _ ?_
      rcases List.mem_append.1 h with h | h
      · exact List.subset_append_of_subset_left _ (exprs_subset_all h)
      · exact List.subset_append_of_subset_right _ (exprs_subset_all h)
  | loop tag test body, h => by
    rcases List.mem_cons.1 h with rfl | h
    · exact List.Subset.refl _
    · exact List.subset_cons_of_subset _ (exprs_subset_all h)
  | effect .., h | ret .., h => by
    cases List.mem_singleton.1 h
    exact List.Subset.refl _

private theorem exprs_subset_all {part : Stmt τ} : ∀ {sts : List (Stmt τ)}, part ∈ partsAll sts →
    part.exprs ⊆ exprsAll sts
  | [], h => by
    cases h
  | st :: sts, h => by
    rcases List.mem_append.1 h with h | h
    · exact List.subset_append_of_subset_left _ (exprs_subset h)
    · exact List.subset_append_of_subset_right _ (exprs_subset_all h)

end

end Stmt

variable [Located τ]

/-- `node.Breaks s sig err`: the node itself breaks a rule, as `err` tells. Its parts, as far as the
rule asks for their types, have one. -/
inductive Expr.Breaks (s : Scope) (sig : Signature) : Expr τ → CheckError → Prop where
  | operand (tag : τ) {op : BinOp} {lhs rhs : Expr τ} {a b : Ty} {m : OperandMismatch}
      (hl : lhs.HasType s sig a) (hr : rhs.HasType s sig b) (h : op.resultType a b = .error m) :
      Breaks s sig (.binary tag op lhs rhs)
        (.mismatch (.operand op) m.expected m.actual (m.side.pick lhs rhs).span?)
  | negated (tag : τ) {operand : Expr τ} {ty : Ty} (h : operand.HasType s sig ty) (hno : ty ≠ .int) :
      Breaks s sig (.neg tag operand) (.mismatch .negated .int ty operand.span?)
  | arity (tag : τ) {path : Path} {args : List (Expr τ)} {symbol : Symbol Signature}
      (hs : s.function? path = some symbol) (hno : args.length ≠ symbol.decl.params.length) :
      Breaks s sig (.call tag path args)
        (.arity path symbol.decl.params.length args.length (Located.span? tag))
  | argument (tag : τ) {path : Path} {args : List (Expr τ)} {symbol : Symbol Signature} {i : Nat}
      {arg : Expr τ} {param : Param} {ty : Ty} (hs : s.function? path = some symbol)
      (ha : args[i]? = some arg) (hp : symbol.decl.params[i]? = some param)
      (h : arg.HasType s sig ty) (hno : ty = .void ∨ ty.fits param.ty = false) :
      Breaks s sig (.call tag path args)
        (.mismatch (.argument (i + 1) path) param.ty ty arg.span?)
  | bareCall (tag : τ) (name : String) (args : List (Expr τ)) :
      Breaks s sig (.bareCall tag name args) (.fault (.bareCall name))
  | missingCallee (tag : τ) {path : Path} (args : List (Expr τ)) (h : s.function? path = none) :
      Breaks s sig (.call tag path args) (.fault (.missingCallee path))
  | wrongAscription (tag : τ) {ty ty' : Ty} {inner : Expr τ} (h : inner.HasType s sig ty')
      (hno : ty' ≠ ty) :
      Breaks s sig (.ascribed tag ty inner) (.fault (.wrongAscription inner.untagged ty ty'))
  | unboundVariable (tag : τ) {name : String} (h : sig.typeOf? name = none) :
      Breaks s sig (.var tag name) (.fault (.unboundVariable name))

namespace Expr

private theorem operandError_eq (op : BinOp) (lhs rhs : Expr τ) (m : OperandMismatch) :
    operandError op lhs rhs m =
      .mismatch (.operand op) m.expected m.actual (m.side.pick lhs rhs).span? := by
  unfold operandError
  cases m.side <;> rfl

mutual

/-- An expression for which no type is found has a node that breaks a rule. -/
theorem exists_breaks_of_infer : ∀ {e : Expr τ}, e.infer s sig = .error err →
    ∃ node ∈ e.nodes, node.Breaks s sig err
  | bareCall tag name args, h => by
    cases h
    exact ⟨_, List.mem_cons_self, .bareCall tag name args⟩
  | call tag path args, h => by
    rw [infer] at h
    rw [nodes, List.exists_mem_cons_iff]
    split at h
    · next hs =>
      cases h
      exact .inl (.missingCallee tag args hs)
    · next symbol hs =>
      simp only at h
      split at h
      · rcases Outcome.bind_eq_error.1 h with h | ⟨_, _, h⟩
        · rcases exists_of_inferArgs h with h | ⟨i, arg, param, ty, ha, hp, ht, hno, rfl⟩
          · exact .inr h
          · exact .inl (.argument tag hs ha hp ht hno)
        · cases h
      · next hlen =>
        cases h
        exact .inl (.arity tag hs hlen)
  | binary tag op lhs rhs, h => by
    rw [infer, Outcome.bind_eq_error] at h
    simp only [nodes, List.exists_mem_cons_iff, List.mem_append, or_and_right, exists_or]
    rcases h with h | ⟨a, hl, h⟩
    · exact .inr (.inl (exists_breaks_of_infer h))
    · rcases Outcome.bind_eq_error.1 h with h | ⟨b, hr, h⟩
      · exact .inr (.inr (exists_breaks_of_infer h))
      · obtain ⟨m, hm, rfl⟩ := Outcome.mapError_eq_error.1 h
        rw [operandError_eq]
        exact .inl (.operand tag ((infer_eq_ok_iff _ _).1 hl) ((infer_eq_ok_iff _ _).1 hr) hm)
  | neg tag operand, h => by
    rw [infer, Outcome.bind_eq_error] at h
    rw [nodes, List.exists_mem_cons_iff]
    rcases h with h | ⟨ty, ht, h⟩
    · exact .inr (exists_breaks_of_infer h)
    · split at h <;> cases h
      next hno => exact .inl (.negated tag ((infer_eq_ok_iff _ _).1 ht) hno)
  | ascribed tag ty inner, h => by
    rw [infer, Outcome.bind_eq_error] at h
    rw [nodes, List.exists_mem_cons_iff]
    rcases h with h | ⟨ty', ht, h⟩
    · exact .inr (exists_breaks_of_infer h)
    · split at h <;> cases h
      next hno => exact .inl (.wrongAscription tag ((infer_eq_ok_iff _ _).1 ht) hno)
  | lit .., h => by
    cases h
  | var tag name, h => by
    rw [infer] at h
    split at h <;> cases h
    next hno => exact ⟨_, List.mem_singleton.2 rfl, .unboundVariable tag hno⟩

/-- Of arguments that are refused, one has a node that breaks a rule, or else one does not fit its
parameter. -/
private theorem exists_of_inferArgs : ∀ {args : List (Expr τ)} {params : List Param} {callee : Path}
    {index : Nat}, inferArgs s sig callee index args params = .error err →
    (∃ node ∈ nodesAll args, node.Breaks s sig err) ∨
    ∃ (i : Nat) (arg : Expr τ) (param : Param) (ty : Ty), args[i]? = some arg ∧
      params[i]? = some param ∧ arg.HasType s sig ty ∧ (ty = .void ∨ ty.fits param.ty = false) ∧
      err = .mismatch (.argument (i + index) callee) param.ty ty arg.span?
  | [], _, _, _, h | _ :: _, [], _, _, h => by
    simp [inferArgs] at h
  | arg :: args, param :: params, callee, index, h => by
    rw [inferArgs, Outcome.bind_eq_error] at h
    rw [nodesAll]
    rcases h with h | ⟨ty, ht, h⟩
    · obtain ⟨node, hnode, hb⟩ := exists_breaks_of_infer h
      exact .inl ⟨node, List.mem_append_left _ hnode, hb⟩
    · split at h
      · rcases exists_of_inferArgs h with
          ⟨node, hnode, hb⟩ | ⟨i, arg', param', ty', ha, hp, ht', hno, rfl⟩
        · exact .inl ⟨node, List.mem_append_right _ hnode, hb⟩
        · rw [← Nat.add_assoc, Nat.add_right_comm]
          exact .inr ⟨i + 1, arg', param', ty', ha, hp, ht', hno, rfl⟩
      · next hno =>
        cases h
        refine .inr ⟨0, arg, param, ty, rfl, rfl, (infer_eq_ok_iff _ _).1 ht, ?_, by rw [Nat.zero_add]⟩
        rwa [not_and_or, not_not, Bool.not_eq_true] at hno

end

private theorem of_checkTest_error {construct : Construct} {test : Expr τ}
    (h : test.checkTest s sig construct = .error err) :
    test.infer s sig = .error err ∨
    ∃ ty, test.HasType s sig ty ∧ ty ≠ .bool ∧ err = .mismatch construct .bool ty test.span? := by
  rw [checkTest, Outcome.bind_eq_error] at h
  rcases h with h | ⟨ty, ht, h⟩
  · exact .inl h
  · split at h <;> cases h
    next hno => exact .inr ⟨ty, (infer_eq_ok_iff _ _).1 ht, hno, rfl⟩

end Expr

namespace Stmt

/-- `st.Breaks s sig err`: the statement itself breaks a rule, as `err` tells. Its expressions, as far
as the rule asks for their types, have one. -/
inductive Breaks (s : Scope) (sig : Signature) : Stmt τ → CheckError → Prop where
  | branchTest (tag : τ) {test : Expr τ} (thn els : List (Stmt τ)) {ty : Ty}
      (h : test.HasType s sig ty) (hno : ty ≠ .bool) :
      Breaks s sig (.branch tag test thn els) (.mismatch .branchTest .bool ty test.span?)
  | loopTest (tag : τ) {test : Expr τ} (body : List (Stmt τ)) {ty : Ty} (h : test.HasType s sig ty)
      (hno : ty ≠ .bool) :
      Breaks s sig (.loop tag test body) (.mismatch .loopTest .bool ty test.span?)
  | returnValue (tag : τ) {value : Expr τ} {ty : Ty} (h : value.HasType s sig ty)
      (hno : sig.result.returnable ty = false) :
      Breaks s sig (.ret tag (some value)) (.mismatch .returnValue sig.result ty value.span?)
  | bareReturn (tag : τ) (hno : Ty.void.fits sig.result = false) :
      Breaks s sig (.ret tag none) (.mismatch .bareReturn sig.result .void (Located.span? tag))

/-- One of the statements breaks a rule, or for one of the expressions no type is found. -/
def BrokenIn (s : Scope) (sig : Signature) (err : CheckError) (sts : List (Stmt τ))
    (es : List (Expr τ)) : Prop :=
  (∃ st ∈ sts, st.Breaks s sig err) ∨ ∃ e ∈ es, e.infer s sig = .error err

private theorem BrokenIn.mono {sts sts' : List (Stmt τ)} {es es' : List (Expr τ)}
    (h : BrokenIn s sig err sts es) (hsts : sts ⊆ sts') (hes : es ⊆ es') :
    BrokenIn s sig err sts' es' := by
  rcases h with ⟨st, hst, hb⟩ | ⟨e, he, h⟩
  · exact .inl ⟨st, hsts hst, hb⟩
  · exact .inr ⟨e, hes he, h⟩

mutual

/-- In a statement that does not check, a rule is broken. -/
private theorem brokenIn_of_check : ∀ {st : Stmt τ}, st.check s sig = .error err →
    BrokenIn s sig err st.parts st.exprs
  | branch tag test thn els, h => by
    rw [check, Outcome.bind_eq_error] at h
    rw [parts, exprs]
    rcases h with h | ⟨_, _, h⟩
    · rcases Expr.of_checkTest_error h with h | ⟨ty, ht, hno, rfl⟩
      · exact .inr ⟨test, List.mem_cons_self, h⟩
      · exact .inl ⟨_, List.mem_cons_self, .branchTest tag thn els ht hno⟩
    · rcases Outcome.bind_eq_error.1 h with h | ⟨_, _, h⟩
      · exact (brokenIn_of_checkAll h).mono (by simp) (by simp)
      · exact (brokenIn_of_checkAll h).mono (by simp) (by simp)
  | loop tag test body, h => by
    rw [check, Outcome.bind_eq_error] at h
    rw [parts, exprs]
    rcases h with h | ⟨_, _, h⟩
    · rcases Expr.of_checkTest_error h with h | ⟨ty, ht, hno, rfl⟩
      · exact .inr ⟨test, List.mem_cons_self, h⟩
      · exact .inl ⟨_, List.mem_cons_self, .loopTest tag body ht hno⟩
    · exact (brokenIn_of_checkAll h).mono (by simp) (by simp)
  | effect tag value, h => by
    rw [check, Outcome.bind_eq_error] at h
    rcases h with h | ⟨_, _, h⟩
    · exact .inr ⟨value, List.mem_singleton.2 rfl, h⟩
    · cases h
  | ret tag (some value), h => by
    rw [check, Outcome.bind_eq_error] at h
    rcases h with h | ⟨ty, ht, h⟩
    · exact .inr ⟨value, List.mem_singleton.2 rfl, h⟩
    · split at h <;> cases h
      next hno =>
        exact .inl ⟨_, List.mem_singleton.2 rfl,
          .returnValue tag ((Expr.infer_eq_ok_iff _ _).1 ht) (by simpa using hno)⟩
  | ret tag none, h => by
    rw [check] at h
    split at h <;> cases h
    next hno => exact .inl ⟨_, List.mem_singleton.2 rfl, .bareReturn tag (by simpa using hno)⟩

private theorem brokenIn_of_checkAll : ∀ {sts : List (Stmt τ)}, checkAll s sig sts = .error err →
    BrokenIn s sig err (partsAll sts) (exprsAll sts)
  | [], h => by
    cases h
  | st :: sts, h => by
    rw [checkAll, Outcome.bind_eq_error] at h
    rw [partsAll, exprsAll]
    rcases h with h | ⟨_, _, h⟩
    · exact (brokenIn_of_check h).mono (by simp) (by simp)
    · exact (brokenIn_of_checkAll h).mono (by simp) (by simp)

end

end Stmt

/-- `f.Breaks s tag err`: the function that is declared under `tag` breaks a rule. It takes a parameter
of type `Void`, the first of which is reported, or else a rule is broken in its body. -/
inductive Func.Breaks (s : Scope) (tag : τ) (f : Func τ) : CheckError → Prop where
  | voidParameter {before after : List Param} {param : Param}
      (h : f.signature.params = before ++ param :: after) (hvoid : param.ty = .void)
      (hbefore : ∀ q ∈ before, q.ty ≠ .void) :
      Breaks s tag f (.voidParameter f.name param.name (Located.span? tag))
  | body {err : CheckError}
      (h : Stmt.BrokenIn s f.signature err (Stmt.partsAll f.body) (Stmt.exprsAll f.body)) :
      Breaks s tag f err

theorem Func.breaks_of_check {tag : τ} {f : Func τ} (h : f.check s tag = .error err) :
    f.Breaks s tag err := by
  unfold check at h
  split at h
  · next param hfind =>
    cases h
    obtain ⟨hvoid, before, after, hparams, hbefore⟩ := List.find?_eq_some_iff_append.1 hfind
    exact .voidParameter hparams (by simpa using hvoid) (by simpa using hbefore)
  · exact .body (Stmt.brokenIn_of_checkAll h)

/-- A program that does not check has a first function that does not, and gives its error. -/
theorem Program.exists_of_check_error {p : Program τ} (h : (p.check s).outcome = .error err) :
    ∃ before tag f after, p.decls = before ++ .function tag f :: after ∧
      (∀ t g, .function t g ∈ before → g.check s t = .ok ()) ∧ f.check s tag = .error err := by
  have hfunc : ∀ {t : τ} {g : Func τ} {r : Except CheckError Unit},
      ((Decl.function t g).check s).outcome = r ↔ g.check s t = r := by
    intro t g r
    rw [Decl.check, Traced.outcome_bind]
    show (g.check s t >>= fun _ => .ok ()) = r ↔ _
    cases g.check s t <;> rfl
  obtain ⟨before, d, after, hdecls, hbefore, h⟩ := Traced.forM_eq_error.1 h
  cases d with
  | type | imports => cases h
  | function tag f =>
    exact ⟨before, tag, f, after, hdecls, fun t g hg => hfunc.1 (hbefore _ hg), hfunc.1 h⟩

section Reported

variable {construct : Construct} {expected actual : Ty} {span? : Option Span}

/-- A mismatch at a node is reported at a part of it, which has the type that is reported. -/
private theorem Expr.Breaks.exists_of_mismatch {node : Expr τ}
    (h : node.Breaks s sig (.mismatch construct expected actual span?)) :
    ∃ part ∈ node.nodes, part.HasType s sig actual ∧ span? = part.span? := by
  cases h with
  | @operand _ op lhs rhs _ _ m hl hr h =>
    rw [(BinOp.of_resultType_error h).1]
    refine ⟨m.side.pick lhs rhs, ?_, ?_, rfl⟩
    · cases m.side <;> simp [Side.pick, nodes, mem_nodes_self]
    · cases m.side
      · exact hl
      · exact hr
  | @negated _ operand _ h => exact ⟨operand, by simp [nodes, mem_nodes_self], h, rfl⟩
  | @argument _ _ _ _ _ arg _ _ _ ha _ h =>
    exact ⟨arg, List.mem_cons_of_mem _ (mem_nodesAll (List.mem_of_getElem? ha)), h, rfl⟩

/-- A mismatch at a statement is reported at one of its expressions, unless it is that nothing is
returned. -/
private theorem Stmt.Breaks.exists_of_mismatch {st : Stmt τ}
    (h : st.Breaks s sig (.mismatch construct expected actual span?)) :
    (∃ e ∈ st.exprs, e.HasType s sig actual ∧ span? = e.span?) ∨
    ∃ t, st = .ret t none ∧ actual = .void ∧ span? = Located.span? t := by
  cases h with
  | @branchTest _ e _ _ _ h | @loopTest _ e _ _ h | @returnValue _ e _ h =>
    exact .inl ⟨e, by simp [exprs], h, rfl⟩
  | bareReturn tag => exact .inr ⟨tag, rfl, rfl, rfl⟩

namespace Func.Breaks

variable {tag : τ} {f : Func τ}

theorem of_mismatch (h : f.Breaks s tag (.mismatch construct expected actual span?)) :
    (∃ node ∈ f.nodes, node.HasType s f.signature actual ∧ span? = node.span?) ∨
    ∃ t, .ret t none ∈ Stmt.partsAll f.body ∧ actual = .void ∧ span? = Located.span? t := by
  cases h with
  | body h =>
    rcases h with ⟨st, hst, hb⟩ | ⟨e, he, h⟩
    · rcases hb.exists_of_mismatch with ⟨e, he, hreported⟩ | ⟨t, rfl, hreported⟩
      · have he := Stmt.exprs_subset_all hst he
        exact .inl ⟨e, List.mem_flatMap.2 ⟨e, he, e.mem_nodes_self⟩, hreported⟩
      · exact .inr ⟨t, hst, hreported⟩
    · obtain ⟨node, hnode, hb⟩ := Expr.exists_breaks_of_infer h
      obtain ⟨part, hpart, hreported⟩ := hb.exists_of_mismatch
      exact .inl ⟨part, List.mem_flatMap.2 ⟨e, he, Expr.nodes_subset hnode hpart⟩, hreported⟩

theorem of_arity {callee : Path} {expected actual : Nat}
    (h : f.Breaks s tag (.arity callee expected actual span?)) :
    ∃ t args symbol, .call t callee args ∈ f.nodes ∧ span? = Located.span? t ∧
      args.length = actual ∧ s.function? callee = some symbol ∧
      symbol.decl.params.length = expected ∧ actual ≠ expected := by
  cases h with
  | body h =>
    rcases h with ⟨_, _, hb⟩ | ⟨e, he, h⟩
    · cases hb
    · obtain ⟨node, hnode, hb⟩ := Expr.exists_breaks_of_infer h
      have hnode : node ∈ f.nodes := List.mem_flatMap.2 ⟨e, he, hnode⟩
      cases hb with
      | arity t hs hno => exact ⟨t, _, _, hnode, rfl, rfl, hs, rfl, hno⟩

theorem of_voidParameter {function name : String}
    (h : f.Breaks s tag (.voidParameter function name span?)) :
    span? = Located.span? tag ∧ function = f.name ∧ ∃ before param after,
      f.signature.params = before ++ param :: after ∧ param.ty = .void ∧ param.name = name ∧
      ∀ q ∈ before, q.ty ≠ .void := by
  cases h with
  | voidParameter h hvoid hbefore => exact ⟨rfl, rfl, _, _, _, h, hvoid, rfl, hbefore⟩
  | body h =>
    rcases h with ⟨_, _, hb⟩ | ⟨_, _, h⟩
    · cases hb
    · obtain ⟨_, _, hb⟩ := Expr.exists_breaks_of_infer h
      cases hb

end Func.Breaks

end Reported

/-- A program that does not check gives the error of its first function that does not. A mismatch is
reported at a node in the body of this function: at an expression of the type that is reported, or at a
bare return, if that type is `Void`. A wrong number of arguments is reported at the call, and a
parameter of type `Void` at the declaration, which has none before it. -/
theorem Program.check_blames {s : Scope} {p : Program Span} {err : CheckError}
    (h : (p.check s).outcome = .error err) :
    ∃ before tag f after, p.decls = before ++ .function tag f :: after ∧
      (∀ t g, .function t g ∈ before → g.check s t = .ok ()) ∧ f.check s tag = .error err ∧
      (∀ construct expected actual span?, err = .mismatch construct expected actual span? →
        (∃ node ∈ f.nodes, node.infer s f.signature = .ok actual ∧ span? = some node.tag) ∨
        ∃ t, .ret t none ∈ Stmt.partsAll f.body ∧ actual = .void ∧ span? = some t) ∧
      (∀ callee expected actual span?, err = .arity callee expected actual span? →
        ∃ t args symbol, .call t callee args ∈ f.nodes ∧ span? = some t ∧ args.length = actual ∧
          s.function? callee = some symbol ∧ symbol.decl.params.length = expected ∧
          actual ≠ expected) ∧
      ∀ function name span?, err = .voidParameter function name span? →
        span? = some tag ∧ function = f.name ∧ ∃ params param params',
          f.signature.params = params ++ param :: params' ∧ param.ty = .void ∧ param.name = name ∧
          ∀ q ∈ params, q.ty ≠ .void := by
  obtain ⟨before, tag, f, after, hdecls, hbefore, hf⟩ := exists_of_check_error h
  have hb := Func.breaks_of_check hf
  refine ⟨before, tag, f, after, hdecls, hbefore, hf, ?_, ?_, ?_⟩
  · rintro construct expected actual span? rfl
    simp only [Expr.infer_eq_ok_iff]
    exact hb.of_mismatch
  · rintro callee expected actual span? rfl
    exact hb.of_arity
  · rintro function name span? rfl
    exact hb.of_voidParameter

/-- The second of two functions adds a string to a number, within a loop. -/
def misadding : Program Span :=
  ⟨.single "m",
    [.function ⟨0, 9⟩ ⟨"f", false, ⟨[], none⟩, []⟩,
     .function ⟨10, 50⟩ ⟨"g", false, ⟨[⟨.bool, "b"⟩], none⟩,
      [.loop ⟨12, 40⟩ (.var ⟨13, 14⟩ "b")
        [.effect ⟨20, 30⟩ (.neg ⟨20, 30⟩
          (.binary ⟨21, 30⟩ (.arith .add) (.lit ⟨21, 22⟩ (.int 1)) (.lit ⟨25, 30⟩ (.str "x"))))]]⟩]⟩

theorem check_blames_misadding :
    (misadding.check (Scope.empty (.single "m"))).outcome =
      .error (.mismatch (.operand (.arith .add)) .int .str (some ⟨25, 30⟩)) ∧
    ∃ f ∈ misadding.functions, ∃ node ∈ f.nodes,
      node.infer (Scope.empty (.single "m")) f.signature = .ok .str ∧ node.tag = ⟨25, 30⟩ := by
  have h : (misadding.check (Scope.empty (.single "m"))).outcome =
      .error (.mismatch (.operand (.arith .add)) .int .str (some ⟨25, 30⟩)) :=
    Outcome.eq_error_of_map (g := fun _ => ()) (by decide +kernel)
  obtain ⟨before, tag, f, after, hdecls, _, _, hmismatch, _⟩ := Program.check_blames h
  have hf : f ∈ misadding.functions :=
    List.mem_filterMap.2 ⟨.function tag f, by rw [hdecls]; simp, rfl⟩
  rcases hmismatch _ _ _ _ rfl with ⟨node, hnode, hty, hspan⟩ | ⟨_, _, hvoid, _⟩
  · exact ⟨h, f, hf, node, hnode, hty, (Option.some.inj hspan).symm⟩
  · cases hvoid

end BlockCompiler
