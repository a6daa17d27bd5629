import BlockCompiler.Proofs.Blame
import BlockCompiler.Proofs.Faults

/-!
# Mismatches

A mismatch tells the type that was expected and the one that was found, and these differ, with one
exception. A call that yields nothing is refused as an argument whatever the parameter, so that it is
refused for a parameter of type `Void` too. This can be seen where such a function is called before the
check of its own declaration is due.
-/

namespace BlockCompiler

open Target

variable {τ : Type} [Located τ] {s : Scope} {sig : Signature} {construct : Construct}
  {expected actual : Ty} {span? : Option Span}

/-- The place asks for `Void`: it is an argument, and the parameter there is of this type. -/
def Construct.AsksForVoid (s : Scope) (construct : Construct) : Prop :=
  ∃ (i : Nat) (callee : Path) (symbol : Symbol Signature) (param : Param),
    construct = .argument (i + 1) callee ∧ s.function? callee = some symbol ∧
      symbol.decl.params[i]? = some param ∧ param.ty = .void

private theorem Expr.Breaks.expected_eq_iff {node : Expr τ}
    (h : node.Breaks s sig (.mismatch construct expected actual span?)) :
    expected = actual ↔ actual = .void ∧ construct.AsksForVoid s := by
  cases h with
  | operand _ _ _ h => simp [Construct.AsksForVoid, (BinOp.of_resultType_error h).2]
  | negated _ _ hno => simp [Construct.AsksForVoid, hno.symm]
  | @argument _ path _ symbol i _ param _ hs _ hp _ hno =>
    constructor
    · intro heq
      rcases hno with hvoid | hno
      · exact ⟨hvoid, i, path, symbol, param, rfl, hs, hp, heq.trans hvoid⟩
      · exact absurd heq.symm (Ty.ne_of_not_fits hno)
    · rintro ⟨hvoid, i', path', symbol', param', hc, hs', hp', hvoid'⟩
      cases hc
      cases hs.symm.trans hs'
      cases hp.symm.trans hp'
      rw [hvoid, hvoid']

/-- What a statement expects is never what it finds. -/
private theorem Stmt.Breaks.expected_eq_iff {st : Stmt τ}
    (h : st.Breaks s sig (.mismatch construct expected actual span?)) :
    expected = actual ↔ actual = .void ∧ construct.AsksForVoid s := by
  cases h with
  | branchTest _ _ _ _ hno | loopTest _ _ _ hno => simp [Construct.AsksForVoid, hno.symm]
  | returnValue _ _ hno =>
    have hne : sig.result ≠ actual := by
      rintro rfl
      simp [Ty.returnable, Ty.fits] at hno
    simp [Construct.AsksForVoid, hne]
  | bareReturn _ hno => simp [Construct.AsksForVoid, (Ty.ne_of_not_fits hno).symm]

theorem Func.Breaks.expected_eq_iff {tag : τ} {f : Func τ}
    (h : f.Breaks s tag (.mismatch construct expected actual span?)) :
    expected = actual ↔ actual = .void ∧ construct.AsksForVoid s := by
  cases h with
  | body h =>
    rcases h with ⟨_, _, hb⟩ | ⟨_, _, h⟩
    · exact hb.expected_eq_iff
    · obtain ⟨_, _, hb⟩ := Expr.exists_breaks_of_infer h
      exact hb.expected_eq_iff

theorem Scope.NoVoidParams.not_asksForVoid (h : s.NoVoidParams) : ¬construct.AsksForVoid s := by
  rintro ⟨i, callee, symbol, param, _, hs, hp, hvoid⟩
  exact h callee symbol hs param (List.mem_of_getElem? hp) hvoid

/-- The types that a mismatch reports are equal only if nothing was passed for a parameter of type
`Void`. So they differ if neither the program nor an import brings in a function with such a
parameter. -/
theorem compile_mismatch_eq_iff {lib : Library} {w : Width} {p : Program τ}
    (h : (compile lib w p).outcome = .error (.check (.mismatch construct expected actual span?))) :
    (expected = actual ↔
      actual = .void ∧ ∃ s, Scope.ofProgram lib p = .ok s ∧ construct.AsksForVoid s) ∧
    (lib.NoVoidParams → (∀ f ∈ p.functions, ∀ param ∈ f.signature.params, param.ty ≠ .void) →
      expected ≠ actual) := by
  cases fails_of_compile h with
  | @check s resolved _ hs hr hcheck =>
    obtain ⟨_, _, f, _, _, _, hf⟩ := Program.exists_of_check_error hcheck
    have hiff := (Func.breaks_of_check hf).expected_eq_iff
    constructor
    · rw [hiff]
      simp [hs]
    · intro hlib hp heq
      exact (Scope.noVoidParams_of_ofProgram hs hlib hp).not_asksForVoid (hiff.1 heq).2

/-- A function that yields nothing is passed to another, which is declared after it and takes a
parameter of type `Void`. -/
def passingNothing : Program Unit :=
  ⟨.single "m",
    [.function () ⟨"f", false, ⟨[], some .void⟩,
      [.effect () (.bareCall () "g" [.bareCall () "f" []])]⟩,
     .function () ⟨"g", false, ⟨[⟨.void, "x"⟩], some .void⟩, []⟩]⟩

theorem compile_passingNothing :
    (compile Library.empty .w64 passingNothing).outcome =
      .error (.check (.mismatch (.argument 1 ((Path.single "m").child "g")) .void .void none)) :=
  Outcome.eq_error_of_map (g := fun _ => ()) (by decide +kernel)

/-- A mismatch can be reported although the type that was found is the one that was expected. -/
theorem passingNothing_mismatch_of_equal :
    ∃ construct expected actual span?, (compile Library.empty .w64 passingNothing).outcome =
      .error (.check (.mismatch construct expected actual span?)) ∧ expected = actual :=
  ⟨_, _, _, _, compile_passingNothing, rfl⟩

theorem compile_mismatch_eq_iff_passingNothing :
    (compile Library.empty .w64 passingNothing).outcome =
      .error (.check (.mismatch (.argument 1 ((Path.single "m").child "g")) .void .void none)) ∧
    ∃ s, Scope.ofProgram Library.empty passingNothing = .ok s ∧
      (Construct.argument 1 ((Path.single "m").child "g")).AsksForVoid s :=
  ⟨compile_passingNothing, ((compile_mismatch_eq_iff compile_passingNothing).1.1 rfl).2⟩

end BlockCompiler
