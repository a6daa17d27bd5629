import BlockCompiler.Proofs.Blame

/-!
# What the stages assume of each other

Resolution expects that the scope records every import, and checking expects that names are resolved
and ascriptions are right. The first holds of every scope that was built for the program, and names
are known after resolution. So only an ascription that was there before can be found wrong.
-/

namespace BlockCompiler

open Target

variable {τ : Type} {s : Scope}

namespace Expr

mutual

/-- Whether no node of the expression is ascribed a type. -/
def isUnascribed : Expr τ → Bool
  | bareCall _ _ args | call _ _ args => isUnascribedAll args
  | binary _ _ lhs rhs => lhs.isUnascribed && rhs.isUnascribed
  | neg _ operand => operand.isUnascribed
  | ascribed .. => false
  | lit .. | var .. => true

def isUnascribedAll : List (Expr τ) → Bool
  | [] => true
  | e :: es => e.isUnascribed && isUnascribedAll es

end

end Expr

/-- No expression of the program has an ascription in it. -/
def Program.Unascribed (p : Program τ) : Prop :=
  ∀ f ∈ p.functions, ∀ e ∈ Stmt.exprsAll f.body, e.isUnascribed

instance : DecidablePred (Program.Unascribed (τ := τ)) :=
  fun p => inferInstanceAs (Decidable (∀ f ∈ p.functions, ∀ e ∈ Stmt.exprsAll f.body, e.isUnascribed))

/-- Whether the fault is that an ascription is wrong. -/
def CheckFault.isAscription : CheckFault → Bool
  | wrongAscription .. => true
  | bareCall _ | missingCallee _ | unboundVariable _ => false

variable [Located τ] {params : List Param} {sig : Signature}

section Faults

variable {cause : CheckFault}

namespace Expr

/-- A call of a visible function is at fault only in its arguments. -/
private theorem exists_of_infer_call_fault {tag : τ} {path : Path} {args : List (Expr τ)}
    (hs : (s.function? path).isSome) (h : (call tag path args).infer s sig = .error (.fault cause)) :
    ∃ params, inferArgs s sig path 1 args params = .error (.fault cause) := by
  obtain ⟨symbol, hs⟩ := Option.isSome_iff_exists.1 hs
  simp only [infer, hs] at h
  split at h
  · rcases Outcome.bind_eq_error.1 h with h | ⟨_, _, h⟩
    · exact ⟨_, h⟩
    · cases h
  · cases h

mutual

/-- After resolution, only ascriptions are at fault. -/
private theorem Resolves.isAscription_of_fault {e e' : Expr τ} : Resolves s sig.params e e' →
    e'.infer s sig = .error (.fault cause) → cause.isAscription ∧ e.isUnascribed = false
  | .bareCall tag hc hargs, h => by
    have hs := Scope.isSome_function?_of_mem_candidates (hc ▸ List.mem_singleton.2 rfl)
    obtain ⟨_, h⟩ := exists_of_infer_call_fault hs h
    exact hargs.isAscription_of_fault h
  | .call tag hs hargs, h => by
    obtain ⟨_, h⟩ := exists_of_infer_call_fault hs h
    exact hargs.isAscription_of_fault h
  | .binary _ op hl hr, h => by
    rw [infer, Outcome.bind_eq_error] at h
    rw [isUnascribed, Bool.and_eq_false_iff]
    rcases h with h | ⟨_, _, h⟩
    · exact (hl.isAscription_of_fault h).imp_right .inl
    · rcases Outcome.bind_eq_error.1 h with h | ⟨_, _, h⟩
      · exact (hr.isAscription_of_fault h).imp_right .inr
      · obtain ⟨_, _, h⟩ := Outcome.mapError_eq_error.1 h
        cases h
  | .neg _ hop, h => by
    rw [infer, Outcome.bind_eq_error] at h
    rcases h with h | ⟨_, _, h⟩
    · exact hop.isAscription_of_fault h
    · split at h <;> cases h
  | .ascribed _ _ hi, h => by
    rw [infer, Outcome.bind_eq_error] at h
    rcases h with h | ⟨_, _, h⟩
    · exact ⟨(hi.isAscription_of_fault h).1, rfl⟩
    · split at h <;> cases h
      exact ⟨rfl, rfl⟩
  | .var _ hp, h => by
    obtain ⟨ty, hty⟩ := Option.isSome_iff_exists.1 (Signature.isSome_typeOf?_iff.2 hp)
    simp [infer, hty] at h

private theorem ResolvesAll.isAscription_of_fault {args args' : List (Expr τ)} {callee : Path}
    {index : Nat} {params : List Param} : ResolvesAll s sig.params args args' →
    inferArgs s sig callee index args' params = .error (.fault cause) →
    cause.isAscription ∧ isUnascribedAll args = false
  | .nil, h => by
    simp [inferArgs] at h
  | .cons he hrest, h => by
    cases params with
    | nil => simp [inferArgs] at h
    | cons param params =>
      rw [inferArgs, Outcome.bind_eq_error] at h
      rw [isUnascribedAll, Bool.and_eq_false_iff]
      rcases h with h | ⟨_, _, h⟩
      · exact (he.isAscription_of_fault h).imp_right .inl
      · split at h
        · exact (hrest.isAscription_of_fault h).imp_right .inr
        · cases h

end

end Expr

/-- A fault lies in an expression, since declarations and statements only break rules of the
language. -/
private theorem Program.exists_of_check_fault {p : Program τ}
    (h : (p.check s).outcome = .error (.fault cause)) :
    ∃ f ∈ p.functions, ∃ e ∈ Stmt.exprsAll f.body, e.infer s f.signature = .error (.fault cause) := by
  obtain ⟨before, tag, f, after, hdecls, _, hf⟩ := exists_of_check_error h
  have hmem : .function tag f ∈ p.decls := by simp [hdecls]
  refine ⟨f, List.mem_filterMap.2 ⟨_, hmem, rfl⟩, ?_⟩
  cases Func.breaks_of_check hf with
  | body h =>
    rcases h with ⟨_, _, hb⟩ | h
    · cases hb
    · exact h

/-- If checking is at fault after resolution, then for an ascription that the program came with. -/
theorem Program.isAscription_of_fault {p p' : Program τ} (hr : (p.resolve s).outcome = .ok p')
    (h : (p'.check s).outcome = .error (.fault cause)) :
    cause.isAscription ∧ ¬p.Unascribed := by
  obtain ⟨f', hf', e', he', h⟩ := exists_of_check_fault h
  obtain ⟨f, hf, body, hbody, rfl⟩ :=
    exists_left_of_forall₂ (Program.resolve_eq_ok_iff.1 hr).2.functions hf'
  obtain ⟨e, he, hres⟩ := exists_left_of_forall₂ (Stmt.relAll_of_resolveAll hbody).exprsAll he'
  obtain ⟨hc, hu⟩ := (Expr.resolve_eq_ok_iff.1 hres).isAscription_of_fault h
  refine ⟨hc, fun hp => ?_⟩
  have hplain := hp f hf e he
  rw [hu] at hplain
  cases hplain

end Faults

/-- Whether the error is that an import is not recorded. -/
def ResolveError.isMissingImport : ResolveError → Bool
  | missingImport .. => true
  | undeclared .. | ambiguous .. => false

section Imports

variable {e : ResolveError}

private theorem Expr.Unknown.isMissingImport_eq {node : Expr τ} (h : node.Unknown s params e) :
    e.isMissingImport = false := by
  cases h with
  | bareCall h => rcases Scope.callee_eq_error_iff.1 h with ⟨_, rfl⟩ | ⟨_, rfl⟩ <;> rfl
  | call | var => rfl

/-- Resolution misses an import only where the scope does not record one. -/
theorem Program.exists_of_isMissingImport {p : Program τ} (h : (p.resolve s).outcome = .error e)
    (he : e.isMissingImport) : ∃ entry ∈ p.imports, s.isImported entry.1 = false := by
  rcases Program.exists_of_resolve_error h with ⟨entry, hentry, hno, _⟩ | ⟨f, _, node, _, hnode⟩
  · exact ⟨entry, hentry, hno⟩
  · rw [hnode.isMissingImport_eq] at he
    cases he

end Imports

/-- On a program without ascriptions, no stage finds undone what it expects of those before it. The
scope of the program records all imports, so that resolution misses none, and in whatever scope the
program was resolved, checking it there finds no fault in the tree. -/
theorem Program.Unascribed.compile_ne_fault {p : Program τ} (hp : p.Unascribed) :
    (∀ (lib : Library) (w : Width) (e : CompileError), (compile lib w p).outcome = .error e →
      (∀ module span?, e ≠ .resolve (.missingImport module span?)) ∧
        ∀ cause, e ≠ .check (.fault cause)) ∧
    (∀ (lib : Library) (s : Scope), Scope.ofProgram lib p = .ok s →
      ∀ entry ∈ p.imports, s.isImported entry.1) ∧
    ∀ (s : Scope) (p' : Program τ), (p.resolve s).outcome = .ok p' →
      ∀ cause, (p'.check s).outcome ≠ .error (.fault cause) := by
  have himports : ∀ (lib : Library) (s : Scope), Scope.ofProgram lib p = .ok s →
      ∀ entry ∈ p.imports, s.isImported entry.1 :=
    fun lib s hs entry hentry => (Scope.isImported_iff hs).2 ⟨entry.2, hentry⟩
  have hcheck : ∀ (s : Scope) (p' : Program τ), (p.resolve s).outcome = .ok p' →
      ∀ cause, (p'.check s).outcome ≠ .error (.fault cause) :=
    fun s p' hr cause h => (Program.isAscription_of_fault hr h).2 hp
  refine ⟨?_, himports, hcheck⟩
  intro lib w e h
  constructor
  · rintro module span? rfl
    cases fails_of_compile h with
    | resolve hs h =>
      obtain ⟨entry, hentry, hno⟩ := Program.exists_of_isMissingImport h rfl
      rw [himports lib _ hs entry hentry] at hno
      cases hno
  · rintro cause rfl
    cases fails_of_compile h with
    | check hs hr h => exact hcheck _ _ hr cause h

/-- A function that calls itself by its bare name, with two parameters of one name and no declared
result, in a program that imports a module. -/
def recurring : Program Unit :=
  ⟨.single "m",
    [.imports () (.single "io"),
     .function () ⟨"f", false, ⟨[⟨.int, "n"⟩, ⟨.bool, "n"⟩], none⟩,
      [.branch () (.var () "n")
        [.effect () (.bareCall () "f" [.neg () (.lit () (.int 1)), .var () "n"])] []]⟩]⟩

theorem compile_ne_fault_recurring :
    recurring.Unascribed ∧
      (∀ (lib : Library) (w : Width) (e : CompileError), (compile lib w recurring).outcome = .error e →
        (∀ module span?, e ≠ .resolve (.missingImport module span?)) ∧
          ∀ cause, e ≠ .check (.fault cause)) ∧
      (∀ (lib : Library) (s : Scope), Scope.ofProgram lib recurring = .ok s →
        ∀ entry ∈ recurring.imports, s.isImported entry.1) ∧
      ∀ (s : Scope) (p' : Program Unit), (recurring.resolve s).outcome = .ok p' →
        ∀ cause, (p'.check s).outcome ≠ .error (.fault cause) :=
  ⟨by decide, Program.Unascribed.compile_ne_fault (by decide)⟩

end BlockCompiler
