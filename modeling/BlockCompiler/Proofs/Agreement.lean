import BlockCompiler.Proofs.Stages

/-!
# Agreement of checking and the addition of types

To a program that passes checking, types are added without fault. Every expression is then ascribed
the type that checking finds for it. Up to ascriptions the program is the same, and nothing is left
to add.
-/

namespace BlockCompiler

variable {τ : Type} {s : Scope} {sig : Signature}

/-- `e'` is the well-typed expression `e` with each node ascribed its type. -/
structure Expr.Completed (s : Scope) (sig : Signature) (e e' : Expr τ) : Prop where
  wellTyped : ∃ ty, e.HasType s sig ty
  ascribed : AscribedBy (HasType s sig) e e'

namespace Expr.Completed

variable {e e' : Expr τ}

theorem addTypes_eq (h : Completed s sig e e') : ∃ ty, e.addTypes s sig = .ok (e', ty) := by
  obtain ⟨ty, ht⟩ := h.wellTyped
  exact ⟨ty, h.ascribed.addTypes_eq ht⟩

private theorem again (h : Completed s sig e e') : Completed s sig e' e' := by
  obtain ⟨ty, ht⟩ := h.wellTyped
  exact ⟨⟨ty, h.ascribed.hasType ht⟩, h.ascribed.again⟩

theorem infer [Located τ] (h : Completed s sig e e') :
    AscribedBy (fun e ty => e.infer s sig = .ok ty) e e' :=
  h.ascribed.imp fun e ty => (infer_eq_ok_iff e ty).2

end Expr.Completed

theorem Expr.HasType.exists_completed {e : Expr τ} {ty : Ty} (h : e.HasType s sig ty) :
    ∃ e', Completed s sig e e' := by
  obtain ⟨e', ha⟩ := h.exists_ascribedBy
  exact ⟨e', ⟨ty, h⟩, ha⟩

namespace Stmt

mutual

/-- The statement without its ascriptions. -/
def plain : Stmt τ → Stmt τ
  | branch t test thn els => branch t test.plain (plainAll thn) (plainAll els)
  | loop t test body => loop t test.plain (plainAll body)
  | effect t value => effect t value.plain
  | ret t value? => ret t (value?.map Expr.plain)

def plainAll : List (Stmt τ) → List (Stmt τ)
  | [] => []
  | st :: sts => st.plain :: plainAll sts

end

mutual

private theorem Rel.plain_eq {st st' : Stmt τ} : SamePlain st st' → st'.plain = st.plain
  | .branch _ h hthn hels => by
    simp only [plain, h, hthn.plainAll_eq, hels.plainAll_eq]
  | .loop _ h hbody => by
    simp only [plain, h, hbody.plainAll_eq]
  | .effect _ h => by
    simp only [plain, h]
  | .ret _ h => by
    simp only [plain, Option.map_some, h]
  | .bareRet _ => rfl

private theorem RelAll.plainAll_eq {sts sts' : List (Stmt τ)} :
    SamePlainAll sts sts' → plainAll sts' = plainAll sts
  | .nil => rfl
  | .cons h rest => by
    simp only [plainAll, h.plain_eq, rest.plainAll_eq]

end

mutual

private theorem Rel.addTypes_eq {st st' : Stmt τ} :
    Rel (fun e e' => ∃ ty, e.addTypes s sig = .ok (e', ty)) st st' → st.addTypes s sig = .ok st'
  | .branch _ h hthn hels => by
    obtain ⟨_, htest⟩ := h
    simp only [addTypes]
    rw [Outcome.ok_bind _ htest, Outcome.ok_bind _ hthn.addTypesAll_eq,
      Outcome.ok_bind _ hels.addTypesAll_eq]
    rfl
  | .loop _ h hbody => by
    obtain ⟨_, htest⟩ := h
    simp only [addTypes]
    rw [Outcome.ok_bind _ htest, Outcome.ok_bind _ hbody.addTypesAll_eq]
    rfl
  | .effect _ h | .ret _ h => by
    obtain ⟨_, hvalue⟩ := h
    simp only [addTypes]
    rw [Outcome.ok_bind _ hvalue]
    rfl
  | .bareRet _ => rfl

theorem RelAll.addTypesAll_eq {sts sts' : List (Stmt τ)} :
    RelAll (fun e e' => ∃ ty, e.addTypes s sig = .ok (e', ty)) sts sts' →
    addTypesAll s sig sts = .ok sts'
  | .nil => rfl
  | .cons h rest => by
    simp only [addTypesAll]
    rw [Outcome.ok_bind _ h.addTypes_eq, Outcome.ok_bind _ rest.addTypesAll_eq]
    rfl

end

section Relations

variable {R : Expr τ → Expr τ → Prop}

mutual

private theorem WellTyped.exists_rel (hR : ∀ e ty, e.HasType s sig ty → ∃ e', R e e')
    {st : Stmt τ} :
    st.WellTyped s sig → ∃ st', Rel R st st'
  | .branch t h hthn hels => by
    obtain ⟨_, htest⟩ := hR _ _ h
    obtain ⟨_, hthn⟩ := hthn.exists_relAll hR
    obtain ⟨_, hels⟩ := hels.exists_relAll hR
    exact ⟨_, .branch t htest hthn hels⟩
  | .loop t h hbody => by
    obtain ⟨_, htest⟩ := hR _ _ h
    obtain ⟨_, hbody⟩ := hbody.exists_relAll hR
    exact ⟨_, .loop t htest hbody⟩
  | .effect t h => by
    obtain ⟨_, hvalue⟩ := hR _ _ h
    exact ⟨_, .effect t hvalue⟩
  | .ret t h _ _ => by
    obtain ⟨_, hvalue⟩ := hR _ _ h
    exact ⟨_, .ret t hvalue⟩
  | .bareRet t _ => ⟨_, .bareRet t⟩

theorem AllWellTyped.exists_relAll (hR : ∀ e ty, e.HasType s sig ty → ∃ e', R e e')
    {sts : List (Stmt τ)} : AllWellTyped s sig sts → ∃ sts', RelAll R sts sts'
  | .nil => ⟨[], .nil⟩
  | .cons h rest => by
    obtain ⟨_, hst⟩ := h.exists_rel hR
    obtain ⟨_, hsts⟩ := rest.exists_relAll hR
    exact ⟨_, .cons hst hsts⟩

end

end Relations

end Stmt

/-- The declaration without its ascriptions. -/
def Decl.plain : Decl τ → Decl τ
  | function tag f => function tag { f with body := Stmt.plainAll f.body }
  | type tag decl => type tag decl
  | imports tag module => imports tag module

/-- The program without its ascriptions. -/
def Program.plain (p : Program τ) : Program τ :=
  { p with decls := p.decls.map Decl.plain }

namespace Program.Passes

variable {p p' : Program τ}

theorem addTypes_of_completed (h : p.Passes (fun sig => Stmt.RelAll (Expr.Completed s sig)) p') :
    p.addTypes s = .ok p' := by
  refine Program.addTypes_eq_ok_iff.2 (h.imp ?_)
  intro sig body body' hbody
  exact (hbody.imp fun e e' he => he.addTypes_eq).addTypesAll_eq

theorem completed_again (h : p.Passes (fun sig => Stmt.RelAll (Expr.Completed s sig)) p') :
    p'.Passes (fun sig => Stmt.RelAll (Expr.Completed s sig)) p' :=
  h.again fun _ _ _ hbody => hbody.again fun _ _ he => he.again

theorem plain_eq (h : p.Passes (fun _ => Stmt.SamePlainAll) p') : p'.plain = p.plain := by
  have hdecls : p'.decls.map Decl.plain = p.decls.map Decl.plain := by
    rw [← List.forall₂_eq_eq_eq, List.forall₂_map_left_iff, List.forall₂_map_right_iff]
    refine h.decls.flip.imp fun d' d hd => ?_
    cases hd with
    | function tag h =>
      obtain ⟨body, hbody, rfl⟩ := h
      simp only [Decl.plain, hbody.plainAll_eq]
    | type | imports => rfl
  rw [Program.plain, Program.plain, hdecls, h.module_eq]

end Program.Passes

/-- A pass that succeeds on every well-typed expression succeeds on a program that passes checking. -/
theorem Program.exists_passes [Located τ] {p : Program τ} (h : (p.check s).outcome = .ok ())
    {R : Signature → Expr τ → Expr τ → Prop}
    (hR : ∀ sig e ty, e.HasType s sig ty → ∃ e', R sig e e') :
    ∃ p', p.Passes (fun sig => Stmt.RelAll (R sig)) p' := by
  have hdecl : ∀ d ∈ p.decls, ∃ d', d.Passes (fun sig => Stmt.RelAll (R sig)) d' := by
    intro d hd
    cases d with
    | function tag f =>
      have hf : f ∈ p.functions := List.mem_filterMap.2 ⟨_, hd, rfl⟩
      obtain ⟨body, hbody⟩ :=
        (Program.check_eq_ok_iff.1 h f hf).body.exists_relAll (hR f.signature)
      exact ⟨_, .function tag ⟨body, hbody, rfl⟩⟩
    | type tag decl => exact ⟨_, .type tag decl⟩
    | imports tag module => exact ⟨_, .imports tag module⟩
  obtain ⟨decls, hdecls⟩ := exists_forall₂.2 hdecl
  exact ⟨⟨p.module, decls⟩, rfl, hdecls⟩

/-- `p'` is `p` with every expression of every body ascribed, once, the type that is found for it. -/
def Program.Explicit [Located τ] (s : Scope) (p p' : Program τ) : Prop :=
  p.Passes (fun sig => Stmt.RelAll (Expr.AscribedBy fun e ty => e.infer s sig = .ok ty)) p'

/-- To a program that passes checking, types are added: to each expression the type that checking
finds. Without ascriptions it is the program it was, and to add types once more changes nothing. -/
theorem Program.addTypes_of_check [Located τ] {p : Program τ} (h : (p.check s).outcome = .ok ()) :
    ∃ p', p.addTypes s = .ok p' ∧ p.Explicit s p' ∧ p'.plain = p.plain ∧ p'.addTypes s = .ok p' := by
  obtain ⟨p', hp⟩ := Program.exists_passes h fun sig e ty ht => ht.exists_completed
  have hexplicit : p.Explicit s p' :=
    hp.imp fun sig body body' hbody => hbody.imp fun e e' he => he.infer
  have hplain : p.Passes (fun _ => Stmt.SamePlainAll) p' :=
    hp.imp fun sig body body' hbody => hbody.imp fun e e' he => he.ascribed.plain_eq
  exact ⟨p', hp.addTypes_of_completed, hexplicit, hplain.plain_eq,
    hp.completed_again.addTypes_of_completed⟩

/-- A function in which some types are ascribed already, one of them twice. -/
def mixed : Func Unit :=
  ⟨"f", false, ⟨[⟨.int, "n"⟩], some .int⟩,
    [.branch () (.binary () (.compare .lt) (.ascribed () .int (.ascribed () .int (.var () "n")))
        (.lit () (.int 0)))
      [.ret () (some (.ascribed () .int (.call () ((Path.single "m").child "f")
        [.neg () (.var () "n")])))] [],
     .ret () (some (.var () "n"))]⟩

def mixedProgram : Program Unit :=
  ⟨.single "m", [.function () mixed]⟩

def mixedScope : Scope :=
  (Scope.empty (.single "m")).declareFunction mixed

theorem addTypes_of_check_mixed :
    mixedProgram.addTypes mixedScope ≠ .ok mixedProgram ∧
      ∃ p', mixedProgram.addTypes mixedScope = .ok p' ∧ mixedProgram.Explicit mixedScope p' ∧
        p'.plain = mixedProgram.plain ∧ p'.addTypes mixedScope = .ok p' :=
  ⟨by decide +kernel, Program.addTypes_of_check (by decide +kernel)⟩

end BlockCompiler
