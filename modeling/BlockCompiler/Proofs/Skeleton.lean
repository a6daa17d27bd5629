import BlockCompiler.Proofs.Live
import BlockCompiler.Proofs.Ascribed
import BlockCompiler.Resolution
import Mathlib.Data.List.Forall2

/-!
# Passes over statements

Resolution and the addition of types rewrite the expressions of a body and keep its statements.
What is said of the statements alone, such as which of them close or are live, is the same before
and after.
-/

namespace BlockCompiler

variable {τ : Type}

mutual

/-- Two statements that differ only in their expressions, which `R` relates. -/
inductive Stmt.Rel (R : Expr τ → Expr τ → Prop) : Stmt τ → Stmt τ → Prop where
  | branch (t : τ) {test test' : Expr τ} {thn thn' els els' : List (Stmt τ)} (h : R test test')
      (hthn : Stmt.RelAll R thn thn') (hels : Stmt.RelAll R els els') :
      Rel R (.branch t test thn els) (.branch t test' thn' els')
  | loop (t : τ) {test test' : Expr τ} {body body' : List (Stmt τ)} (h : R test test')
      (hbody : Stmt.RelAll R body body') : Rel R (.loop t test body) (.loop t test' body')
  | effect (t : τ) {value value' : Expr τ} (h : R value value') :
      Rel R (.effect t value) (.effect t value')
  | ret (t : τ) {value value' : Expr τ} (h : R value value') :
      Rel R (.ret t (some value)) (.ret t (some value'))
  | bareRet (t : τ) : Rel R (.ret t none) (.ret t none)

inductive Stmt.RelAll (R : Expr τ → Expr τ → Prop) : List (Stmt τ) → List (Stmt τ) → Prop where
  | nil : RelAll R [] []
  | cons {st st' : Stmt τ} {sts sts' : List (Stmt τ)} (h : Stmt.Rel R st st')
      (rest : Stmt.RelAll R sts sts') : RelAll R (st :: sts) (st' :: sts')

end

namespace Stmt

variable {R : Expr τ → Expr τ → Prop}

mutual

private theorem Rel.symm (hR : ∀ e e', R e e' → R e' e) {st st' : Stmt τ} :
    Rel R st st' → Rel R st' st
  | .branch t h hthn hels => .branch t (hR _ _ h) (hthn.symm hR) (hels.symm hR)
  | .loop t h hbody => .loop t (hR _ _ h) (hbody.symm hR)
  | .effect t h => .effect t (hR _ _ h)
  | .ret t h => .ret t (hR _ _ h)
  | .bareRet t => .bareRet t

theorem RelAll.symm (hR : ∀ e e', R e e' → R e' e) {sts sts' : List (Stmt τ)} :
    RelAll R sts sts' → RelAll R sts' sts
  | .nil => .nil
  | .cons h rest => .cons (h.symm hR) (rest.symm hR)

end

mutual

private theorem Rel.closes_eq {st st' : Stmt τ} : Rel R st st' → st'.closes = st.closes
  | .branch _ _ hthn hels => by
    rw [closes, closes, hthn.closesAll_eq, hels.closesAll_eq]
  | .loop .. | .effect .. | .ret .. | .bareRet .. => rfl

private theorem RelAll.closesAll_eq {sts sts' : List (Stmt τ)} :
    RelAll R sts sts' → closesAll sts' = closesAll sts
  | .nil => rfl
  | .cons h rest => by
    rw [closesAll, closesAll, h.closes_eq, rest.closesAll_eq]

end

mutual

private theorem Rel.live {st st' : Stmt τ} : Rel R st st' → List.Forall₂ (Rel R) st.live st'.live
  | .branch t h hthn hels => by
    rw [Stmt.live, Stmt.live]
    exact .cons (.branch t h hthn hels) (List.rel_append hthn.liveAll hels.liveAll)
  | .loop t h hbody => by
    rw [Stmt.live, Stmt.live]
    exact .cons (.loop t h hbody) hbody.liveAll
  | .effect t h => .cons (.effect t h) .nil
  | .ret t h => .cons (.ret t h) .nil
  | .bareRet t => .cons (.bareRet t) .nil

theorem RelAll.liveAll {sts sts' : List (Stmt τ)} :
    RelAll R sts sts' → List.Forall₂ (Rel R) (Stmt.liveAll sts) (Stmt.liveAll sts')
  | .nil => .nil
  | @RelAll.cons _ _ st st' _ _ h rest => by
    rw [Stmt.liveAll, Stmt.liveAll, h.closes_eq]
    refine List.rel_append h.live ?_
    cases st.closes with
    | false => exact rest.liveAll
    | true => exact .nil

end

mutual

/-- The expressions of a statement, with those in its blocks. -/
def exprs : Stmt τ → List (Expr τ)
  | branch _ test thn els => test :: (exprsAll thn ++ exprsAll els)
  | loop _ test body => test :: exprsAll body
  | effect _ value | ret _ (some value) => [value]
  | ret _ none => []

def exprsAll : List (Stmt τ) → List (Expr τ)
  | [] => []
  | st :: sts => st.exprs ++ exprsAll sts

end

mutual

private theorem Rel.exprs {st st' : Stmt τ} : Rel R st st' → List.Forall₂ R st.exprs st'.exprs
  | .branch _ h hthn hels => by
    rw [Stmt.exprs, Stmt.exprs]
    exact .cons h (List.rel_append hthn.exprsAll hels.exprsAll)
  | .loop _ h hbody => by
    rw [Stmt.exprs, Stmt.exprs]
    exact .cons h hbody.exprsAll
  | .effect _ h | .ret _ h => .cons h .nil
  | .bareRet _ => .nil

theorem RelAll.exprsAll {sts sts' : List (Stmt τ)} :
    RelAll R sts sts' → List.Forall₂ R (Stmt.exprsAll sts) (Stmt.exprsAll sts')
  | .nil => .nil
  | .cons h rest => by
    rw [Stmt.exprsAll, Stmt.exprsAll]
    exact List.rel_append h.exprs rest.exprsAll

end

mutual

/-- If `R` relates only to what `R'` relates to itself, so does the relation on statements. -/
private theorem Rel.again {R' : Expr τ → Expr τ → Prop} (hR : ∀ e e', R e e' → R' e' e')
    {st st' : Stmt τ} :
    Rel R st st' → Rel R' st' st'
  | .branch t h hthn hels => .branch t (hR _ _ h) (hthn.again hR) (hels.again hR)
  | .loop t h hbody => .loop t (hR _ _ h) (hbody.again hR)
  | .effect t h => .effect t (hR _ _ h)
  | .ret t h => .ret t (hR _ _ h)
  | .bareRet t => .bareRet t

theorem RelAll.again {R' : Expr τ → Expr τ → Prop} (hR : ∀ e e', R e e' → R' e' e')
    {sts sts' : List (Stmt τ)} :
    RelAll R sts sts' → RelAll R' sts' sts'
  | .nil => .nil
  | .cons h rest => .cons (h.again hR) (rest.again hR)

end

mutual

/-- A change of relation that holds of the expressions of a statement. -/
private theorem Rel.imp_of_mem {R' : Expr τ → Expr τ → Prop} {st st' : Stmt τ} : Rel R st st' →
    (∀ e ∈ st.exprs, ∀ e', R e e' → R' e e') → Rel R' st st'
  | .branch t h hthn hels, hR => by
    simp only [Stmt.exprs, List.forall_mem_cons, List.forall_mem_append] at hR
    exact .branch t (hR.1 _ h) (hthn.imp_of_mem hR.2.1) (hels.imp_of_mem hR.2.2)
  | .loop t h hbody, hR => by
    simp only [Stmt.exprs, List.forall_mem_cons] at hR
    exact .loop t (hR.1 _ h) (hbody.imp_of_mem hR.2)
  | .effect t h, hR => .effect t (hR _ (List.mem_singleton.2 rfl) _ h)
  | .ret t h, hR => .ret t (hR _ (List.mem_singleton.2 rfl) _ h)
  | .bareRet t, _ => .bareRet t

theorem RelAll.imp_of_mem {R' : Expr τ → Expr τ → Prop} {sts sts' : List (Stmt τ)} :
    RelAll R sts sts' → (∀ e ∈ Stmt.exprsAll sts, ∀ e', R e e' → R' e e') → RelAll R' sts sts'
  | .nil, _ => .nil
  | .cons h rest, hR => by
    simp only [Stmt.exprsAll, List.forall_mem_append] at hR
    exact .cons (h.imp_of_mem hR.1) (rest.imp_of_mem hR.2)

end

theorem RelAll.imp {R' : Expr τ → Expr τ → Prop} (hR : ∀ e e', R e e' → R' e e')
    {sts sts' : List (Stmt τ)} (h : RelAll R sts sts') : RelAll R' sts sts' :=
  h.imp_of_mem fun e _ => hR e

variable {s : Scope} {sig : Signature} {params : List Param}

mutual

/-- Resolution rewrites expressions only. -/
private theorem rel_of_resolve [Located τ] : ∀ {st st' : Stmt τ},
    (st.resolve s params).outcome = .ok st' →
    Rel (fun e e' => (e.resolve s params).outcome = .ok e') st st'
  | branch t test thn els, st', h => by
    simp only [resolve, Traced.bind_eq_ok, Traced.outcome_pure] at h
    obtain ⟨test', htest, thn', hthn, els', hels, hst⟩ := h
    cases hst
    exact .branch t htest (relAll_of_resolveAll hthn) (relAll_of_resolveAll hels)
  | loop t test body, st', h => by
    simp only [resolve, Traced.bind_eq_ok, Traced.outcome_pure] at h
    obtain ⟨test', htest, body', hbody, hst⟩ := h
    cases hst
    exact .loop t htest (relAll_of_resolveAll hbody)
  | effect t value, st', h => by
    simp only [resolve, Traced.bind_eq_ok, Traced.outcome_pure] at h
    obtain ⟨value', hvalue, hst⟩ := h
    cases hst
    exact .effect t hvalue
  | ret t none, st', h => by
    cases h
    exact .bareRet t
  | ret t (some value), st', h => by
    simp only [resolve, Traced.bind_eq_ok, Traced.outcome_pure] at h
    obtain ⟨value', hvalue, hst⟩ := h
    cases hst
    exact .ret t hvalue

theorem relAll_of_resolveAll [Located τ] : ∀ {sts sts' : List (Stmt τ)},
    (resolveAll s params sts).outcome = .ok sts' →
    RelAll (fun e e' => (e.resolve s params).outcome = .ok e') sts sts'
  | [], sts', h => by
    cases h
    exact .nil
  | st :: sts, sts', h => by
    simp only [resolveAll, Traced.bind_eq_ok, Traced.outcome_pure] at h
    obtain ⟨st', hst, sts₁, hsts, hl⟩ := h
    cases hl
    exact .cons (rel_of_resolve hst) (relAll_of_resolveAll hsts)

end

mutual

/-- A statement is resolved by resolving its expressions. -/
private theorem Rel.resolve_eq [Located τ] {st st' : Stmt τ} :
    Rel (fun e e' => (e.resolve s params).outcome = .ok e') st st' →
    (st.resolve s params).outcome = .ok st'
  | .branch _ h hthn hels => by
    simp only [resolve, Traced.bind_eq_ok, Traced.outcome_pure]
    exact ⟨_, h, _, hthn.resolveAll_eq, _, hels.resolveAll_eq, rfl⟩
  | .loop _ h hbody => by
    simp only [resolve, Traced.bind_eq_ok, Traced.outcome_pure]
    exact ⟨_, h, _, hbody.resolveAll_eq, rfl⟩
  | .effect _ h | .ret _ h => by
    simp only [resolve, Traced.bind_eq_ok, Traced.outcome_pure]
    exact ⟨_, h, rfl⟩
  | .bareRet _ => rfl

theorem RelAll.resolveAll_eq [Located τ] {sts sts' : List (Stmt τ)} :
    RelAll (fun e e' => (e.resolve s params).outcome = .ok e') sts sts' →
    (resolveAll s params sts).outcome = .ok sts'
  | .nil => rfl
  | .cons h rest => by
    simp only [resolveAll, Traced.bind_eq_ok, Traced.outcome_pure]
    exact ⟨_, h.resolve_eq, _, rest.resolveAll_eq, rfl⟩

end

mutual

/-- Whether every expression of the statement is fully ascribed. -/
def Wrapped : Stmt τ → Prop
  | branch _ test thn els => test.Wrapped ∧ WrappedAll thn ∧ WrappedAll els
  | loop _ test body => test.Wrapped ∧ WrappedAll body
  | effect _ value | ret _ (some value) => value.Wrapped
  | ret _ none => True

def WrappedAll : List (Stmt τ) → Prop
  | [] => True
  | st :: sts => st.Wrapped ∧ WrappedAll sts

end

mutual

private theorem WellTyped.live {st : Stmt τ} :
    st.WellTyped s sig → ∀ st' ∈ st.live, st'.WellTyped s sig
  | .branch t h hthn hels => by
    intro st' hmem
    rw [Stmt.live] at hmem
    rcases List.mem_cons.1 hmem with rfl | hmem
    · exact .branch t h hthn hels
    · rcases List.mem_append.1 hmem with hmem | hmem
      · exact hthn.liveAll st' hmem
      · exact hels.liveAll st' hmem
  | .loop t h hbody => by
    intro st' hmem
    rw [Stmt.live] at hmem
    rcases List.mem_cons.1 hmem with rfl | hmem
    · exact .loop t h hbody
    · exact hbody.liveAll st' hmem
  | .effect t h => by
    intro st' hmem
    cases List.mem_singleton.1 hmem
    exact .effect t h
  | .ret t h fits nothing => by
    intro st' hmem
    cases List.mem_singleton.1 hmem
    exact .ret t h fits nothing
  | .bareRet t h => by
    intro st' hmem
    cases List.mem_singleton.1 hmem
    exact .bareRet t h

theorem AllWellTyped.liveAll {sts : List (Stmt τ)} :
    AllWellTyped s sig sts → ∀ st ∈ Stmt.liveAll sts, st.WellTyped s sig
  | .nil => by
    simp [Stmt.liveAll]
  | @AllWellTyped.cons _ _ _ st sts h rest => by
    intro st' hmem
    rw [Stmt.liveAll] at hmem
    rcases List.mem_append.1 hmem with hmem | hmem
    · exact h.live st' hmem
    · cases hc : st.closes with
      | true => simp [hc] at hmem
      | false => exact rest.liveAll st' (by simpa [hc] using hmem)

end

/-- Two statements that are equal up to ascriptions. -/
abbrev SamePlain : Stmt τ → Stmt τ → Prop :=
  Rel fun e e' => e'.plain = e.plain

abbrev SamePlainAll : List (Stmt τ) → List (Stmt τ) → Prop :=
  RelAll fun e e' => e'.plain = e.plain

mutual

/-- Adding types to a well-typed statement succeeds and ascribes all its expressions. -/
private theorem WellTyped.addTypes {st : Stmt τ} : st.WellTyped s sig →
    ∃ st', st.addTypes s sig = .ok st' ∧ st'.Wrapped ∧ st'.WellTyped s sig ∧ SamePlain st st'
  | .branch t h hthn hels => by
    obtain ⟨test, htest, ha⟩ := h.addTypes
    obtain ⟨thn, hthn, hwthn, htthn, hrthn⟩ := hthn.addTypes
    obtain ⟨els, hels, hwels, htels, hrels⟩ := hels.addTypes
    simp only [Stmt.addTypes]
    rw [Outcome.ok_bind _ htest, Outcome.ok_bind _ hthn, Outcome.ok_bind _ hels]
    exact ⟨_, rfl, ⟨ha.wrapped, hwthn, hwels⟩, .branch t ha.hasType htthn htels,
      .branch t ha.plain_eq hrthn hrels⟩
  | .loop t h hbody => by
    obtain ⟨test, htest, ha⟩ := h.addTypes
    obtain ⟨body, hbody, hw, ht, hr⟩ := hbody.addTypes
    simp only [Stmt.addTypes]
    rw [Outcome.ok_bind _ htest, Outcome.ok_bind _ hbody]
    exact ⟨_, rfl, ⟨ha.wrapped, hw⟩, .loop t ha.hasType ht, .loop t ha.plain_eq hr⟩
  | .effect t h => by
    obtain ⟨value, hvalue, ha⟩ := h.addTypes
    simp only [Stmt.addTypes]
    rw [Outcome.ok_bind _ hvalue]
    exact ⟨_, rfl, ha.wrapped, .effect t ha.hasType, .effect t ha.plain_eq⟩
  | .ret t h fits nothing => by
    obtain ⟨value, hvalue, ha⟩ := h.addTypes
    simp only [Stmt.addTypes]
    rw [Outcome.ok_bind _ hvalue]
    exact ⟨_, rfl, ha.wrapped, .ret t ha.hasType fits nothing, .ret t ha.plain_eq⟩
  | .bareRet t h => ⟨_, rfl, trivial, .bareRet t h, .bareRet t⟩

theorem AllWellTyped.addTypes {sts : List (Stmt τ)} : AllWellTyped s sig sts →
    ∃ sts', addTypesAll s sig sts = .ok sts' ∧ WrappedAll sts' ∧ AllWellTyped s sig sts' ∧
      SamePlainAll sts sts'
  | .nil => ⟨[], rfl, trivial, .nil, .nil⟩
  | .cons h rest => by
    obtain ⟨st, hst, hw, ht, hr⟩ := h.addTypes
    obtain ⟨sts, hsts, hws, hts, hrs⟩ := rest.addTypes
    simp only [addTypesAll]
    rw [Outcome.ok_bind _ hst, Outcome.ok_bind _ hsts]
    exact ⟨_, rfl, ⟨hw, hws⟩, .cons ht hts, .cons hr hrs⟩

end

end Stmt

end BlockCompiler
