import BlockCompiler.Proofs.Faults

/-!
# Live positions

A statement stands at a live position of a body if no statement before it closes, neither in its
block nor in a block around it. Emission for an accepted program fails exactly if, at a live position,
a function that returns nothing returns a value of the unknown type.
-/

namespace BlockCompiler

open Target

variable {τ : Type}

namespace Stmt

/-- `st.LiveIn sts`: the statement stands in the block `sts` or in a block within it, and no statement
closes that stands before it or before a statement around it. -/
inductive LiveIn (st : Stmt τ) : List (Stmt τ) → Prop where
  | here (before after : List (Stmt τ)) (h : closesAll before = false) :
      LiveIn st (before ++ st :: after)
  | thn (before : List (Stmt τ)) (t : τ) (test : Expr τ) {thn : List (Stmt τ)}
      (els after : List (Stmt τ)) (h : closesAll before = false) (inner : LiveIn st thn) :
      LiveIn st (before ++ branch t test thn els :: after)
  | els (before : List (Stmt τ)) (t : τ) (test : Expr τ) (thn : List (Stmt τ)) {els : List (Stmt τ)}
      (after : List (Stmt τ)) (h : closesAll before = false) (inner : LiveIn st els) :
      LiveIn st (before ++ branch t test thn els :: after)
  | body (before : List (Stmt τ)) (t : τ) (test : Expr τ) {body : List (Stmt τ)}
      (after : List (Stmt τ)) (h : closesAll before = false) (inner : LiveIn st body) :
      LiveIn st (before ++ loop t test body :: after)

private theorem liveAll_append (before after : List (Stmt τ)) :
    liveAll (before ++ after) =
      liveAll before ++ if closesAll before then [] else liveAll after := by
  induction before with
  | nil => rfl
  | cons st sts ih =>
    rw [List.cons_append, liveAll, liveAll, closesAll, ih]
    cases st.closes <;> simp

variable {st : Stmt τ}

private theorem mem_liveAll_of_mem_live {before : List (Stmt τ)} (h : closesAll before = false)
    {x : Stmt τ} (after : List (Stmt τ)) (hx : st ∈ x.live) :
    st ∈ liveAll (before ++ x :: after) := by
  rw [liveAll_append, liveAll]
  simp [h, hx]

private theorem mem_live_self : ∀ st : Stmt τ, st ∈ st.live
  | branch .. | loop .. | effect .. | ret .. => by
    simp [live]

private theorem LiveIn.cons {x : Stmt τ} (hx : x.closes = false) {sts : List (Stmt τ)}
    (h : st.LiveIn sts) :
    st.LiveIn (x :: sts) := by
  have hb : ∀ {before : List (Stmt τ)}, closesAll before = false →
      closesAll (x :: before) = false := by
    intro before h
    rw [closesAll, hx, h]
    rfl
  cases h with
  | here before after h => exact .here (x :: before) after (hb h)
  | thn before t test els after h inner => exact .thn (x :: before) t test els after (hb h) inner
  | els before t test thn after h inner => exact .els (x :: before) t test thn after (hb h) inner
  | body before t test after h inner => exact .body (x :: before) t test after (hb h) inner

mutual

private theorem liveIn_of_mem_live : ∀ {x : Stmt τ}, st ∈ x.live → ∀ after, st.LiveIn (x :: after)
  | branch t test thn els, h, after => by
    rw [live] at h
    rcases List.mem_cons.1 h with rfl | h
    · exact .here [] after rfl
    · rcases List.mem_append.1 h with h | h
      · exact .thn [] t test els after rfl (liveIn_of_mem_liveAll h)
      · exact .els [] t test thn after rfl (liveIn_of_mem_liveAll h)
  | loop t test body, h, after => by
    rw [live] at h
    rcases List.mem_cons.1 h with rfl | h
    · exact .here [] after rfl
    · exact .body [] t test after rfl (liveIn_of_mem_liveAll h)
  | effect .., h, after | ret .., h, after => by
    cases List.mem_singleton.1 h
    exact .here [] after rfl

private theorem liveIn_of_mem_liveAll : ∀ {sts : List (Stmt τ)}, st ∈ liveAll sts → st.LiveIn sts
  | [], h => by
    cases h
  | x :: sts, h => by
    rw [liveAll] at h
    rcases List.mem_append.1 h with h | h
    · exact liveIn_of_mem_live h sts
    · cases hc : x.closes with
      | true => simp [hc] at h
      | false =>
        simp only [hc, Bool.false_eq_true, if_false] at h
        exact (liveIn_of_mem_liveAll h).cons hc

end

private theorem LiveIn.mem_liveAll {sts : List (Stmt τ)} (h : st.LiveIn sts) :
    st ∈ liveAll sts := by
  induction h with
  | here _ after h => exact mem_liveAll_of_mem_live h after (mem_live_self st)
  | thn _ _ _ _ after h _ ih | els _ _ _ _ after h _ ih | body _ _ _ after h _ ih =>
    exact mem_liveAll_of_mem_live h after (by simp [live, ih])

/-- The live statements are those at live positions. -/
theorem mem_liveAll_iff {sts : List (Stmt τ)} : st ∈ liveAll sts ↔ st.LiveIn sts :=
  ⟨liveIn_of_mem_liveAll, LiveIn.mem_liveAll⟩

end Stmt

variable [Located τ] {lib : Library} {s : Scope} {p resolved : Program τ}

theorem Func.misreturns_iff {f : Func τ} :
    f.Misreturns s ↔ f.isExternal = false ∧ f.signature.result = .void ∧
      ∃ t value, (Stmt.ret t (some value)).LiveIn f.body ∧ value.infer s f.signature = .ok .any := by
  simp only [Misreturns, Stmt.ReturnsUnknown, Stmt.mem_liveAll_iff, Expr.infer_eq_ok_iff]
  constructor
  · rintro ⟨hext, _, hlive, hvoid, t, value, rfl, hany⟩
    exact ⟨hext, hvoid, t, value, hlive, hany⟩
  · rintro ⟨hext, hvoid, t, value, hlive, hany⟩
    exact ⟨hext, _, hlive, hvoid, t, value, rfl, hany⟩

/-- Types can be added to every accepted program. Given that no import brings in a function with a
parameter of type `Void`, emission then fails exactly if some function that is defined in the program
and returns nothing has, at a live position, a `return` of a value of the unknown type. -/
theorem Accepted.emit_fails_iff (h : Accepted lib p s resolved) (hlib : lib.NoVoidParams) (w : Width) :
    ∃ typed, resolved.addTypes s = .ok typed ∧
      ((∃ fault, (typed.emit s w).outcome = .error fault) ↔
        ∃ f ∈ resolved.functions, f.isExternal = false ∧ f.signature.result = .void ∧
          ∃ t value, (Stmt.ret t (some value)).LiveIn f.body ∧
            value.infer s f.signature = .ok .any) := by
  obtain ⟨typed, ht⟩ := h.exists_addTypes
  refine ⟨typed, ht, ?_⟩
  simp only [← Func.misreturns_iff]
  cases h.attempt_emit ht hlib w with
  | ok hno hok =>
    obtain ⟨m, hm⟩ := hok
    simp [hm, hno]
  | fails hr hf => simp [hf, hr]

/-- A function that returns nothing hands back something unknown within a loop, where that is live,
and again after a statement that closes. -/
def leaking : Program Unit :=
  ⟨.single "m",
    [.function () ⟨"f", false, ⟨[⟨.any, "x"⟩, ⟨.bool, "b"⟩], none⟩,
      [.loop () (.var () "b")
        [.branch () (.var () "b") [] [.ret () (some (.var () "x"))]],
       .ret () none,
       .ret () (some (.var () "x"))]⟩]⟩

theorem compile_leaking :
    (compile Library.empty .w64 leaking).outcome =
      .error (.emission (.noConversion .any .void (.reg ⟨0⟩))) :=
  Outcome.eq_error_of_map (g := fun _ => ()) (by decide +kernel)

theorem emit_fails_iff_leaking :
    Library.empty.NoVoidParams ∧ ∃ s resolved, Accepted Library.empty leaking s resolved ∧
      ∃ f ∈ resolved.functions, f.isExternal = false ∧ f.signature.result = .void ∧
        ∃ t value, (Stmt.ret t (some value)).LiveIn f.body ∧ value.infer s f.signature = .ok .any := by
  cases fails_of_compile compile_leaking with
  | emission h ht herror =>
    obtain ⟨typed, ht', hiff⟩ := h.emit_fails_iff Library.noVoidParams_empty .w64
    cases ht.symm.trans ht'
    exact ⟨Library.noVoidParams_empty, _, _, h, hiff.1 ⟨_, herror⟩⟩

end BlockCompiler
