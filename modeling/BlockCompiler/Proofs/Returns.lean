import BlockCompiler.Proofs.TypedCode

/-!
# Returns without a value

Code returns without a value where the source does: in functions that return nothing, and at a bare
return in a function whose result is of the unknown type, which the rules let pass.
-/

namespace BlockCompiler

open Target

variable {τ : Type} {f : Frame}

/-- Whether a bare return is among the statements. -/
def Stmt.HasBareReturn (sts : List (Stmt τ)) : Prop :=
  ∃ t, Stmt.ret t none ∈ sts

namespace Target.Builder

/-- Whether some block is closed by a return without a value. -/
def HasBareReturn (b : Builder) : Prop :=
  ∃ (i : Nat) (block : OpenBlock), b.blocks[i]? = some block ∧ block.terminator? = some (.ret none)

variable {b b' : Builder}

private theorem HasBareReturn.of_extends (h : b.HasBareReturn) (he : b.Extends b') :
    b'.HasBareReturn := by
  obtain ⟨i, block, hb, ht⟩ := h
  obtain ⟨block', hb', ht'⟩ := he.closed_of_closed hb ht
  exact ⟨i, block', hb', ht'⟩

private theorem HasBareReturn.moveTo (h : b.HasBareReturn) (id : BlockId) :
    (b.moveTo id).HasBareReturn := h

private theorem HasBareReturn.resume (h : b.HasBareReturn) (merge? : Option BlockId) :
    (b.resume merge?).HasBareReturn := by
  cases merge? with
  | none => exact h
  | some id => exact h

private theorem hasBareReturn_close (h : b.isOpen) : (b.close (.ret none)).HasBareReturn := by
  obtain ⟨id, block, hc, hb, _⟩ := isOpen_iff_exists.1 h
  have hcur : b.isCurrent id.index = true := by
    simp [isCurrent, hc]
  refine ⟨id.index, { block with terminator? := some (.ret none) }, ?_, rfl⟩
  simp [getElem?_blocks_close, hb, hcur]

end Target.Builder

namespace Stmt

mutual

/-- A bare return that is live is emitted. -/
private theorem Emitted.hasBareReturn {st : Stmt τ} {b b' : Builder} :
    st.Emitted f b b' → b.isOpen →
    HasBareReturn st.live → b'.HasBareReturn
  | .effect .., _, h | .voidRet .., _, h | .ret .., _, h => by
    simp [HasBareReturn, live] at h
  | .bareRet .., ho, _ => Builder.hasBareReturn_close ho
  | .branch _ _ hthn j₁ hels j₂, ho, h => by
    obtain ⟨t, h⟩ := h
    simp only [live, List.mem_cons, reduceCtorEq, false_or, List.mem_append] at h
    have hboth := hels.extends.trans j₂.extends
    rcases h with h | h
    · have hthen := hthn.hasBareReturn (Builder.isOpen_split _ _ _ (by simpa)) ⟨t, h⟩
      exact (((hthen.of_extends j₁.extends).moveTo _).of_extends hboth).resume _
    · have helse := hels.hasBareReturn (hthn.blank_else j₁ ho).isOpen_moveTo ⟨t, h⟩
      exact (helse.of_extends j₂.extends).resume _
  | .loop _ _ hbody, ho, h => by
    obtain ⟨t, h⟩ := h
    simp only [live, List.mem_cons, reduceCtorEq, false_or] at h
    have hopen := Builder.isOpen_proceed "loop.header" ho
    have hround := hbody.hasBareReturn (Builder.isOpen_split _ _ _ (by simpa)) ⟨t, h⟩
    exact (hround.of_extends (Builder.extends_closeOpen _ _)).moveTo _

private theorem EmittedAll.hasBareReturn {sts : List (Stmt τ)} {b b' : Builder} :
    EmittedAll f sts b b' → b.isOpen → HasBareReturn (liveAll sts) → b'.HasBareReturn
  | .nil _, _, h => by
    simp [HasBareReturn, liveAll] at h
  | .dead hf, ho, _ => by
    simp [ho] at hf
  | @EmittedAll.cons _ _ st sts _ b₁ _ _ hst hsts, ho, h => by
    obtain ⟨t, h⟩ := h
    rw [liveAll] at h
    rcases List.mem_append.1 h with h | h
    · exact (hst.hasBareReturn ho ⟨t, h⟩).of_extends hsts.extends
    · have hopen := hst.isOpen_eq ho
      cases hc : st.closes with
      | true => simp [hc] at h
      | false =>
        rw [hc] at hopen h
        exact hsts.hasBareReturn hopen ⟨t, h⟩

end

/-- In a function with a result, the terminator is a return without a value only if `Q`. -/
def BareReturnOnlyIf (f : Frame) (Q : Prop) (t : Terminator) : Prop :=
  t = .ret none → f.signature.result ≠ .void → Q

private theorem BareReturnOnlyIf.of_ne {Q : Prop} {t : Terminator} (h : t ≠ .ret none) :
    BareReturnOnlyIf f Q t :=
  fun ht => absurd ht h

mutual

/-- In a function that returns something, only live bare returns are emitted as such. -/
private theorem Emitted.bareReturnOnlyIf {Q : Prop} {st : Stmt τ} {b b' : Builder} :
    st.Emitted f b b' →
    st.WellTyped f.scope f.signature → b.isOpen → (HasBareReturn st.live → Q) →
    b.AllCode (fun _ => True) (BareReturnOnlyIf f Q) → b'.AllCode (fun _ => True) (BareReturnOnlyIf f Q)
  | .effect .., _, _, _, hb => hb.write _ fun _ _ => trivial
  | .bareRet t _, _, _, hQ, hb => hb.close fun _ _ => hQ ⟨t, List.mem_singleton.2 rfl⟩
  | .voidRet _ ha _, ht, _, _, hb => by
    cases ht with
    | ret _ ht _ nothing =>
      -- a value of type `Void` is returned only where the result is `Void`
      refine (hb.write _ fun _ _ => trivial).close ?_
      intro _ hv
      exact absurd (nothing (ht.eq_of_ascribedType? ha).symm) hv
  | .ret .., _, _, _, hb => (hb.write _ fun _ _ => trivial).close (.of_ne nofun)
  | @Emitted.branch _ _ _ _ _ _ _ _ _ _ _ _ m₂ _ _ n _ hthn j₁ hels j₂, ht, ho, hQ, hb => by
    cases ht with
    | branch _ _ htthn htels =>
      have hQthn := fun t h => hQ ⟨t, List.mem_cons_of_mem _ (List.mem_append_left _ h)⟩
      have hQels := fun t h => hQ ⟨t, List.mem_cons_of_mem _ (List.mem_append_right _ h)⟩
      have hthen := hthn.bareReturnOnlyIf htthn (Builder.isOpen_split _ _ _ (by simpa))
        (fun h => h.elim hQthn)
        ((hb.write n fun _ _ => trivial).split "then" "else" fun _ _ => .of_ne nofun)
      have helse := hels.bareReturnOnlyIf htels (hthn.blank_else j₁ ho).isOpen_moveTo
        (fun h => h.elim hQels) ((hthen.joins j₁ fun _ => .of_ne nofun).moveTo _)
      exact (helse.joins j₂ fun _ => .of_ne nofun).resume m₂
  | @Emitted.loop _ _ _ _ _ _ _ _ _ n _ hbody, ht, ho, hQ, hb => by
    cases ht with
    | loop _ _ htbody =>
      have hQbody := fun t h => hQ ⟨t, List.mem_cons_of_mem _ h⟩
      have hopen := Builder.isOpen_proceed "loop.header" ho
      have hheader := hb.proceed "loop.header" fun _ => .of_ne nofun
      have hround := hbody.bareReturnOnlyIf htbody (Builder.isOpen_split _ _ _ (by simpa))
        (fun h => h.elim hQbody)
        ((hheader.write n fun _ _ => trivial).split "loop.body" "loop.exit" fun _ _ => .of_ne nofun)
      exact (hround.closeOpen (t := .jump _) (.of_ne nofun)).moveTo _

private theorem EmittedAll.bareReturnOnlyIf {Q : Prop} {sts : List (Stmt τ)} {b b' : Builder} :
    EmittedAll f sts b b' → AllWellTyped f.scope f.signature sts → b.isOpen →
    (HasBareReturn (liveAll sts) → Q) →
    b.AllCode (fun _ => True) (BareReturnOnlyIf f Q) → b'.AllCode (fun _ => True) (BareReturnOnlyIf f Q)
  | .nil _, _, _, _, hb => hb
  | .dead _, _, _, _, hb => hb
  | @EmittedAll.cons _ _ st sts _ b₁ _ _ hst hsts, ht, ho, hQ, hb => by
    cases ht with
    | cons ht hts =>
      have hQst := fun t h => hQ ⟨t, by rw [liveAll]; exact List.mem_append_left _ h⟩
      have hb₁ := hst.bareReturnOnlyIf ht ho (fun h => h.elim hQst) hb
      have hopen := hst.isOpen_eq ho
      cases hc : st.closes with
      | true =>
        -- what follows is dead: its bare returns are not live, and nothing is emitted for it
        rw [hc] at hopen
        rw [hsts.eq_of_closed hopen]
        exact hb₁
      | false =>
        rw [hc] at hopen
        refine hsts.bareReturnOnlyIf hts hopen (fun h => h.elim fun t h => hQ ⟨t, ?_⟩) hb₁
        simp [liveAll, hc, h]

end

private theorem RelAll.hasBareReturn_iff {R : Expr τ → Expr τ → Prop} {sts sts' : List (Stmt τ)}
    (h : RelAll R sts sts') : HasBareReturn (Stmt.liveAll sts') ↔ HasBareReturn (Stmt.liveAll sts) := by
  constructor
  · intro hr
    obtain ⟨t, hr⟩ := hr
    obtain ⟨st, hst, hrel⟩ := exists_left_of_forall₂ h.liveAll hr
    cases hrel
    exact ⟨_, hst⟩
  · intro hr
    obtain ⟨t, hr⟩ := hr
    obtain ⟨st, hst, hrel⟩ := exists_right_of_forall₂ h.liveAll hr
    cases hrel
    exact ⟨_, hst⟩

end Stmt

/-- Whether some block of the function ends in a return without a value. -/
def Target.Function.HasBareReturn (g : Function) : Prop :=
  ∃ body, g.body? = some body ∧ ∃ block ∈ body.blocks, block.terminator = .ret none

namespace Func.Compiles

variable [Located τ] {s : Scope} {w : Width} {f : Func τ} {resolved typed : List (Stmt τ)}
  {b : Builder} {blocks : List Block}

private theorem liveBareReturn_iff (h : f.Compiles s w resolved typed b blocks) :
    Stmt.HasBareReturn (Stmt.liveAll typed) ↔ Stmt.HasBareReturn (Stmt.liveAll f.body) :=
  h.samePlain.hasBareReturn_iff.trans (Stmt.relAll_of_resolveAll h.resolve).hasBareReturn_iff

/-- A live bare return ends some block. -/
private theorem hasBareReturn (h : f.Compiles s w resolved typed b blocks)
    (hlive : Stmt.HasBareReturn (Stmt.liveAll f.body)) :
    ∃ block ∈ blocks, block.terminator = .ret none := by
  have hb := h.emitted.hasBareReturn (Builder.isOpen_start _) (h.liveBareReturn_iff.2 hlive)
  obtain ⟨i, block, hi, ht⟩ := hb.of_extends (Builder.extends_closeOpen _ f.signature.lastTerminator)
  obtain ⟨t, ht', hdone⟩ := (Builder.finish_eq_ok_iff.1 h.finish).2 i block hi
  rw [ht] at ht'
  cases ht'
  exact ⟨_, List.mem_of_getElem? hdone, rfl⟩

/-- A block of a function that returns something ends in a return without a value only for a live
bare return. -/
private theorem liveBareReturn_of_hasBareReturn (h : f.Compiles s w resolved typed b blocks)
    (hv : f.signature.result ≠ .void) {block : Block} (hmem : block ∈ blocks)
    (ht : block.terminator = .ret none) : Stmt.HasBareReturn (Stmt.liveAll f.body) := by
  have hcode := h.emitted.bareReturnOnlyIf h.wellTyped (Builder.isOpen_start _) h.liveBareReturn_iff.1
    (Builder.allCode_start _)
  have hlast : Stmt.BareReturnOnlyIf (f.frame s w) (Stmt.HasBareReturn (Stmt.liveAll f.body))
      f.signature.lastTerminator := by
    refine .of_ne ?_
    rw [Signature.lastTerminator, if_neg hv]
    exact nofun
  exact ((hcode.closeOpen hlast).finish h.finish block hmem).2 ht hv

/-- The rules let a bare return pass only where nothing or an unknown value is returned. -/
private theorem result_eq_any (h : f.Compiles s w resolved typed b blocks)
    (hlive : Stmt.HasBareReturn (Stmt.liveAll f.body)) (hv : f.signature.result ≠ .void) :
    f.signature.result = .any := by
  obtain ⟨t, hlive⟩ := h.liveBareReturn_iff.2 hlive
  cases h.wellTyped.liveAll _ hlive with
  | bareRet _ fits => simpa [hv, eq_comm] using fits

end Func.Compiles

/-- A definition returns without a value although it has a result just when the function has an
unknown result and a live bare return. -/
theorem Func.CompilesTo.bareReturn_iff [Located τ] {s : Scope} {w : Width} {path : Path} {f : Func τ}
    {g : Function} (h : f.CompilesTo s w path g) :
    (g.HasBareReturn ∧ g.result ≠ .void) ↔
      (f.signature.result = .any ∧ Stmt.HasBareReturn (Stmt.liveAll f.body)) := by
  obtain ⟨_, _, b, blocks, h, rfl⟩ := h
  have hresult : (f.definition w path blocks).result ≠ .void ↔ f.signature.result ≠ .void :=
    not_congr Ty.target_eq_void_iff
  rw [hresult]
  constructor
  · intro hg
    obtain ⟨⟨_, hbody, block, hmem, ht⟩, hv⟩ := hg
    cases hbody
    have hlive := h.liveBareReturn_of_hasBareReturn hv hmem ht
    exact ⟨h.result_eq_any hlive hv, hlive⟩
  · intro hf
    obtain ⟨hany, hlive⟩ := hf
    exact ⟨⟨_, rfl, h.hasBareReturn hlive⟩, by simp [hany]⟩

/-- Of the definitions of a module, those that return without a value although they have a result
are the ones of functions with an unknown result and a live bare return. -/
theorem compile_bareReturn_iff [Located τ] {lib : Library} {w : Width} {p : Program τ}
    {r : Compilation} (h : (compile lib w p).outcome = .ok r) :
    List.Forall₂
      (fun f g => (g.HasBareReturn ∧ g.result ≠ .void) ↔
        (f.signature.result = .any ∧ Stmt.HasBareReturn (Stmt.liveAll f.body)))
      (p.functions.filter (!·.isExternal)) r.module.definitions := by
  obtain ⟨resolved, typed, h⟩ := compile_eq_ok_iff.1 h
  exact h.definitions.imp fun f g hf => hf.bareReturn_iff

/-- Bare returns in a function with no result, in one arm of a function with an unknown result, and
behind a return of a value. -/
def stopping : Program Unit :=
  ⟨.single "m",
    [.function () ⟨"f", false, ⟨[], none⟩, [.ret () none]⟩,
     .function () ⟨"g", false, ⟨[⟨.bool, "b"⟩], some .any⟩,
      [.branch () (.var () "b") [.ret () none] [], .ret () (some (.var () "b"))]⟩,
     .function () ⟨"h", false, ⟨[⟨.any, "x"⟩], some .any⟩,
      [.ret () (some (.var () "x")), .ret () none]⟩]⟩

theorem compile_bareReturn_iff_stopping :
    ∃ r, (compile Library.empty .w64 stopping).outcome = .ok r ∧
      List.Forall₂
        (fun f g => (g.HasBareReturn ∧ g.result ≠ .void) ↔
          (f.signature.result = .any ∧ Stmt.HasBareReturn (Stmt.liveAll f.body)))
        (stopping.functions.filter (!·.isExternal)) r.module.definitions := by
  obtain ⟨r, hr⟩ := Outcome.exists_eq_ok
    (x := (compile Library.empty .w64 stopping).outcome) (by decide +kernel)
  exact ⟨r, hr, compile_bareReturn_iff hr⟩

/-- A function with an unknown result that only stops. -/
def abrupt : Program Unit :=
  ⟨.single "m", [.function () ⟨"f", false, ⟨[], some .any⟩, [.ret () none]⟩]⟩

/-- Returns without a value are not confined to functions without a result. -/
theorem abrupt_bareReturn :
    ∃ r, (compile Library.empty .w64 abrupt).outcome = .ok r ∧
      ∃ g ∈ r.module.definitions, g.HasBareReturn ∧ g.result ≠ .void := by
  obtain ⟨r, hr⟩ := Outcome.exists_eq_ok
    (x := (compile Library.empty .w64 abrupt).outcome) (by decide +kernel)
  obtain ⟨resolved, typed, h⟩ := compile_eq_ok_iff.1 hr
  obtain ⟨g, hg, hf⟩ := exists_right_of_forall₂ h.definitions List.mem_cons_self
  exact ⟨r, hr, g, hg, hf.bareReturn_iff.2 ⟨rfl, (), List.mem_cons_self⟩⟩

end BlockCompiler
