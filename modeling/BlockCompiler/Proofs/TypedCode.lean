import BlockCompiler.Proofs.Code
import BlockCompiler.Proofs.RegisterTypes
import BlockCompiler.Proofs.TwosComplement
import BlockCompiler.Proofs.Visible

/-!
# Emitted code is well typed

Well-typed source code becomes well-typed target code: there are types for the registers of each
function at which all its instructions and terminators are well typed, and each call names a function
of the module.
-/

namespace BlockCompiler

open Target

variable {τ : Type}

/-- The module has every function that is visible in the frame, under its link name. -/
structure Frame.HostedBy (f : Frame) (m : Module) : Prop where
  width : m.width = f.width
  function : ∀ path symbol, f.scope.function? path = some symbol → ∃ g ∈ m.functions,
    g.name = path.linkName ∧ g.params = symbol.decl.params.map (·.ty.target f.width) ∧
      g.result = symbol.decl.result.target f.width

/-- The registers of the arguments have the types of the parameters. -/
def Frame.Assigned (f : Frame) (Γ : RegTypes) : Prop :=
  f.args.map Γ = f.signature.params.map (·.ty.target f.width)

private theorem Frame.Assigned.of_sameBelow {f : Frame} {Γ Γ' : RegTypes} {n : Nat}
    (h : f.Assigned Γ) (hΓ : SameBelow n Γ Γ') (hn : f.signature.params.length ≤ n) :
    f.Assigned Γ' := by
  unfold Assigned at h ⊢
  rw [← h]
  refine List.map_congr_left ?_
  intro r hr
  have hlt := Frame.index_lt_of_mem_args hr
  exact hΓ r (by omega)

/-- The register of a variable has the variable's type. -/
private theorem Frame.Assigned.register? {f : Frame} {Γ : RegTypes} {name : String} {r : Reg}
    {ty : Ty} (h : f.Assigned Γ) (hr : f.register? name = some r)
    (ht : f.signature.typeOf? name = some ty) :
    Γ r = ty.target f.width := by
  rw [f.typeOf?_eq, Option.map_eq_some_iff] at ht
  obtain ⟨entry, he, rfl⟩ := ht
  rw [Frame.register?, he] at hr
  cases hr
  have hmem := List.mem_reverse.1 (List.mem_of_find?_eq_some he)
  have hparams : (f.signature.params.zip f.args).map Prod.fst = f.signature.params :=
    List.map_fst_zip (Nat.le_of_eq f.length_args.symm)
  have hargs : (f.signature.params.zip f.args).map Prod.snd = f.args :=
    List.map_snd_zip (Nat.le_of_eq f.length_args)
  have hzip : (f.signature.params.zip f.args).map (Γ ∘ Prod.snd) =
      (f.signature.params.zip f.args).map ((·.ty.target f.width) ∘ Prod.fst) := by
    rw [← List.map_map, hargs, ← List.map_map, hparams]
    exact h
  exact List.map_inj_left.1 hzip entry hmem

/-- A piece of code in a body of module `m`. -/
def Code.WellTyped (m : Module) (Γ : RegTypes) (c : Code) : Prop :=
  ∀ piece ∈ c, piece.toInstr.WellTyped m Γ

namespace Code.WellTyped

variable {m : Module} {Γ : RegTypes} {c d : Code}

private theorem nil : Code.WellTyped m Γ [] := by
  simp [Code.WellTyped]

private theorem append (hc : c.WellTyped m Γ) (hd : d.WellTyped m Γ) : (c ++ d).WellTyped m Γ :=
  List.forall_mem_append.2 ⟨hc, hd⟩

private theorem instr {i : Instr} (h : i.WellTyped m Γ) : Code.WellTyped m Γ [.instr i] := by
  intro piece hp
  cases List.mem_singleton.1 hp
  exact h

end Code.WellTyped

/-- An integer constant is in range. -/
private theorem Target.Operand.hasType_wrap (w : Width) (Γ : RegTypes) (v : Int) :
    (Operand.int (w.wrap v)).HasType w Γ (.int w) :=
  .int (w.wrap_bounds v).1 (w.wrap_bounds v).2

private theorem Ty.against_comm {a b : Ty} (fits : a = b ∨ a = .any ∨ b = .any) :
    a.against b = b.against a := by
  rcases fits with rfl | rfl | rfl <;> simp [against]

variable {f : Frame} {m : Module} {Γ : RegTypes}

private theorem BinOp.Types.wellTyped {op : BinOp} {a b ty : Ty} {x y : Operand} {r : Reg}
    (h : op.Types a b ty) (hx : x.HasType m.width Γ ((a.against b).target m.width))
    (hy : y.HasType m.width Γ ((b.against a).target m.width)) (hr : Γ r = ty.target m.width) :
    (op.instr x y r).WellTyped m Γ := by
  cases h with
  | arith op => exact .arith op hx hy hr
  | order op _ => exact .compare op hx hy hr
  | equality op _ _ _ fits =>
    rw [Ty.against_comm fits] at hx
    exact .compare op hx hy hr

private theorem Ty.eq_of_target_eq_int {ty : Ty} {w w' : Width} (h : ty.target w = .int w') :
    w' = w := by
  cases ty <;> cases h
  rfl

theorem Ty.target_eq_void_iff {ty : Ty} {w : Width} : ty.target w = .void ↔ ty = .void := by
  cases ty <;> simp [target]

/-- A conversion is used at the types it is for. -/
private theorem wellTyped_of_conversion? {source dest : Target.Ty} {instr : Operand → Reg → Instr}
    {x : Operand} {r : Reg} (hc : source.conversion? dest = some instr)
    (hs : ∀ w, source = .int w → w = m.width) (hd : ∀ w, dest = .int w → w = m.width)
    (hx : x.HasType m.width Γ source) (hr : Γ r = dest) : (instr x r).WellTyped m Γ := by
  cases source with
  | int w =>
    cases dest <;> cases hc
    cases hs w rfl
    exact .intToPtr hx (.inl rfl) hr
  | bool =>
    cases dest <;> cases hc
    exact .intToPtr hx (.inr rfl) hr
  | ptr =>
    cases dest with
    | int w =>
      cases hc
      cases hd w rfl
      exact .ptrToInt hx (.inl rfl) hr
    | bool =>
      cases hc
      exact .ptrToInt hx (.inr rfl) hr
    | ptr | void => cases hc
  | void => cases hc

private theorem Coerces.typed {source dest : Ty} {n n' : Nat} {x x' : Operand} {c : Code}
    {w : Width} (h : Coerces w source dest n x x' c n') (hw : m.width = w) (Γ₀ : RegTypes) :
    Assignable n n' Γ₀ fun Γ => x.HasType w Γ (source.target w) →
      c.WellTyped m Γ ∧ x'.HasType w Γ (dest.target w) := by
  subst hw
  cases h with
  | same h =>
    refine .none ?_
    intro Γ _ hx
    rw [← h]
    exact ⟨.nil, hx⟩
  | convert h hc =>
    refine (Assignable.one n Γ₀ (dest.target m.width)).imp ?_
    intro Γ hΓ hx
    refine ⟨.instr ?_, .reg hΓ⟩
    exact wellTyped_of_conversion? hc (fun _ => Ty.eq_of_target_eq_int)
      (fun _ => Ty.eq_of_target_eq_int) hx hΓ

/-- A call of a visible function is well typed in the module. -/
private theorem Frame.HostedBy.wellTyped_call (hm : f.HostedBy m) {path : Path}
    {symbol : Symbol Signature} {xs : List Operand} {dest? : Option Reg}
    (hs : f.scope.function? path = some symbol)
    (hargs : List.Forall₂ (fun x ty => x.HasType f.width Γ ty) xs
      (symbol.decl.params.map (·.ty.target f.width)))
    (hd : ∀ dest, dest? = some dest → Γ dest = symbol.decl.result.target f.width)
    (hv : dest? = none ↔ symbol.decl.result = .void) :
    (Instr.call dest? path.linkName xs).WellTyped m Γ := by
  obtain ⟨g, hg, hname, hparams, hresult⟩ := hm.function path symbol hs
  rw [← hparams, ← hm.width] at hargs
  rw [← hname]
  refine .call hg hargs ?_ ?_
  · rw [hresult]
    exact hd
  · rw [hresult, Ty.target_eq_void_iff]
    exact hv

namespace Expr

mutual

/-- The code of a well-typed expression is well typed, and so is the operand that holds its value. -/
private theorem Emits.typed (hm : f.HostedBy m) {e : Expr τ} {ty : Ty} {n n' : Nat} {x : Operand}
    {c : Code} :
    e.Emits f n x c n' → e.HasType f.scope f.signature ty → f.signature.params.length ≤ n →
    ∀ Γ₀, f.Assigned Γ₀ → Assignable n n' Γ₀ fun Γ =>
      c.WellTyped m Γ ∧ x.HasType f.width Γ (ty.target f.width)
  | .bool t t' ty' v n, ht, _, Γ₀, _ => by
    cases ht with
    | ascribed _ ht =>
      cases ht
      exact .none fun Γ _ => ⟨.nil, .bool v⟩
  | .int t t' ty' v n, ht, _, Γ₀, _ => by
    cases ht with
    | ascribed _ ht =>
      cases ht
      exact .none fun Γ _ => ⟨.nil, Operand.hasType_wrap f.width Γ v⟩
  | .str t t' ty' v n, ht, _, Γ₀, _ => by
    cases ht with
    | ascribed _ ht =>
      cases ht
      refine ((Assignable.one n Γ₀ .ptr).seq (Nat.le_succ n) (Nat.le_succ (n + 1)) fun Γ₁ _ =>
        Assignable.one (n + 1) Γ₁ .ptr).imp ?_
      intro Γ h
      obtain ⟨hslot, hvalue⟩ := h
      refine ⟨?_, .reg hvalue⟩
      intro piece hp
      simp only [List.mem_cons, List.not_mem_nil, or_false] at hp
      rcases hp with rfl | rfl | rfl
      · exact .alloca _ hslot
      · exact .store _ hslot
      · exact .bitcast hslot hvalue
  | .var t t' ty' n hr, ht, hn, Γ₀, hΓ₀ => by
    cases ht with
    | ascribed _ ht =>
      cases ht with
      | var _ ht =>
        refine .none ?_
        intro Γ hΓ
        have hreg := (hΓ₀.of_sameBelow hΓ hn).register? hr ht
        exact ⟨.nil, .reg hreg⟩
  | .neg t t' ty' _ h, ht, hn, Γ₀, hΓ₀ => by
    have ht' := ht.negated
    cases ht with
    | ascribed _ ht =>
      cases ht
      refine ((h.typed hm ht' hn Γ₀ hΓ₀).seq h.le (Nat.le_succ _) fun Γ₁ _ =>
        Assignable.one _ Γ₁ (.int f.width)).imp ?_
      intro Γ hΓ
      obtain ⟨⟨hc, hx⟩, hr⟩ := hΓ
      refine ⟨hc.append (.instr ?_), .reg hr⟩
      rw [← hm.width] at hx hr
      exact .neg hx hr
  | .binary t t' ty' op ha hb hl hr hx hy, ht, hn, Γ₀, hΓ₀ => by
    cases ht with
    | ascribed _ ht =>
      cases ht with
      | binary _ htl htr hop =>
        cases htl.eq_of_ascribedType? ha
        cases htr.eq_of_ascribedType? hb
        have hle := Nat.le_succ_of_le (Nat.le_trans hx.le hy.le)
        have hn₁ := Nat.le_trans hn hl.le
        refine ((hl.typed hm htl hn Γ₀ hΓ₀).seq hl.le (Nat.le_trans hr.le hle) fun Γ₁ h₁ =>
          (hr.typed hm htr hn₁ Γ₁ (hΓ₀.of_sameBelow h₁ hn)).seq hr.le hle fun Γ₂ _ =>
            (hx.typed hm.width Γ₂).seq hx.le (Nat.le_succ_of_le hy.le) fun Γ₃ _ =>
              (hy.typed hm.width Γ₃).seq hy.le (Nat.le_succ _) fun Γ₄ _ =>
                Assignable.one _ Γ₄ (ty.target f.width)).imp ?_
        intro Γ h
        obtain ⟨⟨hc₁, hx₁⟩, ⟨hc₂, hy₁⟩, hx₂, hy₂, hdest⟩ := h
        obtain ⟨hc₃, hx'⟩ := hx₂ hx₁
        obtain ⟨hc₄, hy'⟩ := hy₂ hy₁
        refine ⟨hc₁.append (hc₂.append (hc₃.append (hc₄.append (.instr ?_)))), .reg hdest⟩
        rw [← hm.width] at hx' hy' hdest
        exact hop.wellTyped hx' hy' hdest
  | .call t t' ty' hs h hv, ht, hn, Γ₀, hΓ₀ => by
    have fit := ht.argsFit hs
    refine ((h.typed hm fit hn Γ₀ hΓ₀).seq h.le (Nat.le_succ _) fun Γ₁ _ =>
      Assignable.one _ Γ₁ (ty.target f.width)).imp ?_
    intro Γ hΓ
    obtain ⟨⟨hc, hargs⟩, hr⟩ := hΓ
    have hres := ht.result_eq hs
    subst hres
    exact ⟨hc.append (.instr (hm.wellTyped_call hs hargs (by simpa using hr) (by simpa using hv))),
      .reg hr⟩

private theorem EmitsArgs.typed (hm : f.HostedBy m) {args : List (Expr τ)} {params : List Param}
    {n n' : Nat} {xs : List Operand} {c : Code} : EmitsArgs f args params n xs c n' →
    ArgsFit f.scope f.signature args params → f.signature.params.length ≤ n →
    ∀ Γ₀, f.Assigned Γ₀ → Assignable n n' Γ₀ fun Γ =>
      c.WellTyped m Γ ∧
        List.Forall₂ (fun x ty => x.HasType f.width Γ ty) xs (params.map (·.ty.target f.width))
  | .noArgs params n, fit, _, Γ₀, _ => by
    cases fit
    exact .none fun Γ _ => ⟨.nil, .nil⟩
  | .noParams arg args n, fit, _, Γ₀, _ => by
    cases fit
  | .cons ha h hx rest, fit, hn, Γ₀, hΓ₀ => by
    cases fit with
    | cons ht _ _ fit =>
      cases ht.eq_of_ascribedType? ha
      have hn₂ := Nat.le_trans (Nat.le_trans hn h.le) hx.le
      refine ((h.typed hm ht hn Γ₀ hΓ₀).seq h.le (Nat.le_trans hx.le rest.le) fun Γ₁ h₁ =>
        (hx.typed hm.width Γ₁).seq hx.le rest.le fun Γ₂ h₂ =>
          rest.typed hm fit hn₂ Γ₂ ?_).imp ?_
      · exact (hΓ₀.of_sameBelow h₁ hn).of_sameBelow h₂ (Nat.le_trans hn h.le)
      · intro Γ hΓ
        obtain ⟨⟨hc₁, hx₁⟩, hx₂, hc₃, hxs⟩ := hΓ
        obtain ⟨hc₂, hx'⟩ := hx₂ hx₁
        exact ⟨hc₁.append (hc₂.append hc₃), .cons hx' hxs⟩

end

private theorem EmitsEffect.typed (hm : f.HostedBy m) {e : Expr τ} {ty : Ty} {n n' : Nat} {c : Code}
    (h : e.EmitsEffect f n c n') (ht : e.HasType f.scope f.signature ty)
    (hn : f.signature.params.length ≤ n) (Γ₀ : RegTypes) (hΓ₀ : f.Assigned Γ₀) :
    Assignable n n' Γ₀ fun Γ => c.WellTyped m Γ := by
  cases h with
  | value h => exact (h.typed hm ht hn Γ₀ hΓ₀).imp fun Γ hΓ => hΓ.1
  | voidCall _ _ _ hs h hv =>
    refine (h.typed hm (ht.argsFit hs) hn Γ₀ hΓ₀).imp ?_
    intro Γ hΓ
    exact hΓ.1.append (.instr (hm.wellTyped_call hs hΓ.2 (by simp) (by simpa using hv)))

end Expr

/-- No value is converted to `Void`. -/
private theorem Coerces.dest_ne_void {source dest : Ty} {n n' : Nat} {x x' : Operand} {c : Code}
    {w : Width} (h : Coerces w source dest n x x' c n') (hs : source ≠ .void) : dest ≠ .void := by
  intro hd
  subst hd
  cases h with
  | same h => exact hs (Ty.target_eq_void_iff.1 h)
  | convert _ hc =>
    cases hsource : source.target w <;> rw [hsource] at hc <;> cases hc

/-- All code of the builder is well typed in a body of the frame's function. -/
def Target.Builder.WellTyped (m : Module) (f : Frame) (Γ : RegTypes) (b : Builder) : Prop :=
  b.AllCode (·.WellTyped m Γ) (·.WellTyped f.width Γ (f.signature.result.target f.width))

namespace Stmt

mutual

/-- The types of registers can be chosen so that a well-typed statement adds well-typed code. -/
private theorem Emitted.typed (hm : f.HostedBy m) {st : Stmt τ} {b b' : Builder} :
    st.Emitted f b b' →
    st.WellTyped f.scope f.signature → f.signature.params.length ≤ b.nextReg →
    ∀ Γ₀, f.Assigned Γ₀ → Assignable b.nextReg b'.nextReg Γ₀ fun Γ =>
      b.WellTyped m f Γ → b'.WellTyped m f Γ
  | .effect _ h, ht, hn, Γ₀, hΓ₀ => by
    cases ht with
    | effect _ ht =>
      refine (h.typed hm ht hn Γ₀ hΓ₀).imp ?_
      intro Γ hc hb
      exact hb.write _ hc
  | .bareRet _ b, _, _, Γ₀, _ => by
    rw [Builder.nextReg_close]
    exact .none fun Γ _ hb => hb.close .bareRet
  | .voidRet _ _ h, ht, hn, Γ₀, hΓ₀ => by
    cases ht with
    | ret _ ht _ _ =>
      rw [Builder.nextReg_close]
      refine (h.typed hm ht hn Γ₀ hΓ₀).imp ?_
      intro Γ hc hb
      exact (hb.write _ hc).close .bareRet
  | .ret _ ha hv h hx, ht, hn, Γ₀, hΓ₀ => by
    cases ht with
    | ret _ ht _ _ =>
      cases ht.eq_of_ascribedType? ha
      rw [Builder.nextReg_close]
      refine ((h.typed hm ht hn Γ₀ hΓ₀).seq h.le hx.le fun Γ₁ _ => hx.typed hm.width Γ₁).imp ?_
      intro Γ hΓ hb
      obtain ⟨⟨hc, hx₁⟩, hx₂⟩ := hΓ
      obtain ⟨hc', hx'⟩ := hx₂ hx₁
      refine (hb.write _ (hc.append hc')).close (.ret hx' ?_)
      rw [ne_eq, Ty.target_eq_void_iff]
      exact hx.dest_ne_void hv
  | @Emitted.branch _ _ _ _ _ _ b b₁ b₁' b₂ b₂' m₁ m₂ x c n h hthn j₁ hels j₂, ht, hn, Γ₀, hΓ₀ => by
    cases ht with
    | branch _ ht htthn htels =>
      have hn₁ := Nat.le_trans hn h.le
      have hle₁ : n ≤ b₁.nextReg := by simpa using hthn.extends.nextReg_le
      have hle₂ : b₁.nextReg ≤ b₂.nextReg := by simpa [j₁.nextReg_eq] using hels.extends.nextReg_le
      have hthen := hthn.typed hm htthn (by simpa using hn₁)
      have helse := hels.typed hm htels (by simpa [j₁.nextReg_eq] using Nat.le_trans hn₁ hle₁)
      simp only [Builder.nextReg_split, Builder.nextReg_write] at hthen
      simp only [Builder.nextReg_moveTo, j₁.nextReg_eq] at helse
      rw [Builder.nextReg_resume, j₂.nextReg_eq]
      refine ((h.typed hm ht hn Γ₀ hΓ₀).seq h.le (Nat.le_trans hle₁ hle₂) fun Γ₁ h₁ =>
        have hΓ₁ := hΓ₀.of_sameBelow h₁ hn
        (hthen Γ₁ hΓ₁).seq hle₁ hle₂ fun Γ₂ h₂ => helse Γ₂ (hΓ₁.of_sameBelow h₂ hn₁)).imp ?_
      intro Γ hΓ hb
      obtain ⟨⟨hc, hx⟩, hthen, helse⟩ := hΓ
      have hsplit := (hb.write n hc).split "then" "else" fun id id' => .branch id id' hx
      have hmerge := (hthen hsplit).joins j₁ .jump
      exact ((helse (hmerge.moveTo _)).joins j₂ .jump).resume m₂
  | @Emitted.loop _ _ _ _ _ b b₁ x c n h hbody, ht, hn, Γ₀, hΓ₀ => by
    cases ht with
    | loop _ ht htbody =>
      have hn₁ := Nat.le_trans hn h.le
      have hle : n ≤ b₁.nextReg := by simpa using hbody.extends.nextReg_le
      have hround := hbody.typed hm htbody (by simpa using hn₁)
      simp only [Builder.nextReg_split, Builder.nextReg_write] at hround
      rw [Builder.nextReg_moveTo, Builder.nextReg_closeOpen]
      refine ((h.typed hm ht hn Γ₀ hΓ₀).seq h.le hle fun Γ₁ h₁ =>
        hround Γ₁ (hΓ₀.of_sameBelow h₁ hn)).imp ?_
      intro Γ hΓ hb
      obtain ⟨⟨hc, hx⟩, hround⟩ := hΓ
      have hheader := (hb.proceed "loop.header" .jump).write n hc
      have hsplit := hheader.split "loop.body" "loop.exit" fun id id' => .branch id id' hx
      exact ((hround hsplit).closeOpen (.jump _)).moveTo _

private theorem EmittedAll.typed (hm : f.HostedBy m) {sts : List (Stmt τ)} {b b' : Builder} :
    EmittedAll f sts b b' → AllWellTyped f.scope f.signature sts →
    f.signature.params.length ≤ b.nextReg → ∀ Γ₀, f.Assigned Γ₀ →
    Assignable b.nextReg b'.nextReg Γ₀ fun Γ => b.WellTyped m f Γ → b'.WellTyped m f Γ
  | .nil _, _, _, _, _ => .none fun _ _ hb => hb
  | .dead _, _, _, _, _ => .none fun _ _ hb => hb
  | .cons ho hst hsts, ht, hn, Γ₀, hΓ₀ => by
    cases ht with
    | cons ht hts =>
      have hle := (hst.extends ho).nextReg_le
      refine ((hst.typed hm ht hn Γ₀ hΓ₀).seq hle hsts.extends.nextReg_le fun Γ₁ h₁ =>
        hsts.typed hm hts (Nat.le_trans hn hle) Γ₁ (hΓ₀.of_sameBelow h₁ hn)).imp ?_
      intro Γ hΓ hb
      exact hΓ.2 (hΓ.1 hb)

end

end Stmt

private theorem Frame.exists_assigned (f : Frame) : ∃ Γ, f.Assigned Γ := by
  refine ⟨fun r => ((f.signature.params.map (·.ty.target f.width))[r.index]?).getD .void, ?_⟩
  unfold Frame.Assigned
  refine List.ext_getElem (by simp [Frame.args]) ?_
  intro i h₁ h₂
  simp at h₂
  simp [Frame.args, h₂]

/-- The code of a function is well typed in a module that has all functions it can call. -/
theorem Func.Compiles.wellTyped_definition [Located τ] {s : Scope} {w : Width} {f : Func τ}
    {resolved typed : List (Stmt τ)} {b : Builder} {blocks : List Block}
    (h : f.Compiles s w resolved typed b blocks) (hm : (f.frame s w).HostedBy m) (path : Path) :
    (f.definition w path blocks).WellTyped m := by
  intro body hbody
  cases hbody
  obtain ⟨Γ₀, hΓ₀⟩ := (f.frame s w).exists_assigned
  obtain ⟨Γ, hΓ, htyped⟩ := h.emitted.typed hm h.wellTyped (Nat.le_refl _) Γ₀ hΓ₀
  have hlast : f.signature.lastTerminator.WellTyped w Γ (f.signature.result.target w) := by
    unfold Signature.lastTerminator
    split
    · exact .bareRet
    · exact .unreachable
  have hcode := (htyped Γ (fun _ _ => rfl) (Builder.allCode_start _)).closeOpen hlast
  refine ⟨Γ, hΓ₀.of_sameBelow hΓ (Nat.le_refl _), ?_⟩
  have hwidth : m.width = w := hm.width
  rw [hwidth]
  exact hcode.finish h.finish

namespace Compiles

variable [Located τ] {lib : Library} {w : Width} {p resolved typed : Program τ} {s : Scope}

/-- Every visible function is declared or defined in the module. -/
theorem hostedBy (h : Compiles lib w p s resolved typed m) (f : Func τ) :
    (f.frame s w).HostedBy m := by
  obtain ⟨defined, _, hm⟩ := Program.emit_eq_ok_iff.1 h.emit
  refine ⟨by rw [hm]; rfl, ?_⟩
  intro path symbol hs
  cases Scope.visible_of_ofProgram h.scope hs with
  | own hf' =>
    obtain ⟨g, hg, hto⟩ := h.exists_emittedAs hf'
    have hdecl := hto.eq_declaration
    exact ⟨g, hg, congrArg Function.name hdecl, congrArg Function.params hdecl,
      congrArg Function.result hdecl⟩
  | imported => exact ⟨_, h.declaration_mem hs rfl, rfl, rfl, rfl⟩

end Compiles

/-- The emitted code is well typed, at the width it was compiled for. -/
theorem compile_wellTyped [Located τ] {lib : Library} {w : Width} {p : Program τ} {r : Compilation}
    (h : (compile lib w p).outcome = .ok r) :
    r.module.width = w ∧ ∀ g ∈ r.module.functions, g.WellTyped r.module := by
  obtain ⟨resolved, typed, h⟩ := compile_eq_ok_iff.1 h
  constructor
  · obtain ⟨_, _, hm⟩ := Program.emit_eq_ok_iff.1 h.emit
    rw [hm]
    rfl
  · intro g hg body hbody
    have hdef : g ∈ r.module.definitions :=
      List.mem_filter.2 ⟨hg, by simp [Function.isDeclaration, hbody]⟩
    obtain ⟨f, _, _, _, _, _, hf, rfl⟩ := exists_left_of_forall₂ h.definitions hdef
    exact hf.wellTyped_definition (h.hostedBy f) _ body hbody

/-- A program in which values are passed as unknown ones, of which some are compared. -/
def boxing : Program Unit :=
  ⟨.single "m",
    [.function () ⟨"print", true, ⟨[⟨.any, "x"⟩], none⟩, []⟩,
     .function () ⟨"f", false, ⟨[⟨.int, "n"⟩, ⟨.any, "x"⟩], some .any⟩,
      [.effect () (.bareCall () "print" [.lit () (.str "n")]),
       .effect () (.bareCall () "print" [.neg () (.var () "n")]),
       .branch () (.binary () (.compare .eq) (.var () "x") (.var () "n"))
        [.ret () (some (.lit () (.bool true)))] [],
       .ret () (some (.bareCall () "f" [.lit () (.int 4294967296), .var () "n"]))]⟩]⟩

theorem compile_wellTyped_boxing :
    ∃ r, (compile Library.empty .w32 boxing).outcome = .ok r ∧ r.module.width = .w32 ∧
      ∀ g ∈ r.module.functions, g.WellTyped r.module := by
  obtain ⟨r, hr⟩ := Outcome.exists_eq_ok
    (x := (compile Library.empty .w32 boxing).outcome) (by decide +kernel)
  exact ⟨r, hr, compile_wellTyped hr⟩

end BlockCompiler
