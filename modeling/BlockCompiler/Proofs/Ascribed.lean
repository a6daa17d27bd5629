import BlockCompiler.Proofs.Outcome
import BlockCompiler.Proofs.Straight
import BlockCompiler.Typing.Ascription
import BlockCompiler.Typing.Rules

/-!
# Fully ascribed expressions

Adding types to a well-typed expression succeeds. The result is the same expression up to
ascriptions, each of its nodes is ascribed once, and it has the type the original had.
-/

namespace BlockCompiler

variable {τ : Type}

private theorem BinOp.Types.unique {op : BinOp} {a b ty ty' : Ty} (h : op.Types a b ty)
    (h' : op.Types a b ty') : ty = ty' := by
  cases h <;> cases h' <;> rfl

namespace Expr

mutual

/-- The expression without its ascriptions. -/
def plain : Expr τ → Expr τ
  | bareCall t name args => bareCall t name (plainAll args)
  | call t path args => call t path (plainAll args)
  | binary t op lhs rhs => binary t op lhs.plain rhs.plain
  | neg t operand => neg t operand.plain
  | ascribed _ _ inner => inner.plain
  | lit t value => lit t value
  | var t name => var t name

def plainAll : List (Expr τ) → List (Expr τ)
  | [] => []
  | e :: es => e.plain :: plainAll es

end

mutual

/-- Whether every node of the expression is ascribed a type, and only once. -/
def Wrapped : Expr τ → Prop
  | ascribed _ _ (lit ..) | ascribed _ _ (var ..) => True
  | ascribed _ _ (neg _ operand) => operand.Wrapped
  | ascribed _ _ (binary _ _ lhs rhs) => lhs.Wrapped ∧ rhs.Wrapped
  | ascribed _ _ (call _ _ args) => WrappedAll args
  | _ => False

def WrappedAll : List (Expr τ) → Prop
  | [] => True
  | e :: es => e.Wrapped ∧ WrappedAll es

end

variable {s : Scope} {sig : Signature}

theorem HasType.ascribedType?_eq {e : Expr τ} {ty : Ty} (h : e.HasType s sig ty) (hw : e.Wrapped) :
    e.ascribedType? = some ty := by
  cases h with
  | ascribed _ _ => rfl
  | lit | var | neg | binary | call => simp [Wrapped] at hw

/-- An ascription that is right tells the type. -/
theorem HasType.eq_of_ascribedType? {e : Expr τ} {ty ty' : Ty} (h : e.HasType s sig ty)
    (ha : e.ascribedType? = some ty') : ty' = ty := by
  cases h with
  | ascribed _ _ => exact (Option.some.inj ha).symm
  | lit | var | neg | binary | call => simp [ascribedType?] at ha

section Inversion

variable {t t' : τ} {ty ty' : Ty}

theorem HasType.operands {op : BinOp} {lhs rhs : Expr τ}
    (h : (Expr.ascribed t ty (.binary t' op lhs rhs)).HasType s sig ty') :
    ∃ a b, lhs.HasType s sig a ∧ rhs.HasType s sig b := by
  cases h with
  | ascribed _ h =>
    cases h with
    | binary _ hl hr _ => exact ⟨_, _, hl, hr⟩

theorem HasType.negated {operand : Expr τ}
    (h : (Expr.ascribed t ty (.neg t' operand)).HasType s sig ty') : operand.HasType s sig .int := by
  cases h with
  | ascribed _ h =>
    cases h with
    | neg _ h => exact h

theorem HasType.argsFit {path : Path} {args : List (Expr τ)} {symbol : Symbol Signature}
    (h : (Expr.ascribed t ty (.call t' path args)).HasType s sig ty')
    (hs : s.function? path = some symbol) : ArgsFit s sig args symbol.decl.params := by
  cases h with
  | ascribed _ h =>
    cases h with
    | call _ hs' fit =>
      rw [hs] at hs'
      cases hs'
      exact fit

theorem HasType.result_eq {path : Path} {args : List (Expr τ)} {symbol : Symbol Signature}
    (h : (Expr.ascribed t ty (.call t' path args)).HasType s sig ty')
    (hs : s.function? path = some symbol) : symbol.decl.result = ty' := by
  cases h with
  | ascribed _ h =>
    cases h with
    | call _ hs' _ =>
      rw [hs] at hs'
      cases hs'
      rfl

end Inversion

mutual

/-- Ascriptions that are right can be left out. -/
theorem HasType.plain {e : Expr τ} {ty : Ty} : e.HasType s sig ty → e.plain.HasType s sig ty
  | .lit tag value => .lit tag value
  | .var tag h => .var tag h
  | .neg tag h => .neg tag h.plain
  | .binary tag hl hr h => .binary tag hl.plain hr.plain h
  | .call tag h fit => .call tag h fit.plain
  | .ascribed _ h => h.plain

private theorem ArgsFit.plain {args : List (Expr τ)} {params : List Param} :
    ArgsFit s sig args params → ArgsFit s sig (plainAll args) params
  | .nil => .nil
  | .cons h value fits rest => .cons h.plain value fits rest.plain

end

theorem HasType.unique {e : Expr τ} {ty ty' : Ty} : e.HasType s sig ty → e.HasType s sig ty' →
    ty = ty'
  | .lit .., .lit .. => rfl
  | .var _ h, .var _ h' => Option.some.inj (h.symm.trans h')
  | .neg .., .neg .. => rfl
  | .binary _ hl hr h, .binary _ hl' hr' h' => by
    cases hl.unique hl'
    cases hr.unique hr'
    exact h.unique h'
  | .call _ h _, .call _ h' _ => by
    rw [h] at h'
    cases h'
    rfl
  | .ascribed _ _, .ascribed _ _ => rfl

/-- `e'` is `e` with each node ascribed its type, which for the whole is `ty`. -/
structure Ascribes (s : Scope) (sig : Signature) (e e' : Expr τ) (ty : Ty) : Prop where
  wrapped : e'.Wrapped
  hasType : e'.HasType s sig ty
  plain_eq : e'.plain = e.plain

section AscribedBy

variable {R R' : Expr τ → Ty → Prop}

mutual

/-- `AscribedBy R e e'`: `e'` is `e` with each node ascribed, once, a type that `R` gives the node.
Older ascriptions are gone. -/
inductive AscribedBy (R : Expr τ → Ty → Prop) : Expr τ → Expr τ → Prop where
  | lit {tag : τ} {value : Literal} {ty : Ty} (ht : R (.lit tag value) ty) :
      AscribedBy R (.lit tag value) (.ascribed tag ty (.lit tag value))
  | var {tag : τ} {name : String} {ty : Ty} (ht : R (.var tag name) ty) :
      AscribedBy R (.var tag name) (.ascribed tag ty (.var tag name))
  | neg {tag : τ} {operand operand' : Expr τ} {ty : Ty} (ht : R (.neg tag operand) ty)
      (h : AscribedBy R operand operand') :
      AscribedBy R (.neg tag operand) (.ascribed tag ty (.neg tag operand'))
  | binary {tag : τ} {op : BinOp} {lhs lhs' rhs rhs' : Expr τ} {ty : Ty}
      (ht : R (.binary tag op lhs rhs) ty) (hl : AscribedBy R lhs lhs')
      (hr : AscribedBy R rhs rhs') :
      AscribedBy R (.binary tag op lhs rhs) (.ascribed tag ty (.binary tag op lhs' rhs'))
  | call {tag : τ} {path : Path} {args args' : List (Expr τ)} {ty : Ty}
      (ht : R (.call tag path args) ty) (h : AscribedAllBy R args args') :
      AscribedBy R (.call tag path args) (.ascribed tag ty (.call tag path args'))
  | ascribed (tag : τ) (ty : Ty) {inner e' : Expr τ} (h : AscribedBy R inner e') :
      AscribedBy R (.ascribed tag ty inner) e'

inductive AscribedAllBy (R : Expr τ → Ty → Prop) : List (Expr τ) → List (Expr τ) → Prop where
  | nil : AscribedAllBy R [] []
  | cons {e e' : Expr τ} {es es' : List (Expr τ)} (h : AscribedBy R e e')
      (rest : AscribedAllBy R es es') : AscribedAllBy R (e :: es) (e' :: es')

end

mutual

theorem AscribedBy.imp (hR : ∀ e ty, R e ty → R' e ty) {e e' : Expr τ} :
    AscribedBy R e e' → AscribedBy R' e e'
  | .lit ht => .lit (hR _ _ ht)
  | .var ht => .var (hR _ _ ht)
  | .neg ht h => .neg (hR _ _ ht) (h.imp hR)
  | .binary ht hl hr => .binary (hR _ _ ht) (hl.imp hR) (hr.imp hR)
  | .call ht h => .call (hR _ _ ht) (h.imp hR)
  | .ascribed tag ty h => .ascribed tag ty (h.imp hR)

private theorem AscribedAllBy.imp (hR : ∀ e ty, R e ty → R' e ty) {es es' : List (Expr τ)} :
    AscribedAllBy R es es' → AscribedAllBy R' es es'
  | .nil => .nil
  | .cons h rest => .cons (h.imp hR) (rest.imp hR)

end

mutual

private theorem AscribedBy.wrapped {e e' : Expr τ} : AscribedBy R e e' → e'.Wrapped
  | .lit _ | .var _ => trivial
  | .neg _ h => h.wrapped
  | .binary _ hl hr => ⟨hl.wrapped, hr.wrapped⟩
  | .call _ h => h.wrappedAll
  | .ascribed _ _ h => h.wrapped

private theorem AscribedAllBy.wrappedAll {es es' : List (Expr τ)} :
    AscribedAllBy R es es' → WrappedAll es'
  | .nil => trivial
  | .cons h rest => ⟨h.wrapped, rest.wrappedAll⟩

end

mutual

theorem AscribedBy.plain_eq {e e' : Expr τ} : AscribedBy R e e' → e'.plain = e.plain
  | .lit _ | .var _ => rfl
  | .neg _ h => by
    simp only [plain, h.plain_eq]
  | .binary _ hl hr => by
    simp only [plain, hl.plain_eq, hr.plain_eq]
  | .call _ h => by
    simp only [plain, h.plainAll_eq]
  | .ascribed _ _ h => by
    rw [plain, h.plain_eq]

private theorem AscribedAllBy.plainAll_eq {es es' : List (Expr τ)} :
    AscribedAllBy R es es' → plainAll es' = plainAll es
  | .nil => rfl
  | .cons h rest => by
    simp only [plainAll, h.plain_eq, rest.plainAll_eq]

end

end AscribedBy

mutual

/-- A well-typed expression keeps its type when its nodes are ascribed theirs. -/
theorem AscribedBy.hasType {e e' : Expr τ} {ty : Ty} :
    AscribedBy (HasType s sig) e e' → e.HasType s sig ty → e'.HasType s sig ty
  | .lit (.lit tag value), .lit .. => .ascribed tag (.lit tag value)
  | .var (.var tag h), .var _ h' => by
    rw [h] at h'
    cases h'
    exact .ascribed tag (.var tag h)
  | .neg (.neg tag _) h, .neg _ ht => .ascribed tag (.neg tag (h.hasType ht))
  | .binary (.binary tag hl' hr' hop) hl hr, ht => by
    cases (HasType.binary tag hl' hr' hop).unique ht
    exact .ascribed tag (.binary tag (hl.hasType hl') (hr.hasType hr') hop)
  | .call (.call tag hs fit) h, ht => by
    cases (HasType.call tag hs fit).unique ht
    exact .ascribed tag (.call tag hs (h.argsFit fit))
  | .ascribed _ _ h, .ascribed _ ht => h.hasType ht

private theorem AscribedAllBy.argsFit {args args' : List (Expr τ)} {params : List Param} :
    AscribedAllBy (HasType s sig) args args' → ArgsFit s sig args params →
    ArgsFit s sig args' params
  | .nil, .nil => .nil
  | .cons h rest, .cons ht value fits hfit =>
    .cons (h.hasType ht) value fits (rest.argsFit hfit)

end

mutual

/-- Nothing is left to ascribe in the result. -/
theorem AscribedBy.again {e e' : Expr τ} :
    AscribedBy (HasType s sig) e e' → AscribedBy (HasType s sig) e' e'
  | .lit ht => .ascribed _ _ (.lit ht)
  | .var ht => .ascribed _ _ (.var ht)
  | .neg (.neg tag ht) h => .ascribed _ _ (.neg (.neg tag (h.hasType ht)) h.again)
  | .binary (.binary tag htl htr hop) hl hr =>
    .ascribed _ _ (.binary (.binary tag (hl.hasType htl) (hr.hasType htr) hop) hl.again hr.again)
  | .call (.call tag hs fit) h => .ascribed _ _ (.call (.call tag hs (h.argsFit fit)) h.again)
  | .ascribed _ _ h => h.again

private theorem AscribedAllBy.again {es es' : List (Expr τ)} :
    AscribedAllBy (HasType s sig) es es' → AscribedAllBy (HasType s sig) es' es'
  | .nil => .nil
  | .cons h rest => .cons h.again rest.again

end

mutual

theorem HasType.exists_ascribedBy {e : Expr τ} {ty : Ty} : e.HasType s sig ty →
    ∃ e', AscribedBy (HasType s sig) e e'
  | .lit tag value => ⟨_, .lit (.lit tag value)⟩
  | .var tag h => ⟨_, .var (.var tag h)⟩
  | .neg tag ht => by
    obtain ⟨_, h⟩ := ht.exists_ascribedBy
    exact ⟨_, .neg (.neg tag ht) h⟩
  | .binary tag htl htr hop => by
    obtain ⟨_, hl⟩ := htl.exists_ascribedBy
    obtain ⟨_, hr⟩ := htr.exists_ascribedBy
    exact ⟨_, .binary (.binary tag htl htr hop) hl hr⟩
  | .call tag hs fit => by
    obtain ⟨_, h⟩ := fit.exists_ascribedAllBy
    exact ⟨_, .call (.call tag hs fit) h⟩
  | .ascribed tag ht => by
    obtain ⟨_, h⟩ := ht.exists_ascribedBy
    exact ⟨_, .ascribed tag _ h⟩

private theorem ArgsFit.exists_ascribedAllBy {args : List (Expr τ)} {params : List Param} :
    ArgsFit s sig args params → ∃ args', AscribedAllBy (HasType s sig) args args'
  | .nil => ⟨[], .nil⟩
  | .cons ht _ _ fit => by
    obtain ⟨_, h⟩ := ht.exists_ascribedBy
    obtain ⟨_, rest⟩ := fit.exists_ascribedAllBy
    exact ⟨_, .cons h rest⟩

end

mutual

/-- Adding types to a well-typed expression ascribes its nodes their types. -/
theorem AscribedBy.addTypes_eq {e e' : Expr τ} {ty : Ty} :
    AscribedBy (HasType s sig) e e' → e.HasType s sig ty → e.addTypes s sig = .ok (e', ty)
  | .lit (.lit ..), .lit .. => rfl
  | .var (.var _ hty), .var _ hty' => by
    rw [hty] at hty'
    cases hty'
    simp only [Expr.addTypes, hty]
    rfl
  | .neg ht h, .neg _ hop => by
    cases ht.unique (.neg _ hop)
    simp only [Expr.addTypes]
    rw [Outcome.ok_bind _ (h.addTypes_eq hop)]
    rfl
  | .binary ht hl hr, .binary _ htl htr hop => by
    cases ht.unique (.binary _ htl htr hop)
    simp only [Expr.addTypes]
    rw [Outcome.ok_bind _ (hl.addTypes_eq htl), Outcome.ok_bind _ (hr.addTypes_eq htr),
      BinOp.resultType_eq_ok_iff.2 hop]
    rfl
  | @AscribedBy.call _ _ _ path _ _ _ ht h, .call _ hs fit => by
    cases ht.unique (.call _ hs fit)
    simp only [Expr.addTypes, hs, fit.length_eq, if_true]
    rw [Outcome.ok_bind _ (h.addTypesArgs_eq path fit)]
    rfl
  | .ascribed _ _ h, .ascribed _ ht => by
    rw [Expr.addTypes, h.addTypes_eq ht]

private theorem AscribedAllBy.addTypesArgs_eq {args args' : List (Expr τ)} {params : List Param}
    (callee : Path) : AscribedAllBy (HasType s sig) args args' → ArgsFit s sig args params →
    addTypesArgs s sig callee args params = .ok args'
  | .nil, .nil => rfl
  | .cons h rest, .cons ht _ fits fit => by
    simp only [addTypesArgs]
    rw [Outcome.ok_bind _ (h.addTypes_eq ht), if_pos (Ty.fits_iff.2 fits),
      Outcome.ok_bind _ (rest.addTypesArgs_eq callee fit)]
    rfl

end

theorem HasType.addTypes {e : Expr τ} {ty : Ty} (ht : e.HasType s sig ty) :
    ∃ e', e.addTypes s sig = .ok (e', ty) ∧ Ascribes s sig e e' ty := by
  obtain ⟨e', h⟩ := ht.exists_ascribedBy
  exact ⟨e', h.addTypes_eq ht, h.wrapped, h.hasType ht, h.plain_eq⟩

end Expr

theorem Signature.exists_param {sig : Signature} {name : String} {ty : Ty}
    (h : sig.typeOf? name = some ty) : ∃ param ∈ sig.params, param.ty = ty := by
  simp only [typeOf?, Option.map_eq_some_iff] at h
  obtain ⟨param, hparam, hty⟩ := h
  exact ⟨param, List.mem_reverse.1 (List.mem_of_find?_eq_some hparam), hty⟩

/-- An expression whose code leaves a value is not of type `Void`. -/
theorem Expr.Emits.ne_void {f : Frame} {e : Expr τ} {n n' : Nat} {x : Target.Operand} {c : Code}
    {ty : Ty} (h : e.Emits f n x c n') (ht : e.HasType f.scope f.signature ty)
    (hp : ∀ param ∈ f.signature.params, param.ty ≠ .void) : ty ≠ .void := by
  have hinner : ∀ {t : τ} {ty' : Ty} {inner : Expr τ}, e = .ascribed t ty' inner →
      inner.HasType f.scope f.signature ty := by
    intro t ty' inner he
    subst he
    cases ht with
    | ascribed _ h => exact h
  cases h with
  | bool | int | str =>
    cases hinner rfl
    simp [Literal.ty]
  | var =>
    cases hinner rfl with
    | var _ h =>
      obtain ⟨param, hmem, rfl⟩ := Signature.exists_param h
      exact hp param hmem
  | binary =>
    cases hinner rfl with
    | binary _ _ _ h => cases h <;> simp
  | neg =>
    cases hinner rfl
    simp
  | call _ _ _ hs _ hv =>
    cases hinner rfl with
    | call _ hs' _ =>
      rw [hs] at hs'
      cases hs'
      exact hv

end BlockCompiler
