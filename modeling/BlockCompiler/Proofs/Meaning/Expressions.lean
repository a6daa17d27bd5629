import BlockCompiler.Proofs.Growth
import BlockCompiler.Proofs.Meaning.Machine
import BlockCompiler.Proofs.Meaning.Passes
import BlockCompiler.Proofs.TwosComplement

/-!
# Code for expressions computes their values

The code of an expression, run where its arguments are in their registers, makes the calls that the
evaluation makes. It halts when the evaluation halts, and otherwise leaves the value where emission
says it is.
-/

namespace BlockCompiler

open Target

namespace Exec

variable {w : Width} {P : Type} {α β γ : Type}

/-- Two results after the same calls: equal halts, or values that `Q` relates. -/
inductive Agree (Q : α → β → Prop) :
    Except (Halt w P) (α × History w P) → Except (Halt w P) (β × History w P) → Prop where
  | ok {a : α} {b : β} (calls : History w P) (h : Q a b) : Agree Q (.ok (a, calls)) (.ok (b, calls))
  | error (e : Halt w P) : Agree Q (.error e) (.error e)

/-- Two computations that make the same calls and end alike, with values that `Q` relates. -/
def Rel (Q : α → β → Prop) (x : Exec w P α) (y : Exec w P β) : Prop :=
  ∀ calls, Agree Q (x calls) (y calls)

variable {Q : α → β → Prop} {x : Exec w P α} {y : Exec w P β}

private theorem Agree.bind {α' β' : Type} {Q' : α' → β' → Prop} {f : α → Exec w P α'}
    {g : β → Exec w P β'} {r : Except (Halt w P) (α × History w P)}
    {r' : Except (Halt w P) (β × History w P)} (h : Agree Q r r')
    (hf : ∀ a b, Q a b → Rel Q' (f a) (g b)) :
    Agree Q' (r >>= fun p => f p.1 p.2) (r' >>= fun p => g p.1 p.2) := by
  cases h with
  | ok calls hab => exact hf _ _ hab calls
  | error e => exact .error e

private theorem Agree.imp {Q' : α → β → Prop} {r : Except (Halt w P) (α × History w P)}
    {r' : Except (Halt w P) (β × History w P)} (h : Agree Q r r') (hq : ∀ a b, Q a b → Q' a b) :
    Agree Q' r r' := by
  cases h with
  | ok calls hab => exact .ok calls (hq _ _ hab)
  | error e => exact .error e

@[simp] theorem require_some (a : α) : (require (some a) : Exec w P α) = pure a := rfl

@[simp] theorem require_none : (require none : Exec w P α) = stuck := rfl

namespace Rel

private theorem pure {a : α} {b : β} (h : Q a b) : Rel Q (Pure.pure a : Exec w P α) (Pure.pure b) :=
  fun calls => .ok calls h

private theorem bind {α' β' : Type} {Q' : α' → β' → Prop} {f : α → Exec w P α'}
    {g : β → Exec w P β'} (h : Rel Q x y) (hf : ∀ a b, Q a b → Rel Q' (f a) (g b)) :
    Rel Q' (x >>= f) (y >>= g) :=
  fun calls => (h calls).bind hf

private theorem imp {Q' : α → β → Prop} (h : Rel Q x y) (hq : ∀ a b, Q a b → Q' a b) : Rel Q' x y :=
  fun calls => (h calls).imp hq

/-- Two computations that begin with the same one. -/
private theorem of_same {f : γ → Exec w P α} {g : γ → Exec w P β} (z : Exec w P γ)
    (h : ∀ c, Rel Q (f c) (g c)) : Rel Q (z >>= f) (z >>= g) := by
  have hz : Rel Eq z z := by
    intro calls
    cases z calls with
    | error e => exact .error e
    | ok r => exact .ok r.2 rfl
  refine hz.bind ?_
  intro c c' hc
  subst hc
  exact h c

private theorem of_bind_pure {g : α → β} (h : ∀ a, Q a (g a)) :
    Rel Q x (x >>= fun a => Pure.pure (g a)) := by
  have hx := of_same (Q := Q) (f := Pure.pure) (g := fun a => Pure.pure (g a)) x fun a => pure (h a)
  rwa [bind_pure] at hx

private theorem map_left {α' : Type} {Q' : α' → β → Prop} {g : α → α'} (h : Rel Q x y)
    (hq : ∀ a b, Q a b → Q' (g a) b) : Rel Q' (x >>= fun a => Pure.pure (g a)) y := by
  have hx : Rel Q' (x >>= fun a => Pure.pure (g a)) (y >>= Pure.pure) :=
    h.bind fun a b hab => pure (hq a b hab)
  rwa [bind_pure] at hx

end Rel

end Exec

namespace Target

variable {w : Width} {P : Type}

namespace Memory

variable {m m₁ m₂ : Memory w P} {n n₁ : Nat}

/-- `m'` is `m` after code that writes no register below `n`. -/
structure Keeps (n : Nat) (m m' : Memory w P) : Prop where
  regs : ∀ r : Reg, r.index < n → m'.regs r = m.regs r
  cells : ∀ r : Reg, m.cells r ≠ none → m'.cells r ≠ none

private theorem Keeps.refl (n : Nat) (m : Memory w P) : Keeps n m m :=
  ⟨fun _ _ => rfl, fun _ h => h⟩

private theorem Keeps.trans (h : Keeps n m m₁) (hn : n ≤ n₁) (h' : Keeps n₁ m₁ m₂) :
    Keeps n m m₂ where
  regs r hr := by
    rw [h'.regs r (by omega), h.regs r hr]
  cells r hr := h'.cells r (h.cells r hr)

private theorem keeps_set (m : Memory w P) {r : Reg} (v : Value w P) (h : n ≤ r.index) :
    Keeps n m (m.set r v) where
  regs r' hr := by
    have hne : r' ≠ r := by
      intro he
      subst he
      omega
    simp [set, hne]
  cells r' hr := hr

theorem keeps_setCell (n : Nat) (m : Memory w P) (r : Reg) (bytes : List UInt8) :
    Keeps n m (m.setCell r bytes) where
  regs r' hr := rfl
  cells r' hr := by
    by_cases he : r' = r
    · simp [setCell, he]
    · simpa [setCell, he] using hr

@[simp] theorem read_set (m : Memory w P) (r : Reg) (v : Value w P) :
    (m.set r v).read (.reg r) = some v := by
  simp [read, set]

@[simp] theorem cells_setCell (m : Memory w P) (r : Reg) (bytes : List UInt8) :
    (m.setCell r bytes).cells r = some bytes := by
  simp [setCell]

end Memory

/-- Whether the operand is a constant or a register below `n`. -/
def Operand.Below (n : Nat) : Operand → Prop
  | reg r => r.index < n
  | int _ | bool _ => True

private theorem Operand.Below.mono {x : Operand} {n n' : Nat} (h : x.Below n) (hn : n ≤ n') :
    x.Below n' := by
  cases x with
  | reg r =>
    have hr : r.index < n := h
    exact Nat.lt_of_lt_of_le hr hn
  | int | bool => trivial

private theorem Memory.Keeps.read {m m' : Memory w P} {x : Operand} {n : Nat} (h : Keeps n m m')
    (hx : x.Below n) : m'.read x = m.read x := by
  cases x with
  | reg r => exact h.regs r hx
  | int | bool => rfl

variable [DecidableEq P]

theorem execAll_append (world : World w P) (m : Memory w P) (is js : List Instr) :
    execAll world m (is ++ js) = execAll world m is >>= fun m => execAll world m js := by
  induction is generalizing m with
  | nil => simp [execAll]
  | cons i is ih => simp [execAll, ih]

private theorem execAll_singleton (world : World w P) (m : Memory w P) (i : Instr) :
    execAll world m [i] = i.exec world m := by
  simp [execAll]

end Target

/-- Whether the slots of the code are reserved, unless the code reserves them itself. -/
def Code.Reserved {w : Width} {P : Type} (inline : Bool) (c : Code) (m : Memory w P) : Prop :=
  inline = false → ∀ r length, Piece.slot r length ∈ c → m.cells r ≠ none

private theorem Code.Reserved.append_left {w : Width} {P : Type} {inline : Bool} {c d : Code}
    {m : Memory w P} (h : Code.Reserved inline (c ++ d) m) : Code.Reserved inline c m :=
  fun hi r length hr => h hi r length (List.mem_append_left d hr)

private theorem Code.Reserved.append_right {w : Width} {P : Type} {inline : Bool} {c d : Code}
    {n : Nat} {m m' : Memory w P} (h : Code.Reserved inline (c ++ d) m) (hm : m.Keeps n m') :
    Code.Reserved inline d m' :=
  fun hi r length hr => hm.cells r (h hi r length (List.mem_append_right c hr))

namespace Frame

variable {P : Type}

/-- The function of a frame, called with some arguments. -/
def activation (f : Frame) (world : World f.width P) (args : List (Value f.width P)) :
    Activation f.width P :=
  ⟨world, f.scope, f.signature, args⟩

@[simp] theorem scope_activation (f : Frame) (world : World f.width P)
    (args : List (Value f.width P)) : (f.activation world args).scope = f.scope := rfl

@[simp] theorem signature_activation (f : Frame) (world : World f.width P)
    (args : List (Value f.width P)) : (f.activation world args).signature = f.signature := rfl

@[simp] theorem world_activation (f : Frame) (world : World f.width P)
    (args : List (Value f.width P)) : (f.activation world args).world = world := rfl

/-- Whether the arguments are in their registers. -/
def Holds (f : Frame) (args : List (Value f.width P)) (m : Memory f.width P) : Prop :=
  ∀ r v, (r, v) ∈ f.args.zip args → m.regs r = some v

theorem Holds.of_keeps {f : Frame} {args : List (Value f.width P)} {m m' : Memory f.width P} {n : Nat}
    (h : f.Holds args m) (hm : m.Keeps n m') (hn : f.signature.params.length ≤ n) :
    f.Holds args m' := by
  intro r v hr
  have hlt := index_lt_of_mem_args (List.of_mem_zip hr).1
  rw [hm.regs r (by omega)]
  exact h r v hr

/-- The register of a parameter and its value have the same place among registers and arguments. -/
private theorem value?_of_register? {f : Frame} (world : World f.width P)
    {args : List (Value f.width P)} {name : String} {r : Reg}
    (hlen : args.length = f.signature.params.length) (h : f.register? name = some r) :
    ∃ v, (f.activation world args).value? name = some v ∧ (r, v) ∈ f.args.zip args := by
  have hlen' : f.args.length = args.length := by
    rw [length_args, hlen]
  -- both look-ups are projections of one in the list of triples
  have hregs : f.signature.params.zip f.args =
      (f.signature.params.zip (f.args.zip args)).map (Prod.map id Prod.fst) := by
    rw [← List.zip_map_right, List.map_fst_zip (by omega)]
  have hargs : f.signature.params.zip args =
      (f.signature.params.zip (f.args.zip args)).map (Prod.map id Prod.snd) := by
    rw [← List.zip_map_right, List.map_snd_zip (by omega)]
  simp only [register?, hregs, ← List.map_reverse, List.find?_map, Option.map_map,
    Option.map_eq_some_iff] at h
  obtain ⟨e, he, rfl⟩ := h
  refine ⟨e.2.2, ?_, ?_⟩
  · simp only [Activation.value?, activation, hargs, ← List.map_reverse, List.find?_map,
      Option.map_map, Option.map_eq_some_iff]
    exact ⟨e, he, rfl⟩
  · have hmem := List.mem_of_find?_eq_some he
    exact (List.of_mem_zip (List.mem_reverse.1 hmem)).2

private theorem index_lt_of_register? {f : Frame} {name : String} {r : Reg}
    (h : f.register? name = some r) :
    r.index < f.signature.params.length := by
  simp only [register?, Option.map_eq_some_iff] at h
  obtain ⟨e, he, rfl⟩ := h
  have hmem := List.mem_reverse.1 (List.mem_of_find?_eq_some he)
  exact index_lt_of_mem_args (List.of_mem_zip hmem).2

end Frame

private theorem Coerces.isBelow {w : Width} {source dest : Ty} {n n' : Nat} {x x' : Operand}
    {c : Code} (h : Coerces w source dest n x x' c n') (hx : x.Below n) : x'.Below n' := by
  cases h with
  | same _ => exact hx
  | convert _ _ => exact Nat.lt_succ_self n

namespace Expr

variable {τ : Type} {f : Frame}

private theorem Emits.isBelow {e : Expr τ} {n n' : Nat} {x : Operand} {c : Code}
    (h : e.Emits f n x c n') (hn : f.signature.params.length ≤ n) : x.Below n' := by
  cases h with
  | bool | int => trivial
  | str => exact Nat.lt_succ_self _
  | var _ _ _ _ hr => exact Nat.lt_of_lt_of_le (Frame.index_lt_of_register? hr) hn
  | binary | neg | call => exact Nat.lt_succ_self _

private theorem EmitsArgs.isBelow {args : List (Expr τ)} {params : List Param} {n n' : Nat}
    {xs : List Operand} {c : Code} (h : EmitsArgs f args params n xs c n')
    (hn : f.signature.params.length ≤ n) :
    ∀ x ∈ xs, x.Below n' := by
  induction args generalizing params n xs c with
  | nil =>
    cases h
    simp
  | cons arg args ih =>
    cases h with
    | noParams => simp
    | cons _ h hc rest =>
      have hle := Nat.le_trans (Nat.le_trans hn h.le) hc.le
      rw [List.forall_mem_cons]
      exact ⟨(hc.isBelow (h.isBelow hn)).mono rest.le, ih rest hle⟩

end Expr

section Simulation

variable {w : Width} {P : Type} {τ : Type} [DecidableEq P]

omit [DecidableEq P] in
/-- Values that are held alike are not converted. -/
private theorem World.convert_eq_pure (world : World w P) {source dest : Ty} (v : Value w P)
    (h : source.target w = dest.target w) : world.convert source dest v = pure v := by
  cases source <;> cases dest <;> cases h <;> rfl

/-- The instruction of a conversion does what the source program does. -/
private theorem exec_conversion (world : World w P) {m : Memory w P} {source dest : Ty}
    {x : Operand} {v : Value w P} {instr : Operand → Reg → Instr} (r : Reg)
    (fits : source = dest ∨ source = .any ∨ dest = .any) (hv : m.read x = some v)
    (hs : source.target w ≠ dest.target w)
    (hc : (source.target w).conversion? (dest.target w) = some instr) :
    (instr x r).exec world m = world.convert source dest v >>= fun v' => pure (m.set r v') := by
  have hcases : (source = .int ∧ dest = .any) ∨ (source = .bool ∧ dest = .any) ∨
      (source = .any ∧ dest = .int) ∨ (source = .any ∧ dest = .bool) := by
    cases source <;> cases dest <;> simp_all [Ty.target, Target.Ty.conversion?]
  rcases hcases with ⟨rfl, rfl⟩ | ⟨rfl, rfl⟩ | ⟨rfl, rfl⟩ | ⟨rfl, rfl⟩ <;>
    · cases hc
      simp [Instr.exec, hv, World.convert]

private theorem Coerces.rel {source dest : Ty} {n n' : Nat} {x x' : Operand} {c : Code}
    {m : Memory w P} {v : Value w P} (world : World w P) (inline : Bool)
    (h : Coerces w source dest n x x' c n') (fits : source = dest ∨ source = .any ∨ dest = .any)
    (hv : m.read x = some v) :
    Exec.Rel (fun v' m' => m'.read x' = some v' ∧ m.Keeps n m') (world.convert source dest v)
      (execAll world m (c.inBlock true inline)) := by
  cases h with
  | same hs =>
    rw [world.convert_eq_pure v hs]
    exact .pure ⟨hv, .refl n m⟩
  | convert hs hc =>
    rw [Code.inBlock_instr, execAll_singleton, exec_conversion world ⟨n⟩ fits hv hs hc]
    exact .of_bind_pure fun v' => ⟨m.read_set ⟨n⟩ v', m.keeps_set v' (Nat.le_refl n)⟩

private theorem exec_binary (world : World w P) {m : Memory w P} {x y : Operand} {u v : Value w P}
    (op : BinOp) (r : Reg) (hx : m.read x = some u) (hy : m.read y = some v) :
    (op.instr x y r).exec world m = Value.binary op u v >>= fun v' => pure (m.set r v') := by
  cases op <;> simp [BinOp.instr, Instr.exec, hx, hy, Value.binary]

/-- After code that computes a value into `x`. -/
def Computed (n : Nat) (m : Memory w P) (x : Operand) (v? : Option (Value w P)) (m' : Memory w P) :
    Prop :=
  (∃ v, v? = some v ∧ m'.read x = some v) ∧ m.Keeps n m'

private theorem execAll_store_bitcast (world : World w P) {m : Memory w P} {r : Reg} (dest : Reg)
    (data : List UInt8) (h : m.cells r ≠ none) :
    execAll world m [.store r data, .bitcast dest r] =
      pure ((m.setCell r data).set dest (.ptr (world.pointer data))) := by
  obtain ⟨bytes, hbytes⟩ := Option.ne_none_iff_exists'.1 h
  simp [execAll, Instr.exec, hbytes]

/-- A string literal is a pointer to its bytes, wherever its slot is reserved. -/
private theorem exec_string (world : World w P) {m : Memory w P} {n : Nat} {inline : Bool}
    (v : String) (hc : Code.Reserved inline [.slot ⟨n⟩ (stringData v).length,
      .instr (.store ⟨n⟩ (stringData v)), .instr (.bitcast ⟨n + 1⟩ ⟨n⟩)] m) :
    Exec.Rel (Computed n m (.reg ⟨n + 1⟩)) (pure (some (.ptr (world.pointer (stringData v)))))
      (execAll world m (Code.inBlock true inline [.slot ⟨n⟩ (stringData v).length,
        .instr (.store ⟨n⟩ (stringData v)), .instr (.bitcast ⟨n + 1⟩ ⟨n⟩)])) := by
  cases inline with
  | false =>
    have hslot : m.cells ⟨n⟩ ≠ none := hc rfl ⟨n⟩ _ List.mem_cons_self
    have hcode := execAll_store_bitcast world ⟨n + 1⟩ (stringData v) hslot
    simp only [Code.inBlock, List.filterMap_cons, Piece.inBlock?, if_true, List.filterMap_nil,
      Bool.false_eq_true, if_false, hcode]
    exact .pure ⟨⟨_, rfl, Memory.read_set _ _ _⟩,
      (m.keeps_setCell n _ _).trans (Nat.le_refl n) (Memory.keeps_set _ _ (Nat.le_succ n))⟩
  | true =>
    let m₁ := m.setCell ⟨n⟩ (List.replicate (stringData v).length 0)
    have hslot : m₁.cells ⟨n⟩ ≠ none := by simp [m₁]
    have hcode := execAll_store_bitcast world ⟨n + 1⟩ (stringData v) hslot
    simp only [Code.inBlock, List.filterMap_cons, Piece.inBlock?, if_true, List.filterMap_nil]
    rw [execAll, Instr.exec, pure_bind, hcode]
    exact .pure ⟨⟨_, rfl, Memory.read_set _ _ _⟩, ((m.keeps_setCell n _ _).trans (Nat.le_refl n)
      (m₁.keeps_setCell n _ _)).trans (Nat.le_refl n) (Memory.keeps_set _ _ (Nat.le_succ n))⟩

variable {f : Frame} {args : List (Value f.width P)}

mutual

/-- The code of an expression computes its value. -/
theorem Expr.Emits.rel {e : Expr τ} {n n' : Nat} {x : Operand} {c : Code} {ty : Ty}
    (world : World f.width P) (hlen : args.length = f.signature.params.length) (inline : Bool) :
    e.Emits f n x c n' → e.HasType f.scope f.signature ty → f.signature.params.length ≤ n →
    ∀ m : Memory f.width P, f.Holds args m → c.Reserved inline m →
    Exec.Rel (Computed n m x) (e.eval (f.activation world args))
      (execAll world m (c.inBlock true inline))
  | .bool t t' ty v n, _, _, m, _, _ => by
    simp only [Expr.eval]
    exact .pure ⟨⟨.bool v, rfl, rfl⟩, .refl n m⟩
  | .int t t' ty v n, _, _, m, _, _ => by
    simp only [Expr.eval]
    refine .pure ⟨⟨_, rfl, ?_⟩, .refl n m⟩
    simp only [Memory.read, Width.ofInt_wrap]
  | .str t t' ty v n, _, _, m, _, hc => by
    simp only [Expr.eval]
    exact exec_string world v hc
  | .var t t' ty n hr, _, _, m, hm, _ => by
    obtain ⟨v, hv, hmem⟩ := Frame.value?_of_register? world hlen hr
    simp only [Expr.eval, hv, Exec.require_some, pure_bind]
    exact .pure ⟨⟨v, rfl, hm _ v hmem⟩, .refl n m⟩
  | .binary t t' ty op ha hb hl hr hx hy, ht, hn, m, hm, hc => by
    obtain ⟨_, _, htl, htr⟩ := ht.operands
    cases htl.eq_of_ascribedType? ha
    cases htr.eq_of_ascribedType? hb
    have hn₁ := Nat.le_trans hn hl.le
    simp only [Expr.eval, Code.inBlock_append, execAll_append, Frame.scope_activation,
      Frame.signature_activation, htl.headType?_eq, htr.headType?_eq]
    refine (hl.rel world hlen inline htl hn m hm hc.append_left).bind ?_
    intro u? m₁ h₁
    obtain ⟨⟨u, rfl, hu⟩, hk₁⟩ := h₁
    have hc₁ := hc.append_right hk₁
    simp only [Exec.require_some, pure_bind]
    refine (hr.rel world hlen inline htr hn₁ m₁ (hm.of_keeps hk₁ hn) hc₁.append_left).bind ?_
    intro v? m₂ h₂
    obtain ⟨⟨v, rfl, hv⟩, hk₂⟩ := h₂
    have hu₂ := (hk₂.read (hl.isBelow hn)).trans hu
    simp only [Exec.require_some, pure_bind]
    refine (hx.rel world inline (Ty.fits_against _ _) hu₂).bind ?_
    intro u' m₃ h₃
    obtain ⟨hu', hk₃⟩ := h₃
    have hv₃ := (hk₃.read (hr.isBelow hn₁)).trans hv
    refine (hy.rel world inline (Ty.fits_against _ _) hv₃).bind ?_
    intro v' m₄ h₄
    obtain ⟨hv', hk₄⟩ := h₄
    have hu₄ := (hk₄.read (hx.isBelow ((hl.isBelow hn).mono hr.le))).trans hu'
    rw [Code.inBlock_instr, execAll_singleton, exec_binary world op _ hu₄ hv']
    refine .of_same _ fun r => .pure ⟨⟨r, rfl, m₄.read_set _ r⟩, ?_⟩
    have hk := ((hk₁.trans hl.le hk₂).trans (Nat.le_trans hl.le hr.le) hk₃)
    have hle := Nat.le_trans (Nat.le_trans hl.le hr.le) hx.le
    exact (hk.trans hle hk₄).trans (Nat.le_trans hle hy.le) (m₄.keeps_set r (Nat.le_refl _))
  | .neg t t' ty _ h, ht, hn, m, hm, hc => by
    have ht := ht.negated
    simp only [Expr.eval, Code.inBlock_append, execAll_append]
    refine (h.rel world hlen inline ht hn m hm hc.append_left).bind ?_
    intro v? m₁ h₁
    obtain ⟨⟨v, rfl, hv⟩, hk₁⟩ := h₁
    rw [Code.inBlock_instr, execAll_singleton]
    simp only [Exec.require_some, pure_bind, Instr.exec, hv]
    exact .of_same _ fun r => .pure ⟨⟨r, rfl, m₁.read_set _ r⟩,
      hk₁.trans h.le (m₁.keeps_set r (Nat.le_refl _))⟩
  | .call t t' ty hs h hv, ht, hn, m, hm, hc => by
    have hfit := ht.argsFit hs
    simp only [Expr.eval, Activation.invoke, Frame.scope_activation, hs, Code.inBlock_append,
      execAll_append, hv, if_false]
    refine (h.rel world hlen inline hfit hn m hm hc.append_left).bind ?_
    intro vs m₁ h₁
    obtain ⟨hvs, hk₁⟩ := h₁
    rw [Code.inBlock_instr, execAll_singleton]
    simp only [Exec.require_some, pure_bind, Instr.exec, hvs]
    exact .of_same _ fun r => .pure ⟨⟨r, rfl, m₁.read_set _ r⟩,
      hk₁.trans h.le (m₁.keeps_set r (Nat.le_refl _))⟩

private theorem Expr.EmitsArgs.rel {es : List (Expr τ)} {params : List Param} {n n' : Nat}
    {xs : List Operand} {c : Code} (world : World f.width P)
    (hlen : args.length = f.signature.params.length) (inline : Bool) :
    EmitsArgs f es params n xs c n' → ArgsFit f.scope f.signature es params →
    f.signature.params.length ≤ n →
    ∀ m : Memory f.width P, f.Holds args m → c.Reserved inline m →
    Exec.Rel (fun vs m' => xs.mapM m'.read = some vs ∧ m.Keeps n m')
      (evalArgs (f.activation world args) es params) (execAll world m (c.inBlock true inline))
  | .noArgs _ n, .nil, _, m, _, _ => by
    simp only [evalArgs]
    exact .pure ⟨rfl, .refl n m⟩
  | .cons ha h hx rest, .cons ht _ fits hfit, hn, m, hm, hc => by
    cases ht.eq_of_ascribedType? ha
    have hn₁ := Nat.le_trans hn (Nat.le_trans h.le hx.le)
    simp only [evalArgs, deliver, Code.inBlock_append, execAll_append, Frame.scope_activation,
      Frame.signature_activation, ht.headType?_eq]
    refine (h.rel world hlen inline ht hn m hm hc.append_left).bind ?_
    intro v? m₁ h₁
    obtain ⟨⟨v, rfl, hv⟩, hk₁⟩ := h₁
    simp only [Exec.require_some, pure_bind]
    refine (hx.rel world inline fits hv).bind ?_
    intro v' m₂ h₂
    obtain ⟨hv', hk₂⟩ := h₂
    have hk := hk₁.trans h.le hk₂
    have hc₂ := (hc.append_right hk₁).append_right hk₂
    refine (rest.rel world hlen inline hfit hn₁ m₂ (hm.of_keeps hk hn) hc₂).map_left ?_
    intro vs m₃ h₃
    obtain ⟨hvs, hk₃⟩ := h₃
    have hv₃ := (hk₃.read (hx.isBelow (h.isBelow hn))).trans hv'
    refine ⟨?_, hk.trans (Nat.le_trans h.le hx.le) hk₃⟩
    simp [List.mapM_cons, hv₃, hvs]

end

theorem Expr.EmitsEffect.rel {e : Expr τ} {n n' : Nat} {c : Code} {ty : Ty}
    (world : World f.width P) (hlen : args.length = f.signature.params.length) (inline : Bool)
    (hp : ∀ param ∈ f.signature.params, param.ty ≠ .void) (h : e.EmitsEffect f n c n')
    (ht : e.HasType f.scope f.signature ty) (hn : f.signature.params.length ≤ n)
    (m : Memory f.width P) (hm : f.Holds args m) (hc : c.Reserved inline m) :
    Exec.Rel (fun v? m' => (ty = .void → v? = none) ∧ m.Keeps n m') (e.eval (f.activation world args))
      (execAll world m (c.inBlock true inline)) := by
  cases h with
  | value h =>
    refine (h.rel world hlen inline ht hn m hm hc).imp ?_
    intro v? m' hv
    exact ⟨fun hty => absurd hty (h.ne_void ht hp), hv.2⟩
  | voidCall t t' ty' hs h hv =>
    simp only [Expr.eval, Activation.invoke, Frame.scope_activation, hs, Code.inBlock_append,
      execAll_append, hv, if_true]
    refine (h.rel world hlen inline (ht.argsFit hs) hn m hm hc.append_left).bind ?_
    intro vs m₁ h₁
    obtain ⟨hvs, hk₁⟩ := h₁
    rw [Code.inBlock_instr, execAll_singleton]
    simp only [Exec.require_some, pure_bind, Instr.exec, hvs]
    exact .of_same _ fun _ => .pure ⟨fun _ => rfl, hk₁⟩

/-- The code of a `return` with a value computes what is returned. -/
theorem Expr.Emits.rel_evalReturn {e : Expr τ} {n n₁ n₂ : Nat} {x x' : Operand} {c c' : Code} {ty : Ty}
    (world : World f.width P) (hlen : args.length = f.signature.params.length) (inline : Bool)
    (h : e.Emits f n x c n₁) (hx : Coerces f.width ty f.signature.result n₁ x x' c' n₂)
    (ht : e.HasType f.scope f.signature ty)
    (fits : ty = f.signature.result ∨ ty = .any ∨ f.signature.result = .any)
    (hn : f.signature.params.length ≤ n) (m : Memory f.width P) (hm : f.Holds args m)
    (hc : Code.Reserved inline (c ++ c') m) :
    Exec.Rel (Computed n m x') (e.evalReturn (f.activation world args))
      (execAll world m (Code.inBlock true inline (c ++ c'))) := by
  simp only [evalReturn, deliver, Code.inBlock_append, execAll_append, Frame.scope_activation,
    Frame.signature_activation, ht.headType?_eq]
  refine (h.rel world hlen inline ht hn m hm hc.append_left).bind ?_
  intro v? m₁ h₁
  obtain ⟨⟨v, rfl, hv⟩, hk₁⟩ := h₁
  simp only [Exec.require_some, pure_bind]
  refine (hx.rel world inline fits hv).map_left ?_
  intro v' m₂ h₂
  exact ⟨⟨v', rfl, h₂.1⟩, hk₁.trans h.le h₂.2⟩

/-- The code of a `return` of what a call yields that returns nothing. -/
theorem Expr.EmitsEffect.rel_evalReturn {e : Expr τ} {n n' : Nat} {c : Code}
    (world : World f.width P) (hlen : args.length = f.signature.params.length) (inline : Bool)
    (hp : ∀ param ∈ f.signature.params, param.ty ≠ .void) (h : e.EmitsEffect f n c n')
    (ht : e.HasType f.scope f.signature .void) (hn : f.signature.params.length ≤ n)
    (m : Memory f.width P) (hm : f.Holds args m) (hc : c.Reserved inline m) :
    Exec.Rel (fun v? m' => v? = none ∧ m.Keeps n m') (e.evalReturn (f.activation world args))
      (execAll world m (c.inBlock true inline)) := by
  rw [← bind_pure (execAll world m (c.inBlock true inline)), evalReturn]
  refine (h.rel world hlen inline hp ht hn m hm hc).bind ?_
  intro v? m' hv
  obtain ⟨hnone, hk⟩ := hv
  rw [hnone rfl]
  exact .pure ⟨rfl, hk⟩

end Simulation

end BlockCompiler
