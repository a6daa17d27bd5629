import BlockCompiler.Emission.Value

/-!
# Straight-line code

The code of an expression goes to the end of the current block, except that room for its strings is
reserved in the entry block. It depends on the builder only through the number of the next register.
`Expr.Emits` gives that code as rules, and emission into an open block follows exactly these rules.
-/

namespace BlockCompiler

open Target

/-- A piece of straight-line code. -/
inductive Piece where
  | instr (i : Instr)
  /-- Room for a string, reserved in the entry block. -/
  | slot (r : Reg) (length : Nat)

abbrev Code := List Piece

/-- What a piece adds to a block. -/
def Piece.inBlock? (current entry : Bool) : Piece → Option Instr
  | instr i => if current then some i else none
  | slot r length => if entry then some (.alloca r length) else none

def Code.inBlock (current entry : Bool) (c : Code) : List Instr :=
  c.filterMap (Piece.inBlock? current entry)

@[simp] theorem Code.inBlock_nil (current entry : Bool) : Code.inBlock current entry [] = [] := rfl

@[simp] theorem Code.inBlock_instr (entry : Bool) (i : Instr) :
    Code.inBlock true entry [.instr i] = [i] := rfl

@[simp] theorem Code.inBlock_append (current entry : Bool) (c d : Code) :
    Code.inBlock current entry (c ++ d) =
      Code.inBlock current entry c ++ Code.inBlock current entry d :=
  List.filterMap_append

namespace Target

def OpenBlock.appendAll (block : OpenBlock) (is : List Instr) : OpenBlock :=
  { block with instrs := block.instrs ++ is }

namespace Builder

def isCurrent (b : Builder) (i : Nat) : Bool :=
  b.current? = some ⟨i⟩

/-- Adds straight-line code; the next register is then `next`. -/
def write (b : Builder) (c : Code) (next : Nat) : Builder :=
  { b with
    blocks := b.blocks.mapIdx fun i block => block.appendAll (c.inBlock (b.isCurrent i) (i = 0))
    nextReg := next }

variable {b : Builder}

theorem getElem?_blocks_write (b : Builder) (c : Code) (n i : Nat) :
    (b.write c n).blocks[i]? =
      b.blocks[i]?.map (·.appendAll (c.inBlock (b.isCurrent i) (i = 0))) := by
  simp [write]

@[simp] theorem length_blocks_write (b : Builder) (c : Code) (n : Nat) :
    (b.write c n).blocks.length = b.blocks.length := by
  simp [write]

@[simp] theorem nextReg_write (b : Builder) (c : Code) (n : Nat) : (b.write c n).nextReg = n := rfl

@[simp] theorem current?_write (b : Builder) (c : Code) (n : Nat) :
    (b.write c n).current? = b.current? := rfl

@[simp] theorem isCurrent_write (b : Builder) (c : Code) (n i : Nat) :
    (b.write c n).isCurrent i = b.isCurrent i := rfl

private theorem ext_blocks {b b' : Builder} (hb : ∀ i : Nat, b.blocks[i]? = b'.blocks[i]?)
    (hc : b.current? = b'.current?) (hn : b.nextReg = b'.nextReg) : b = b' := by
  cases b
  cases b'
  simp only [mk.injEq]
  exact ⟨List.ext_getElem? hb, hc, hn⟩

theorem write_nil_eq (b : Builder) (n : Nat) : b.write [] n = { b with nextReg := n } := by
  refine ext_blocks (fun i => ?_) rfl rfl
  simp [getElem?_blocks_write, OpenBlock.appendAll]

@[simp] theorem write_nil (b : Builder) : b.write [] b.nextReg = b := write_nil_eq b b.nextReg

@[simp] theorem write_write (b : Builder) (c d : Code) (n m : Nat) :
    (b.write c n).write d m = b.write (c ++ d) m := by
  refine ext_blocks (fun i => ?_) rfl rfl
  simp only [getElem?_blocks_write, Option.map_map, Code.inBlock_append, isCurrent_write]
  congr 1
  funext block
  simp [OpenBlock.appendAll]

@[simp] theorem isOpen_write (b : Builder) (c : Code) (n : Nat) :
    (b.write c n).isOpen = b.isOpen := by
  cases hc : b.current? with
  | none => simp [isOpen, currentBlock?, hc]
  | some id =>
    cases hb : b.blocks[id.index]? <;>
      simp [isOpen, currentBlock?, hc, getElem?_blocks_write, hb, OpenBlock.appendAll]

/-- An open builder is somewhere: it has a current block without a terminator. -/
theorem isOpen_iff_exists :
    b.isOpen ↔ ∃ id block, b.current? = some id ∧ b.blocks[id.index]? = some block ∧
      block.terminator? = none := by
  rw [isOpen_iff]
  constructor
  · intro h
    obtain ⟨id, h⟩ := h
    obtain ⟨hc, block, hb, ht⟩ := openBlock_eq_ok_iff.1 h
    exact ⟨id, block, hc, hb, ht⟩
  · intro h
    obtain ⟨id, block, hc, hb, ht⟩ := h
    exact ⟨id, openBlock_eq_ok_iff.2 ⟨hc, block, hb, ht⟩⟩

theorem length_pos_of_isOpen (h : b.isOpen) : 0 < b.blocks.length := by
  obtain ⟨id, block, _, hb, _⟩ := isOpen_iff_exists.1 h
  exact Nat.zero_lt_of_lt (List.getElem?_eq_some_iff.1 hb).1

theorem blocks_write_instr {id : BlockId} (h : b.current? = some id) (i : Instr) (n : Nat) :
    (b.write [.instr i] n).blocks = b.blocks.modify id.index (·.append i) := by
  refine List.ext_getElem? fun j => ?_
  simp only [List.getElem?_modify, getElem?_blocks_write, isCurrent, h]
  by_cases hj : id.index = j
  · subst hj
    simp [Code.inBlock, Piece.inBlock?, OpenBlock.append, OpenBlock.appendAll]
  · have hne : id ≠ ⟨j⟩ := fun he => hj (by rw [he])
    simp [hj, hne, Code.inBlock, Piece.inBlock?, OpenBlock.appendAll]

theorem blocks_write_slot (b : Builder) (r : Reg) (length n : Nat) :
    (b.write [.slot r length] n).blocks = b.blocks.modify 0 (·.append (.alloca r length)) := by
  refine List.ext_getElem? fun j => ?_
  simp only [List.getElem?_modify, getElem?_blocks_write]
  by_cases hj : 0 = j
  · subst hj
    simp [Code.inBlock, Piece.inBlock?, OpenBlock.append, OpenBlock.appendAll]
  · simp [hj, Ne.symm hj, Code.inBlock, Piece.inBlock?, OpenBlock.appendAll]

private theorem push_of_isOpen (i : Instr) (h : b.isOpen) :
    b.push i = .ok (b.write [.instr i] b.nextReg) := by
  obtain ⟨id, hid⟩ := isOpen_iff.1 h
  have hblocks := blocks_write_instr (openBlock_eq_ok_iff.1 hid).1 i b.nextReg
  rw [push, Edit.push, Edit.result_amend_of_ok hid, Except.ok.injEq]
  exact ext_blocks (fun j => by rw [hblocks]; rfl) rfl rfl

private theorem hoist_of_isOpen (r : Reg) (length : Nat) (h : b.isOpen) :
    b.hoist (.alloca r length) = .ok (b.write [.slot r length] b.nextReg) := by
  obtain ⟨id, block, _, hblock, _⟩ := isOpen_iff_exists.1 h
  have hne : b.blocks ≠ [] := by
    intro he
    simp [he] at hblock
  rw [hoist, Edit.hoist, Edit.result_amend_of_ok (entryBlock_of_ne_nil hne), Except.ok.injEq]
  exact ext_blocks (fun j => by rw [blocks_write_slot]; rfl) rfl rfl

end Builder

end Target

/-- `Coerces w a b n x x' c n'`: the code `c` converts `x` from type `a` to type `b`, into `x'`.
It takes the registers from `n` up to `n'`. -/
inductive Coerces (w : Width) (source dest : Ty) (n : Nat) (x : Operand) :
    Operand → Code → Nat → Prop where
  | same (h : source.target w = dest.target w) : Coerces w source dest n x x [] n
  | convert {instr : Operand → Reg → Instr} (h : source.target w ≠ dest.target w)
      (hc : (source.target w).conversion? (dest.target w) = some instr) :
      Coerces w source dest n x (.reg ⟨n⟩) [.instr (instr x ⟨n⟩)] (n + 1)

namespace Ty

/-- The type at which an operand of type `a` is compared with one of type `b`. -/
def against (a b : Ty) : Ty :=
  if a = .any ∨ b = .any then .any else a

theorem fits_against (a b : Ty) : a = a.against b ∨ a = .any ∨ a.against b = .any := by
  unfold against
  split <;> simp

theorem against_ne_void {a b : Ty} (ha : a ≠ .void) : a.against b ≠ .void := by
  unfold against
  split
  · simp
  · exact ha

end Ty

namespace Frame

theorem length_args (f : Frame) : f.args.length = f.signature.params.length := by
  simp [args]

theorem index_lt_of_mem_args {f : Frame} {r : Reg} (h : r ∈ f.args) :
    r.index < f.signature.params.length := by
  simp only [args, List.mem_map, List.mem_range] at h
  obtain ⟨i, hi, rfl⟩ := h
  exact hi

/-- The type of a parameter is looked up as its register is. -/
theorem typeOf?_eq (f : Frame) (name : String) :
    f.signature.typeOf? name =
      ((f.signature.params.zip f.args).reverse.find? (·.1.name = name)).map (·.1.ty) := by
  have hparams : (f.signature.params.zip f.args).map Prod.fst = f.signature.params :=
    List.map_fst_zip (Nat.le_of_eq f.length_args.symm)
  have hfind := List.find?_map (f := Prod.fst) (p := fun param : Param => decide (param.name = name))
    (l := (f.signature.params.zip f.args).reverse)
  rw [List.map_reverse, hparams] at hfind
  rw [Signature.typeOf?, hfind, Option.map_map]
  rfl

end Frame

variable {τ : Type}

mutual

/-- `e.Emits f n x c n'`: the code `c` leaves the value of `e` in `x`. It takes the registers from
`n` up to `n'`. -/
inductive Expr.Emits (f : Frame) : Expr τ → Nat → Operand → Code → Nat → Prop where
  | bool (t t' : τ) (ty : Ty) (v : Bool) (n : Nat) :
      Emits f (.ascribed t ty (.lit t' (.bool v))) n (.bool v) [] n
  | int (t t' : τ) (ty : Ty) (v : Int) (n : Nat) :
      Emits f (.ascribed t ty (.lit t' (.int v))) n (.int (f.width.wrap v)) [] n
  | str (t t' : τ) (ty : Ty) (v : String) (n : Nat) :
      Emits f (.ascribed t ty (.lit t' (.str v))) n (.reg ⟨n + 1⟩)
        [.slot ⟨n⟩ (stringData v).length, .instr (.store ⟨n⟩ (stringData v)),
          .instr (.bitcast ⟨n + 1⟩ ⟨n⟩)] (n + 2)
  | var (t t' : τ) (ty : Ty) {name : String} {r : Reg} (n : Nat) (hr : f.register? name = some r) :
      Emits f (.ascribed t ty (.var t' name)) n (.reg r) [] n
  | binary (t t' : τ) (ty : Ty) (op : BinOp) {lhs rhs : Expr τ} {a b : Ty} {x y x' y' : Operand}
      {n n₁ n₂ n₃ n₄ : Nat} {c₁ c₂ c₃ c₄ : Code} (ha : lhs.ascribedType? = some a)
      (hb : rhs.ascribedType? = some b) (hl : Expr.Emits f lhs n x c₁ n₁)
      (hr : Expr.Emits f rhs n₁ y c₂ n₂) (hx : Coerces f.width a (a.against b) n₂ x x' c₃ n₃)
      (hy : Coerces f.width b (b.against a) n₃ y y' c₄ n₄) :
      Emits f (.ascribed t ty (.binary t' op lhs rhs)) n (.reg ⟨n₄⟩)
        (c₁ ++ (c₂ ++ (c₃ ++ (c₄ ++ [.instr (op.instr x' y' ⟨n₄⟩)])))) (n₄ + 1)
  | neg (t t' : τ) (ty : Ty) {operand : Expr τ} {x : Operand} {n n' : Nat} {c : Code}
      (ht : operand.ascribedType? = some .int) (h : Expr.Emits f operand n x c n') :
      Emits f (.ascribed t ty (.neg t' operand)) n (.reg ⟨n'⟩) (c ++ [.instr (.neg ⟨n'⟩ x)])
        (n' + 1)
  | call (t t' : τ) (ty : Ty) {path : Path} {args : List (Expr τ)} {symbol : Symbol Signature}
      {xs : List Operand} {n n' : Nat} {c : Code} (hs : f.scope.function? path = some symbol)
      (h : Expr.EmitsArgs f args symbol.decl.params n xs c n') (hv : symbol.decl.result ≠ .void) :
      Emits f (.ascribed t ty (.call t' path args)) n (.reg ⟨n'⟩)
        (c ++ [.instr (.call (some ⟨n'⟩) path.linkName xs)]) (n' + 1)

/-- The code for the arguments of a call, as far as there are parameters. -/
inductive Expr.EmitsArgs (f : Frame) :
    List (Expr τ) → List Param → Nat → List Operand → Code → Nat → Prop where
  | noArgs (params : List Param) (n : Nat) : EmitsArgs f [] params n [] [] n
  | noParams (arg : Expr τ) (args : List (Expr τ)) (n : Nat) :
      EmitsArgs f (arg :: args) [] n [] [] n
  | cons {arg : Expr τ} {args : List (Expr τ)} {param : Param} {params : List Param} {ty : Ty}
      {x x' : Operand} {xs : List Operand} {n n₁ n₂ n₃ : Nat} {c₁ c₂ c₃ : Code}
      (ht : arg.ascribedType? = some ty) (h : Expr.Emits f arg n x c₁ n₁)
      (hc : Coerces f.width ty param.ty n₁ x x' c₂ n₂)
      (rest : Expr.EmitsArgs f args params n₂ xs c₃ n₃) :
      EmitsArgs f (arg :: args) (param :: params) n (x' :: xs) (c₁ ++ (c₂ ++ c₃)) n₃

end

/-- The code for an expression whose value is not used. -/
inductive Expr.EmitsEffect (f : Frame) : Expr τ → Nat → Code → Nat → Prop where
  | value {e : Expr τ} {x : Operand} {n n' : Nat} {c : Code} (h : e.Emits f n x c n') :
      EmitsEffect f e n c n'
  | voidCall (t t' : τ) (ty : Ty) {path : Path} {args : List (Expr τ)} {symbol : Symbol Signature}
      {xs : List Operand} {n n' : Nat} {c : Code} (hs : f.scope.function? path = some symbol)
      (h : Expr.EmitsArgs f args symbol.decl.params n xs c n') (hv : symbol.decl.result = .void) :
      EmitsEffect f (.ascribed t ty (.call t' path args)) n
        (c ++ [.instr (.call none path.linkName xs)]) n'

namespace Emit

variable {α β : Type} {b b' : Builder} {f : Frame}

theorem outcome_bind_of_ok {x : Emit α} {a : α} (g : α → Emit β)
    (h : (x b).outcome = .ok (a, b')) : ((x >>= g) b).outcome = (g a b').outcome := by
  rw [outcome_bind, h]
  rfl

theorem outcome_fresh_write (b : Builder) :
    (fresh b).outcome = .ok (⟨b.nextReg⟩, b.write [] (b.nextReg + 1)) := by
  rw [Builder.write_nil_eq]
  rfl

theorem outcome_push (i : Instr) (h : b.isOpen) :
    (push i b).outcome = .ok ((), b.write [.instr i] b.nextReg) := by
  rw [push, outcome_attempt, Builder.push_of_isOpen i h]
  rfl

private theorem outcome_hoist (r : Reg) (length : Nat) (h : b.isOpen) :
    (hoist (.alloca r length) b).outcome = .ok ((), b.write [.slot r length] b.nextReg) := by
  rw [hoist, outcome_attempt, Builder.hoist_of_isOpen r length h]
  rfl

theorem outcome_define (instr : Reg → Instr) (h : b.isOpen) :
    (define instr b).outcome =
      .ok (.reg ⟨b.nextReg⟩, b.write [.instr (instr ⟨b.nextReg⟩)] (b.nextReg + 1)) := by
  unfold define
  rw [outcome_bind_of_ok _ (outcome_fresh_write b),
    outcome_bind_of_ok _ (outcome_push _ (by simpa))]
  simp

theorem outcome_stringLiteral (v : String) (h : b.isOpen) :
    (stringLiteral v b).outcome = .ok (.reg ⟨b.nextReg + 1⟩,
      b.write [.slot ⟨b.nextReg⟩ (stringData v).length, .instr (.store ⟨b.nextReg⟩ (stringData v)),
        .instr (.bitcast ⟨b.nextReg + 1⟩ ⟨b.nextReg⟩)] (b.nextReg + 2)) := by
  unfold stringLiteral
  rw [outcome_bind_of_ok _ (outcome_fresh_write b),
    outcome_bind_of_ok _ (outcome_hoist _ _ (by simpa)),
    outcome_bind_of_ok _ (outcome_push _ (by simpa)), outcome_define _ (by simpa)]
  simp

theorem coerce_eq_ok_iff {x x' : Operand} {source dest : Ty} (h : b.isOpen) :
    (coerce f x source dest b).outcome = .ok (x', b') ↔
      ∃ c n, Coerces f.width source dest b.nextReg x x' c n ∧ b' = b.write c n := by
  unfold coerce
  constructor
  · intro hx
    by_cases hs : source.target f.width = dest.target f.width
    · simp only [hs, if_true, outcome_pure] at hx
      cases hx
      exact ⟨[], _, .same hs, by simp⟩
    · cases hc : (source.target f.width).conversion? (dest.target f.width) with
      | none => simp [hs, hc] at hx
      | some instr =>
        simp only [hs, if_false, hc, outcome_define _ h] at hx
        cases hx
        exact ⟨_, _, .convert hs hc, rfl⟩
  · intro hx
    obtain ⟨c, n, hx, rfl⟩ := hx
    cases hx with
    | same hs => simp [hs]
    | convert hs hc => simp only [hs, if_false, hc, outcome_define _ h]

/-- The last steps of a binary operation: both operands are brought to the type they are compared
at, and the instruction follows. -/
private theorem operate_eq_ok_iff {a a' : Ty} {op : BinOp} {x y z : Operand} (h : b.isOpen) :
    ((if a = .any ∨ a' = .any then do
        let x ← coerce f x a .any
        let y ← coerce f y a' .any
        define (op.instr x y)
      else define (op.instr x y) : Emit Operand) b).outcome = .ok (z, b') ↔
      ∃ x' c₁ n₁ y' c₂ n₂, Coerces f.width a (a.against a') b.nextReg x x' c₁ n₁ ∧
        Coerces f.width a' (a'.against a) n₁ y y' c₂ n₂ ∧ z = .reg ⟨n₂⟩ ∧
        b' = b.write (c₁ ++ (c₂ ++ [.instr (op.instr x' y' ⟨n₂⟩)])) (n₂ + 1) := by
  by_cases hany : a = .any ∨ a' = .any
  · have hany' : a' = .any ∨ a = .any := hany.symm
    simp only [hany, if_true, Ty.against, hany', bind_eq_ok_iff]
    constructor
    · intro hz
      obtain ⟨x', _, ex, y', _, ey, hz⟩ := hz
      obtain ⟨c₁, n₁, hx, rfl⟩ := (coerce_eq_ok_iff h).1 ex
      obtain ⟨c₂, n₂, hy, rfl⟩ := (coerce_eq_ok_iff (by simpa)).1 ey
      rw [outcome_define _ (by simpa)] at hz
      cases hz
      exact ⟨x', c₁, n₁, y', c₂, n₂, hx, hy, rfl, by simp⟩
    · intro hz
      obtain ⟨x', c₁, n₁, y', c₂, n₂, hx, hy, rfl, rfl⟩ := hz
      refine ⟨x', _, (coerce_eq_ok_iff h).2 ⟨c₁, n₁, hx, rfl⟩, y', _,
        (coerce_eq_ok_iff (by simpa)).2 ⟨c₂, n₂, hy, rfl⟩, ?_⟩
      rw [outcome_define _ (by simpa)]
      simp
  · have hany' : ¬(a' = .any ∨ a = .any) := fun hc => hany hc.symm
    simp only [hany, if_false, Ty.against, hany', outcome_define _ h]
    constructor
    · intro hz
      cases hz
      exact ⟨x, [], _, y, [], _, .same rfl, .same rfl, rfl, by simp⟩
    · intro hz
      obtain ⟨x', c₁, n₁, y', c₂, n₂, hx, hy, rfl, rfl⟩ := hz
      cases hx with
      | convert hs _ => exact absurd rfl hs
      | same _ =>
        cases hy with
        | convert hs _ => exact absurd rfl hs
        | same _ => simp

end Emit

namespace Expr

variable {f : Frame}

theorem carriedType_eq_ok_iff {e : Expr τ} {ty : Ty} {b b' : Builder} :
    (e.carriedType b).outcome = .ok (ty, b') ↔ e.ascribedType? = some ty ∧ b' = b := by
  unfold carriedType
  cases e.ascribedType? with
  | none => simp
  | some a => simp [eq_comm]

/-- A call, given how its arguments are emitted. -/
private theorem call_eq_ok_iff {path : Path} {args : List (Expr τ)} {b b' : Builder}
    {r? : Option Reg} (hargs : ∀ params {b b' : Builder} {xs : List Operand}, b.isOpen →
      ((emitArgs f args params b).outcome = .ok (xs, b') ↔
        ∃ c n, EmitsArgs f args params b.nextReg xs c n ∧ b' = b.write c n)) (h : b.isOpen) :
    (Emit.call f path (emitArgs f args) b).outcome = .ok (r?, b') ↔
      ∃ symbol xs c n, f.scope.function? path = some symbol ∧
        EmitsArgs f args symbol.decl.params b.nextReg xs c n ∧
        (symbol.decl.result = .void ∧ r? = none ∧
            b' = b.write (c ++ [.instr (.call none path.linkName xs)]) n ∨
          symbol.decl.result ≠ .void ∧ r? = some ⟨n⟩ ∧
            b' = b.write (c ++ [.instr (.call (some ⟨n⟩) path.linkName xs)]) (n + 1)) := by
  unfold Emit.call
  cases hs : f.scope.function? path with
  | none => simp
  | some symbol =>
    simp only [Emit.bind_eq_ok_iff, Option.some.injEq]
    constructor
    · intro hr
      obtain ⟨xs, _, exs, hr⟩ := hr
      obtain ⟨c, n, hxs, rfl⟩ := (hargs _ h).1 exs
      refine ⟨symbol, xs, c, n, rfl, hxs, ?_⟩
      by_cases hv : symbol.decl.result = .void
      · simp only [hv, if_true] at hr
        rw [Emit.outcome_bind_of_ok _ (Emit.outcome_push _ (by simpa))] at hr
        cases hr
        exact .inl ⟨hv, rfl, by simp⟩
      · simp only [hv, if_false] at hr
        rw [Emit.outcome_bind_of_ok _ (Emit.outcome_fresh_write _),
          Emit.outcome_bind_of_ok _ (Emit.outcome_push _ (by simpa))] at hr
        cases hr
        exact .inr ⟨hv, rfl, by simp⟩
    · intro hr
      obtain ⟨_, xs, c, n, rfl, hxs, hr⟩ := hr
      refine ⟨xs, _, (hargs _ h).2 ⟨c, n, hxs, rfl⟩, ?_⟩
      rcases hr with ⟨hv, rfl, rfl⟩ | ⟨hv, rfl, rfl⟩
      · simp only [hv, if_true]
        rw [Emit.outcome_bind_of_ok _ (Emit.outcome_push _ (by simpa))]
        simp
      · simp only [hv, if_false]
        rw [Emit.outcome_bind_of_ok _ (Emit.outcome_fresh_write _),
          Emit.outcome_bind_of_ok _ (Emit.outcome_push _ (by simpa))]
        simp

mutual

/-- Emission of an expression into an open block succeeds just when the rules give code for it, and
then adds that code. -/
theorem emit_eq_ok_iff : ∀ (e : Expr τ) {b b' : Builder} {x : Operand}, b.isOpen →
    ((e.emit f b).outcome = .ok (x, b') ↔ ∃ c n, e.Emits f b.nextReg x c n ∧ b' = b.write c n)
  | ascribed t ty (lit t' (.bool v)), b, b', x, h => by
    simp only [emit, Emit.outcome_pure]
    constructor
    · intro hx
      cases hx
      exact ⟨[], _, .bool t t' ty v _, by simp⟩
    · intro hx
      obtain ⟨c, n, hx, rfl⟩ := hx
      cases hx
      simp
  | ascribed t ty (lit t' (.int v)), b, b', x, h => by
    simp only [emit, Emit.outcome_pure]
    constructor
    · intro hx
      cases hx
      exact ⟨[], _, .int t t' ty v _, by simp⟩
    · intro hx
      obtain ⟨c, n, hx, rfl⟩ := hx
      cases hx
      simp
  | ascribed t ty (lit t' (.str v)), b, b', x, h => by
    simp only [emit, Emit.outcome_stringLiteral v h]
    constructor
    · intro hx
      cases hx
      exact ⟨_, _, .str t t' ty v _, rfl⟩
    · intro hx
      obtain ⟨c, n, hx, rfl⟩ := hx
      cases hx
      rfl
  | ascribed t ty (var t' name), b, b', x, h => by
    rw [emit]
    constructor
    · intro hx
      cases hr : f.register? name with
      | none => simp [hr] at hx
      | some r =>
        simp only [hr, Emit.outcome_pure] at hx
        cases hx
        exact ⟨[], _, .var t t' ty _ hr, by simp⟩
    · intro hx
      obtain ⟨c, n, hx, rfl⟩ := hx
      cases hx with
      | var _ _ _ _ hr => simp [hr]
  | ascribed t ty (binary t' op lhs rhs), b, b', x, h => by
    simp only [emit, Emit.bind_eq_ok_iff, carriedType_eq_ok_iff]
    constructor
    · intro hx
      obtain ⟨a, _, ⟨ha, rfl⟩, a', _, ⟨ha', rfl⟩, x₁, _, el, y₁, _, er, ex⟩ := hx
      obtain ⟨c₁, n₁, hl, rfl⟩ := (emit_eq_ok_iff lhs h).1 el
      obtain ⟨c₂, n₂, hr, rfl⟩ := (emit_eq_ok_iff rhs (by simpa)).1 er
      obtain ⟨x₂, c₃, n₃, y₂, c₄, n₄, hx₂, hy₂, rfl, rfl⟩ :=
        (Emit.operate_eq_ok_iff (by simpa)).1 ex
      exact ⟨_, _, .binary t t' ty op ha ha' hl hr hx₂ hy₂, by simp⟩
    · intro hx
      obtain ⟨c, n, hx, rfl⟩ := hx
      cases hx with
      | binary _ _ _ _ ha ha' hl hr hx hy =>
        refine ⟨_, _, ⟨ha, rfl⟩, _, _, ⟨ha', rfl⟩, _, _,
          (emit_eq_ok_iff lhs h).2 ⟨_, _, hl, rfl⟩, _, _,
          (emit_eq_ok_iff rhs (by simpa)).2 ⟨_, _, hr, rfl⟩, ?_⟩
        exact (Emit.operate_eq_ok_iff (by simpa)).2 ⟨_, _, _, _, _, _, hx, hy, rfl, by simp⟩
  | ascribed t ty (neg t' operand), b, b', x, h => by
    rw [emit]
    by_cases ht : operand.ascribedType? = some .int
    · simp only [ht, if_true, Emit.bind_eq_ok_iff]
      constructor
      · intro hx
        obtain ⟨x₁, _, eo, hx⟩ := hx
        obtain ⟨c, n, ho, rfl⟩ := (emit_eq_ok_iff operand h).1 eo
        rw [Emit.outcome_define _ (by simpa)] at hx
        cases hx
        exact ⟨_, _, .neg t t' ty ht ho, by simp⟩
      · intro hx
        obtain ⟨c, n, hx, rfl⟩ := hx
        cases hx with
        | neg _ _ _ _ ho =>
          refine ⟨_, _, (emit_eq_ok_iff operand h).2 ⟨_, _, ho, rfl⟩, ?_⟩
          rw [Emit.outcome_define _ (by simpa)]
          simp
    · simp only [ht, if_false, Emit.outcome_fail, reduceCtorEq, false_iff]
      intro hx
      obtain ⟨c, n, hx, _⟩ := hx
      cases hx with
      | neg _ _ _ ht' _ => exact ht ht'
  | ascribed t ty (call t' path args), b, b', x, h => by
    simp only [emit, Emit.bind_eq_ok_iff, call_eq_ok_iff (fun _ => emitArgs_eq_ok_iff args _) h]
    constructor
    · intro hx
      obtain ⟨r?, _, ⟨symbol, xs, c, n, hs, hxs, hr⟩, hx⟩ := hx
      rcases hr with ⟨_, rfl, rfl⟩ | ⟨hv, rfl, rfl⟩
      · simp at hx
      · cases hx
        exact ⟨_, _, .call t t' ty hs hxs hv, rfl⟩
    · intro hx
      obtain ⟨c, n, hx, rfl⟩ := hx
      cases hx with
      | call _ _ _ hs hxs hv =>
        exact ⟨_, _, ⟨_, _, _, _, hs, hxs, .inr ⟨hv, rfl, rfl⟩⟩, rfl⟩
  | ascribed _ _ (bareCall ..), b, b', x, h | ascribed _ _ (ascribed ..), b, b', x, h
  | bareCall .., b, b', x, h | call .., b, b', x, h | binary .., b, b', x, h
  | neg .., b, b', x, h | lit .., b, b', x, h | var .., b, b', x, h => by
    simp only [emit, Emit.outcome_fail, reduceCtorEq, false_iff]
    intro hx
    obtain ⟨c, n, hx, _⟩ := hx
    cases hx

theorem emitArgs_eq_ok_iff : ∀ (args : List (Expr τ)) (params : List Param) {b b' : Builder}
    {xs : List Operand}, b.isOpen → ((emitArgs f args params b).outcome = .ok (xs, b') ↔
      ∃ c n, EmitsArgs f args params b.nextReg xs c n ∧ b' = b.write c n)
  | [], params, b, b', xs, h => by
    simp only [emitArgs, Emit.outcome_pure]
    constructor
    · intro hx
      cases hx
      exact ⟨[], _, .noArgs params _, by simp⟩
    · intro hx
      obtain ⟨c, n, hx, rfl⟩ := hx
      cases hx
      simp
  | arg :: args, [], b, b', xs, h => by
    simp only [emitArgs, Emit.outcome_pure]
    constructor
    · intro hx
      cases hx
      exact ⟨[], _, .noParams arg args _, by simp⟩
    · intro hx
      obtain ⟨c, n, hx, rfl⟩ := hx
      cases hx
      simp
  | arg :: args, param :: params, b, b', xs, h => by
    simp only [emitArgs, Emit.bind_eq_ok_iff, carriedType_eq_ok_iff]
    constructor
    · intro hx
      obtain ⟨ty, _, ⟨ht, rfl⟩, x, _, ev, x', _, ec, xs', _, erest, hx⟩ := hx
      obtain ⟨c₁, n₁, hv, rfl⟩ := (emit_eq_ok_iff arg h).1 ev
      obtain ⟨c₂, n₂, hc, rfl⟩ := (Emit.coerce_eq_ok_iff (by simpa)).1 ec
      obtain ⟨c₃, n₃, hrest, rfl⟩ := (emitArgs_eq_ok_iff args params (by simpa)).1 erest
      cases hx
      exact ⟨_, _, .cons ht hv hc hrest, by simp⟩
    · intro hx
      obtain ⟨c, n, hx, rfl⟩ := hx
      cases hx with
      | cons ht hv hc hrest =>
        refine ⟨_, _, ⟨ht, rfl⟩, _, _, (emit_eq_ok_iff arg h).2 ⟨_, _, hv, rfl⟩, _, _,
          (Emit.coerce_eq_ok_iff (by simpa)).2 ⟨_, _, hc, rfl⟩, _, _,
          (emitArgs_eq_ok_iff args params (by simpa)).2 ⟨_, _, hrest, rfl⟩, ?_⟩
        simp

end

private theorem discard_eq_ok_iff {α : Type} {x : Emit α} {b b' : Builder} :
    ((do let _ ← x : Emit Unit) b).outcome = .ok ((), b') ↔
      ∃ v, (x b).outcome = .ok (v, b') := by
  rw [Emit.bind_eq_ok_iff]
  constructor
  · intro h
    obtain ⟨v, b₁, hx, hp⟩ := h
    cases hp
    exact ⟨v, hx⟩
  · intro h
    obtain ⟨v, hx⟩ := h
    exact ⟨v, b', hx, rfl⟩

theorem emitEffect_eq_ok_iff (e : Expr τ) {b b' : Builder} (h : b.isOpen) :
    (e.emitEffect f b).outcome = .ok ((), b') ↔
      ∃ c n, e.EmitsEffect f b.nextReg c n ∧ b' = b.write c n := by
  fun_cases emitEffect f e with
  | case1 t ty t' path args =>
    simp only [discard_eq_ok_iff, call_eq_ok_iff (fun _ => emitArgs_eq_ok_iff args _) h]
    constructor
    · intro hx
      obtain ⟨r?, symbol, xs, c, n, hs, hxs, hr⟩ := hx
      rcases hr with ⟨hv, _, rfl⟩ | ⟨hv, _, rfl⟩
      · exact ⟨_, _, .voidCall t t' ty hs hxs hv, rfl⟩
      · exact ⟨_, _, .value (.call t t' ty hs hxs hv), rfl⟩
    · intro hx
      obtain ⟨c, n, hx, rfl⟩ := hx
      cases hx with
      | value hx =>
        cases hx with
        | call _ _ _ hs hxs hv => exact ⟨_, _, _, _, _, hs, hxs, .inr ⟨hv, rfl, rfl⟩⟩
      | voidCall _ _ _ hs hxs hv => exact ⟨_, _, _, _, _, hs, hxs, .inl ⟨hv, rfl, rfl⟩⟩
  | case2 e hne =>
    simp only [discard_eq_ok_iff, emit_eq_ok_iff e h]
    constructor
    · intro hx
      obtain ⟨x, c, n, hx, rfl⟩ := hx
      exact ⟨c, n, .value hx, rfl⟩
    · intro hx
      obtain ⟨c, n, hx, rfl⟩ := hx
      cases hx with
      | value hx => exact ⟨_, c, n, hx, rfl⟩
      | voidCall t t' ty _ _ _ => exact absurd rfl (hne t ty t' _ _)

end Expr

end BlockCompiler
