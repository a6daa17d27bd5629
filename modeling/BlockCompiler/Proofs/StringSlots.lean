import BlockCompiler.Proofs.Layout
import BlockCompiler.Proofs.Nodes
import BlockCompiler.Proofs.SingleAssignment

/-!
# Slots for strings

Each string that a live statement mentions has a slot of its own: memory of the right size, reserved
in the entry block, which the text is copied into right before its address is taken. Dead statements
have no slots.
-/

namespace BlockCompiler

open Target

variable {τ : Type}

namespace Expr

/-- The text of a string literal. -/
def text? : Expr τ → Option String
  | lit _ (.str v) => some v
  | _ => none

/-- The texts of the string literals in an expression, from left to right. -/
def strings (e : Expr τ) : List String :=
  e.nodes.filterMap text?

def stringsAll (es : List (Expr τ)) : List String :=
  (nodesAll es).filterMap text?

section Nodes

variable (tag : τ)

@[simp] theorem strings_bareCall (name : String) (args : List (Expr τ)) :
    (bareCall tag name args).strings = stringsAll args := rfl

@[simp] theorem strings_call (path : Path) (args : List (Expr τ)) :
    (call tag path args).strings = stringsAll args := rfl

@[simp] theorem strings_binary (op : BinOp) (lhs rhs : Expr τ) :
    (binary tag op lhs rhs).strings = lhs.strings ++ rhs.strings :=
  List.filterMap_append

@[simp] theorem strings_neg (operand : Expr τ) : (neg tag operand).strings = operand.strings := rfl

@[simp] theorem strings_ascribed (ty : Ty) (inner : Expr τ) :
    (ascribed tag ty inner).strings = inner.strings := rfl

@[simp] theorem stringsAll_cons (e : Expr τ) (es : List (Expr τ)) :
    stringsAll (e :: es) = e.strings ++ stringsAll es :=
  List.filterMap_append

end Nodes

mutual

private theorem strings_plain : ∀ e : Expr τ, e.plain.strings = e.strings
  | bareCall _ _ args | call _ _ args => by
    simpa [plain] using stringsAll_plainAll args
  | binary _ _ lhs rhs => by
    simp [plain, strings_plain lhs, strings_plain rhs]
  | neg _ e | ascribed _ _ e => by
    simpa [plain] using strings_plain e
  | lit .. | var .. => rfl

private theorem stringsAll_plainAll : ∀ es : List (Expr τ), stringsAll (plainAll es) = stringsAll es
  | [] => rfl
  | e :: es => by
    simp [plainAll, strings_plain e, stringsAll_plainAll es]

end

variable {s : Scope} {params : List Param}

mutual

private theorem Resolves.strings_eq {e e' : Expr τ} :
    Resolves s params e e' → e'.strings = e.strings
  | .bareCall _ _ hargs | .call _ _ hargs => hargs.stringsAll_eq
  | .binary _ _ hl hr => by
    simp [hl.strings_eq, hr.strings_eq]
  | .neg _ h | .ascribed _ _ h => h.strings_eq
  | .lit .. | .var .. => rfl

private theorem ResolvesAll.stringsAll_eq {es es' : List (Expr τ)} :
    ResolvesAll s params es es' → stringsAll es' = stringsAll es
  | .nil => rfl
  | .cons h rest => by
    simp [h.strings_eq, rest.stringsAll_eq]

end

end Expr

namespace Stmt

/-- The texts of the string literals that a statement mentions itself. -/
def strings (st : Stmt τ) : List String :=
  st.value?.elim [] Expr.strings

section Values

variable (tag : τ) (value : Expr τ)

@[simp] theorem strings_branch (thn els : List (Stmt τ)) :
    (branch tag value thn els).strings = value.strings := rfl

@[simp] theorem strings_loop (body : List (Stmt τ)) :
    (loop tag value body).strings = value.strings := rfl

@[simp] theorem strings_effect : (effect tag value).strings = value.strings := rfl

@[simp] theorem strings_ret : (ret tag (some value)).strings = value.strings := rfl

@[simp] theorem strings_bareRet : (ret tag none).strings = [] := rfl

end Values

variable {R : Expr τ → Expr τ → Prop}

private theorem Rel.strings_eq (hR : ∀ e e', R e e' → e'.strings = e.strings) {st st' : Stmt τ}
    (h : Rel R st st') : st'.strings = st.strings := by
  cases h with
  | branch _ h | loop _ h | effect _ h | ret _ h => exact hR _ _ h
  | bareRet => rfl

/-- A pass that keeps the strings of expressions keeps those of the live statements. -/
private theorem RelAll.live_strings_eq (hR : ∀ e e', R e e' → e'.strings = e.strings)
    {sts sts' : List (Stmt τ)} (h : RelAll R sts sts') :
    (Stmt.liveAll sts').flatMap strings = (Stmt.liveAll sts).flatMap strings := by
  have hmap : (Stmt.liveAll sts).map strings = (Stmt.liveAll sts').map strings := by
    rw [← List.forall₂_eq_eq_eq, List.forall₂_map_left_iff, List.forall₂_map_right_iff]
    exact h.liveAll.imp fun st st' hst => (hst.strings_eq hR).symm
  rw [List.flatMap, List.flatMap, hmap]

end Stmt

/-- The strings in the live statements of a function are the same from the source to emission. -/
theorem Func.Compiles.live_strings_eq [Located τ] {s : Scope} {w : Width} {f : Func τ}
    {resolved typed : List (Stmt τ)} {b : Builder} {blocks : List Block}
    (h : f.Compiles s w resolved typed b blocks) :
    (Stmt.liveAll typed).flatMap Stmt.strings = (Stmt.liveAll f.body).flatMap Stmt.strings := by
  have hresolve := (Stmt.relAll_of_resolveAll h.resolve).live_strings_eq
    fun e e' he => (Expr.resolve_eq_ok_iff.1 he).strings_eq
  have htypes := h.samePlain.live_strings_eq fun e e' he => by
    rw [← e'.strings_plain, ← e.strings_plain, he]
  rw [htypes, hresolve]

namespace Target

/-- Memory for one string: the register with its address, and the text that is kept there. -/
structure Slot where
  reg : Reg
  text : String

/-- The bytes in a slot: the text, and a zero after it. -/
def Slot.bytes (s : Slot) : List UInt8 :=
  s.text.toUTF8.data.toList ++ [0]

namespace Instr

def reserved? : Instr → Option (Reg × Nat)
  | alloca dest length => some (dest, length)
  | _ => none

def stored? : Instr → Option (Reg × List UInt8)
  | store ptr data => some (ptr, data)
  | _ => none

def taken? : Instr → Option Reg
  | bitcast _ value => some value
  | _ => none

/-- The instruction has nothing to do with slots. -/
structure Plain (i : Instr) : Prop where
  reserved : i.reserved? = none
  stored : i.stored? = none
  taken : i.taken? = none

end Instr

/-- Right after each store, the address of its slot is taken. -/
def TakenAtOnce (is : List Instr) : Prop :=
  ∀ (j : Nat) (r : Reg) (data : List UInt8), is[j]? = some (.store r data) →
    ∃ dest, is[j + 1]? = some (.bitcast dest r)

/-- How the instructions of a body, given by block, use the slots `slots`. -/
structure UsesSlots (code : List (List Instr)) (slots : List Slot) : Prop where
  /-- The entry block reserves the slots, in order, and no other block reserves memory. -/
  reserved : ∀ (i : Nat) (is : List Instr), code[i]? = some is →
    is.filterMap Instr.reserved? =
      if i = 0 then slots.map fun slot => (slot.reg, slot.bytes.length) else []
  stored : (code.flatten.filterMap Instr.stored?).Perm (slots.map fun slot => (slot.reg, slot.bytes))
  taken : (code.flatten.filterMap Instr.taken?).Perm (slots.map Slot.reg)
  takenAtOnce : ∀ is ∈ code, TakenAtOnce is

private theorem takenAtOnce_nil : TakenAtOnce [] := by
  simp [TakenAtOnce]

private theorem TakenAtOnce.append {is js : List Instr} (h : TakenAtOnce is) (h' : TakenAtOnce js) :
    TakenAtOnce (is ++ js) := by
  intro j r data hj
  rcases Nat.lt_or_ge j is.length with hlt | hge
  · rw [List.getElem?_append_left hlt] at hj
    obtain ⟨dest, hdest⟩ := h j r data hj
    exact ⟨dest, by rw [List.getElem?_append_left (List.getElem?_eq_some_iff.1 hdest).1, hdest]⟩
  · rw [List.getElem?_append_right hge] at hj
    obtain ⟨dest, hdest⟩ := h' _ r data hj
    refine ⟨dest, ?_⟩
    rw [List.getElem?_append_right (by omega), Nat.sub_add_comm hge, hdest]

private theorem takenAtOnce_singleton {i : Instr} (h : i.stored? = none) : TakenAtOnce [i] := by
  intro j r data hj
  obtain rfl := List.mem_singleton.1 (List.mem_of_getElem? hj)
  cases h

private theorem takenAtOnce_store (r dest : Reg) (data : List UInt8) :
    TakenAtOnce [.store r data, .bitcast dest r] := by
  intro j r' data' hj
  match j with
  | 0 =>
    cases hj
    exact ⟨dest, rfl⟩
  | 1 => cases hj
  | j + 2 => simp at hj

end Target

private theorem Code.inBlock_instr_cons (current entry : Bool) (i : Instr) (c : Code) :
    Code.inBlock current entry (.instr i :: c) =
      (if current then [i] else []) ++ Code.inBlock current entry c := by
  cases current <;> rfl

private theorem Code.inBlock_slot_cons (current entry : Bool) (r : Reg) (length : Nat) (c : Code) :
    Code.inBlock current entry (.slot r length :: c) =
      (if entry then [.alloca r length] else []) ++ Code.inBlock current entry c := by
  cases entry <;> rfl

/-- `c.Fills slots`: the code reserves the slots, one after another, and fills each at once. -/
inductive Code.Fills : Code → List Slot → Prop where
  | nil : Fills [] []
  | plain {i : Instr} {c : Code} {slots : List Slot} (h : i.Plain) (rest : Fills c slots) :
      Fills (.instr i :: c) slots
  | slot (slot : Slot) (dest : Reg) {c : Code} {slots : List Slot} (rest : Fills c slots) :
      Fills (.slot slot.reg slot.bytes.length :: .instr (.store slot.reg slot.bytes) ::
        .instr (.bitcast dest slot.reg) :: c) (slot :: slots)

namespace Code.Fills

variable {c d : Code} {slots more : List Slot}

private theorem append (hc : c.Fills slots) (hd : d.Fills more) :
    (c ++ d).Fills (slots ++ more) := by
  induction hc with
  | nil => exact hd
  | plain h _ ih => exact .plain h ih
  | slot slot dest _ ih => exact .slot slot dest ih

private theorem reserved (h : c.Fills slots) (current entry : Bool) :
    (c.inBlock current entry).filterMap Instr.reserved? =
      if entry then slots.map fun slot => (slot.reg, slot.bytes.length) else [] := by
  induction h with
  | nil => cases entry <;> rfl
  | plain h _ ih =>
    rw [inBlock_instr_cons, List.filterMap_append, ih]
    cases current <;> simp [h.reserved]
  | slot slot dest _ ih =>
    simp only [inBlock_instr_cons, inBlock_slot_cons, List.filterMap_append, ih]
    cases current <;> cases entry <;> rfl

private theorem stored (h : c.Fills slots) :
    (c.map Piece.toInstr).filterMap Instr.stored? = slots.map fun slot => (slot.reg, slot.bytes) := by
  induction h with
  | nil => rfl
  | plain h _ ih => exact (List.filterMap_cons_none h.stored).trans ih
  | slot slot dest _ ih => exact congrArg (_ :: ·) ih

private theorem taken (h : c.Fills slots) :
    (c.map Piece.toInstr).filterMap Instr.taken? = slots.map Slot.reg := by
  induction h with
  | nil => rfl
  | plain h _ ih => exact (List.filterMap_cons_none h.taken).trans ih
  | slot slot dest _ ih => exact congrArg (_ :: ·) ih

private theorem takenAtOnce (h : c.Fills slots) (current entry : Bool) :
    TakenAtOnce (c.inBlock current entry) := by
  induction h with
  | nil => exact takenAtOnce_nil
  | plain h _ ih =>
    rw [inBlock_instr_cons]
    cases current with
    | true => exact (takenAtOnce_singleton h.stored).append ih
    | false => exact ih
  | slot slot dest _ ih =>
    -- what is reserved in the entry block comes before the store
    have hslot : TakenAtOnce (if entry then [.alloca slot.reg slot.bytes.length] else []) := by
      cases entry with
      | true => exact takenAtOnce_singleton rfl
      | false => exact takenAtOnce_nil
    rw [inBlock_slot_cons, inBlock_instr_cons, inBlock_instr_cons]
    cases current with
    | true => exact hslot.append ((takenAtOnce_store slot.reg dest slot.bytes).append ih)
    | false => exact hslot.append ih

end Code.Fills

namespace Target.Builder

variable {b b' : Builder}

/-- The instructions of the builder, block by block. -/
def code (b : Builder) : List (List Instr) :=
  b.blocks.map (·.instrs)

private theorem code_write (b : Builder) (c : Code) (n : Nat) :
    (b.write c n).code = b.code.mapIdx fun i is => is ++ c.inBlock (b.isCurrent i) (i = 0) := by
  apply List.ext_getElem?
  intro i
  simp only [code, List.getElem?_map, getElem?_blocks_write, Option.map_map, List.getElem?_mapIdx]
  rfl

private theorem perm_flatten_code_write_singleton (piece : Piece) (n : Nat) (ho : b.isOpen) :
    (b.write [piece] n).code.flatten.Perm (b.code.flatten ++ [piece.toInstr]) := by
  obtain ⟨id, block, hc, hb, _⟩ := isOpen_iff_exists.1 ho
  have happend : ∀ block : OpenBlock, (block.append piece.toInstr).instrs =
      block.instrs ++ [piece.toInstr] := fun _ => rfl
  cases piece with
  | instr i =>
    rw [code, blocks_write_instr hc]
    exact perm_flatMap_modify happend (List.getElem?_eq_some_iff.1 hb).1
  | slot r length =>
    rw [code, blocks_write_slot]
    exact perm_flatMap_modify happend (length_pos_of_isOpen ho)

/-- Up to order it does not matter in which blocks the pieces of code go. -/
private theorem perm_flatten_code_write (c : Code) (n : Nat) (ho : b.isOpen) :
    (b.write c n).code.flatten.Perm (b.code.flatten ++ c.map Piece.toInstr) := by
  induction c generalizing b with
  | nil => simp [code, write_nil_eq]
  | cons piece c ih =>
    have hc := ih (b := b.write [piece] n) (by simpa)
    rw [write_write, List.singleton_append] at hc
    have hpiece := (perm_flatten_code_write_singleton piece n ho).append_right (c.map Piece.toInstr)
    rw [List.append_assoc, List.singleton_append] at hpiece
    exact hc.trans hpiece

@[simp] theorem code_add (b : Builder) (label : String) : (b.add label).code = b.code ++ [[]] := by
  simp [code]

@[simp] theorem code_close (b : Builder) (t : Terminator) : (b.close t).code = b.code :=
  map_instrs_close b t

@[simp] theorem code_moveTo (b : Builder) (id : BlockId) : (b.moveTo id).code = b.code := rfl

@[simp] theorem code_closeOpen (b : Builder) (t : Terminator) : (b.closeOpen t).code = b.code := by
  unfold closeOpen
  split <;> simp

@[simp] theorem code_resume (b : Builder) (merge? : Option BlockId) :
    (b.resume merge?).code = b.code := by
  cases merge? <;> rfl

end Target.Builder

namespace Target.UsesSlots

variable {code : List (List Instr)} {slots : List Slot}

private theorem start : UsesSlots [[]] [] where
  reserved i is h := by
    rw [List.mem_singleton.1 (List.mem_of_getElem? h)]
    simp
  stored := .nil
  taken := .nil
  takenAtOnce is h := by
    rw [List.mem_singleton.1 h]
    exact takenAtOnce_nil

private theorem eq_nil (h : UsesSlots [] slots) : slots = [] :=
  List.map_eq_nil_iff.1 (List.nil_perm.1 h.taken)

/-- A new block has nothing in it. -/
private theorem blank (h : UsesSlots code slots) : UsesSlots (code ++ [[]]) slots where
  reserved i is hi := by
    rcases Nat.lt_or_ge i code.length with hlt | hge
    · rw [List.getElem?_append_left hlt] at hi
      exact h.reserved i is hi
    · rw [List.getElem?_append_right hge] at hi
      rw [List.mem_singleton.1 (List.mem_of_getElem? hi)]
      by_cases hz : i = 0
      · -- the new block is the entry block only if there was no code, and then there are no slots
        have hnil : code = [] := List.length_eq_zero_iff.1 (by omega)
        rw [hnil] at h
        simp [h.eq_nil]
      · simp [hz]
  stored := by simpa using h.stored
  taken := by simpa using h.taken
  takenAtOnce is hmem := by
    rcases List.mem_append.1 hmem with hmem | hmem
    · exact h.takenAtOnce is hmem
    · rw [List.mem_singleton.1 hmem]
      exact takenAtOnce_nil

private theorem write {b : Builder} (h : UsesSlots b.code slots) (ho : b.isOpen) {c : Code}
    {more : List Slot} (hc : c.Fills more) (n : Nat) :
    UsesSlots (b.write c n).code (slots ++ more) where
  reserved i is hi := by
    rw [Builder.code_write, List.getElem?_mapIdx, Option.map_eq_some_iff] at hi
    obtain ⟨is, hi, rfl⟩ := hi
    rw [List.filterMap_append, h.reserved i is hi, hc.reserved]
    by_cases hz : i = 0 <;> simp [hz]
  stored := by
    have hperm := (Builder.perm_flatten_code_write c n ho).filterMap Instr.stored?
    rw [List.filterMap_append, hc.stored] at hperm
    rw [List.map_append]
    exact hperm.trans (h.stored.append_right _)
  taken := by
    have hperm := (Builder.perm_flatten_code_write c n ho).filterMap Instr.taken?
    rw [List.filterMap_append, hc.taken] at hperm
    rw [List.map_append]
    exact hperm.trans (h.taken.append_right _)
  takenAtOnce is hmem := by
    rw [Builder.code_write] at hmem
    obtain ⟨i, hi⟩ := List.mem_iff_getElem?.1 hmem
    rw [List.getElem?_mapIdx, Option.map_eq_some_iff] at hi
    obtain ⟨is, hi, rfl⟩ := hi
    exact (h.takenAtOnce is (List.mem_of_getElem? hi)).append (hc.takenAtOnce _ _)

end Target.UsesSlots

/-- The code fills slots with the texts, in order. -/
def Code.Holds (c : Code) (texts : List String) : Prop :=
  ∃ slots, c.Fills slots ∧ slots.map Slot.text = texts

/-- The builder has slots with the texts. -/
def Target.Builder.Holds (b : Builder) (texts : List String) : Prop :=
  ∃ slots, UsesSlots b.code slots ∧ slots.map Slot.text = texts

namespace Code.Holds

variable {c d : Code} {texts more : List String}

private theorem nil : Code.Holds [] [] :=
  ⟨[], .nil, rfl⟩

private theorem plain {i : Instr} (h : i.Plain) : Code.Holds [.instr i] [] :=
  ⟨[], .plain h .nil, rfl⟩

private theorem append (hc : c.Holds texts) (hd : d.Holds more) :
    (c ++ d).Holds (texts ++ more) := by
  obtain ⟨slots, hc, rfl⟩ := hc
  obtain ⟨slots', hd, rfl⟩ := hd
  exact ⟨slots ++ slots', hc.append hd, List.map_append⟩

/-- What follows without strings changes nothing. -/
private theorem append_nil (hc : c.Holds texts) (hd : d.Holds []) : (c ++ d).Holds texts := by
  simpa using hc.append hd

end Code.Holds

private theorem BinOp.plain_instr (op : BinOp) (x y : Operand) (r : Reg) :
    (op.instr x y r).Plain := by
  cases op <;> exact ⟨rfl, rfl, rfl⟩

private theorem Coerces.holds {w : Width} {source dest : Ty} {n n' : Nat} {x x' : Operand}
    {c : Code} (h : Coerces w source dest n x x' c n') : c.Holds [] := by
  cases h with
  | same _ => exact .nil
  | convert _ hc =>
    have hplain : ∀ {source dest : Target.Ty} {instr : Operand → Reg → Instr},
        source.conversion? dest = some instr → (instr x ⟨n⟩).Plain := by
      intro source dest instr h
      cases source <;> cases dest <;> cases h <;> exact ⟨rfl, rfl, rfl⟩
    exact .plain (hplain hc)

variable {f : Frame}

namespace Expr

mutual

/-- The code of a well-typed expression has a slot for each string in it. -/
private theorem Emits.holds {e : Expr τ} {ty : Ty} {n n' : Nat} {x : Operand} {c : Code} :
    e.Emits f n x c n' → e.HasType f.scope f.signature ty → c.Holds e.strings
  | .bool .., _ | .int .., _ | .var .., _ => .nil
  | .str _ _ _ v n, _ => ⟨[⟨⟨n⟩, v⟩], .slot ⟨⟨n⟩, v⟩ _ .nil, rfl⟩
  | .binary _ _ _ op _ _ hl hr hx hy, ht => by
    obtain ⟨a, b, hta, htb⟩ := ht.operands
    rw [strings_ascribed, strings_binary]
    apply (hl.holds hta).append
    apply (hr.holds htb).append_nil
    apply hx.holds.append_nil
    exact hy.holds.append_nil (.plain (op.plain_instr _ _ _))
  | .neg _ _ _ _ h, ht => (h.holds ht.negated).append_nil (.plain ⟨rfl, rfl, rfl⟩)
  | .call _ _ _ hs h _, ht => (h.holds (ht.argsFit hs)).append_nil (.plain ⟨rfl, rfl, rfl⟩)

private theorem EmitsArgs.holds {args : List (Expr τ)} {params : List Param} {n n' : Nat}
    {xs : List Operand} {c : Code} : EmitsArgs f args params n xs c n' →
    ArgsFit f.scope f.signature args params → c.Holds (stringsAll args)
  | .noArgs .., _ => .nil
  | .noParams .., hfit => nomatch hfit
  | .cons _ h hx rest, .cons ht _ _ hfit => by
    rw [stringsAll_cons]
    apply (h.holds ht).append
    simpa using hx.holds.append (rest.holds hfit)

end

private theorem EmitsEffect.holds {e : Expr τ} {ty : Ty} {n n' : Nat} {c : Code}
    (h : e.EmitsEffect f n c n') (ht : e.HasType f.scope f.signature ty) : c.Holds e.strings := by
  cases h with
  | value h => exact h.holds ht
  | voidCall _ _ _ hs h _ => exact (h.holds (ht.argsFit hs)).append_nil (.plain ⟨rfl, rfl, rfl⟩)

end Expr

namespace Target.Builder.Holds

variable {b b' : Builder} {texts more : List String}

private theorem of_code_eq (h : b.Holds texts) (hcode : b'.code = b.code) : b'.Holds texts := by
  unfold Holds
  rw [hcode]
  exact h

theorem start (n : Nat) : (Builder.start n).Holds [] :=
  ⟨[], .start, rfl⟩

private theorem write (h : b.Holds texts) (ho : b.isOpen) {c : Code} (hc : c.Holds more) (n : Nat) :
    (b.write c n).Holds (texts ++ more) := by
  obtain ⟨slots, h, rfl⟩ := h
  obtain ⟨slots', hc, rfl⟩ := hc
  exact ⟨slots ++ slots', h.write ho hc n, List.map_append⟩

private theorem add (h : b.Holds texts) (label : String) : (b.add label).Holds texts := by
  obtain ⟨slots, h, htexts⟩ := h
  exact ⟨slots, by simpa using h.blank, htexts⟩

private theorem close (h : b.Holds texts) (t : Terminator) : (b.close t).Holds texts :=
  h.of_code_eq (code_close b t)

private theorem moveTo (h : b.Holds texts) (id : BlockId) : (b.moveTo id).Holds texts :=
  h.of_code_eq rfl

theorem closeOpen (h : b.Holds texts) (t : Terminator) : (b.closeOpen t).Holds texts :=
  h.of_code_eq (code_closeOpen b t)

private theorem resume (h : b.Holds texts) (merge? : Option BlockId) :
    (b.resume merge?).Holds texts :=
  h.of_code_eq (code_resume b merge?)

private theorem proceed (h : b.Holds texts) (label : String) : (b.proceed label).Holds texts :=
  ((h.add label).close _).moveTo _

private theorem split (h : b.Holds texts) (x : Operand) (thn els : String) :
    (b.split x thn els).Holds texts :=
  (((h.add thn).add els).close _).moveTo _

private theorem joins {m m' : Option BlockId} (h : b.Holds texts) (hj : b.Joins m b' m') :
    b'.Holds texts := by
  cases hj with
  | closed _ => exact h
  | first _ => exact (h.add "merge").close _
  | again _ => exact h.close _

end Target.Builder.Holds

namespace Stmt

mutual

/-- Emission of a well-typed statement adds a slot for each string in its live statements. -/
private theorem Emitted.holds {st : Stmt τ} {b b' : Builder} {texts : List String} :
    st.Emitted f b b' →
    b.isOpen → st.WellTyped f.scope f.signature → b.Holds texts →
    b'.Holds (texts ++ st.live.flatMap strings)
  | .effect _ h, ho, .effect _ ht, hb => by
    simpa [live] using hb.write ho (h.holds ht) _
  | .bareRet _ _, _, _, hb => by
    simpa [live] using hb.close _
  | .voidRet _ _ h, ho, .ret _ ht _ _, hb => by
    simpa [live] using (hb.write ho (h.holds ht) _).close _
  | .ret _ _ _ h hc, ho, .ret _ ht _ _, hb => by
    simpa [live] using (hb.write ho ((h.holds ht).append_nil hc.holds) _).close _
  | @Emitted.branch _ _ _ _ _ _ _ _ _ _ _ _ _ x c n h hthn j₁ hels j₂, ho,
      .branch _ ht htthn htels, hb => by
    have htest := (hb.write ho (h.holds ht) n).split x "then" "else"
    have hthen := hthn.holds (Builder.isOpen_split _ _ _ (by simpa)) htthn htest
    have helse := hels.holds (hthn.blank_else j₁ ho).isOpen_moveTo htels ((hthen.joins j₁).moveTo _)
    simpa [live] using (helse.joins j₂).resume _
  | @Emitted.loop _ _ _ _ _ _ _ x c n h hbody, ho, .loop _ ht htbody, hb => by
    have ho' := Builder.isOpen_proceed "loop.header" ho
    have hheader := (hb.proceed "loop.header").write ho' (h.holds ht) n
    have htest := hheader.split x "loop.body" "loop.exit"
    have hloop := hbody.holds (Builder.isOpen_split _ _ _ (by simpa)) htbody htest
    simpa [live] using (hloop.closeOpen _).moveTo _

theorem EmittedAll.holds {sts : List (Stmt τ)} {b b' : Builder} {texts : List String} :
    EmittedAll f sts b b' → b.isOpen → AllWellTyped f.scope f.signature sts → b.Holds texts →
    b'.Holds (texts ++ (liveAll sts).flatMap strings)
  | .nil _, _, _, hb => by
    simpa [liveAll] using hb
  | .dead hf, ho, _, _ => by
    simp [ho] at hf
  | @EmittedAll.cons _ _ st sts _ b₁ _ _ hst hsts, ho, .cons ht hts, hb => by
    have hopen := hst.isOpen_eq ho
    have hb₁ := hst.holds ho ht hb
    rw [liveAll, List.flatMap_append, ← List.append_assoc]
    cases hc : st.closes with
    | true =>
      rw [hc] at hopen
      rw [hsts.eq_of_closed hopen]
      simpa using hb₁
    | false =>
      rw [hc] at hopen
      exact hsts.holds hopen hts hb₁

end

end Stmt

namespace Target

/-- The body has the slots `slots`, each of its own, and uses them for nothing but their texts. -/
structure Body.HasSlots (body : Body) (slots : List Slot) : Prop
    extends UsesSlots (body.blocks.map (·.instrs)) slots where
  distinct : (slots.map Slot.reg).Nodup

private theorem Reg.nodup_below (n : Nat) : (Reg.below n).Nodup :=
  List.nodup_range.map fun _ _ h => by cases h; rfl

private theorem sublist_written (is : List Instr) :
    ((is.filterMap Instr.reserved?).map Prod.fst).Sublist (written is) := by
  induction is with
  | nil => exact .slnil
  | cons i is ih =>
    cases hr : i.reserved? with
    | none =>
      rw [List.filterMap_cons_none hr, ← List.singleton_append, written_append]
      exact List.sublist_append_of_sublist_right ih
    | some slot =>
      cases i <;> cases hr
      exact ih.cons_cons _

/-- Where each register is written once, no two slots share one. -/
theorem Body.SingleAssignment.hasSlots {body : Body} {slots : List Slot} (h : body.SingleAssignment)
    (hslots : UsesSlots (body.blocks.map (·.instrs)) slots) : body.HasSlots slots := by
  refine ⟨hslots, ?_⟩
  obtain ⟨n, hperm⟩ := h.numbered
  have hnodup := (hperm.nodup_iff.2 (Reg.nodup_below n)).of_append_right
  cases hb : body.blocks with
  | nil =>
    rw [hb] at hslots
    rw [hslots.eq_nil]
    exact List.nodup_nil
  | cons entry rest =>
    rw [hb] at hslots hnodup
    rw [List.flatMap_cons] at hnodup
    have hregs : (entry.instrs.filterMap Instr.reserved?).map Prod.fst = slots.map Slot.reg := by
      rw [hslots.reserved 0 entry.instrs rfl, if_pos rfl, List.map_map]
      rfl
    rw [← hregs]
    exact hnodup.of_append_left.sublist (sublist_written entry.instrs)

end Target

/-- The body of each function has one slot for each string in a live statement, in their order. -/
theorem compile_hasSlots [Located τ] {lib : Library} {w : Width} {p : Program τ} {r : Compilation}
    (h : (compile lib w p).outcome = .ok r) :
    List.Forall₂ (fun f g => ∃ body slots, g.body? = some body ∧ body.HasSlots slots ∧
        slots.map Slot.text = (Stmt.liveAll f.body).flatMap Stmt.strings)
      (p.functions.filter (!·.isExternal)) r.module.definitions := by
  obtain ⟨_, _, hc⟩ := compile_eq_ok_iff.1 h
  refine hc.definitions.imp ?_
  rintro f g ⟨resolved, typed, b, blocks, hf, rfl⟩
  have hbuilds : ({ f with body := typed } : Func τ).Builds r.scope w b
      ⟨(f.frame r.scope w).args, blocks⟩ := ⟨hf.emitted, hf.finish, rfl⟩
  obtain ⟨slots, huses, htexts⟩ := (hf.emitted.holds (Builder.isOpen_start _) hf.wellTyped
    (.start _)).closeOpen f.signature.lastTerminator
  have hcode : blocks.map (·.instrs) = (b.closeOpen f.signature.lastTerminator).code :=
    Builder.map_of_finish (fun _ _ _ _ => rfl) hf.finish
  refine ⟨_, slots, rfl, hbuilds.singleAssignment.hasSlots ?_, ?_⟩
  · rw [hcode]
    exact huses
  · rw [htexts, List.nil_append, hf.live_strings_eq]

/-- Shows a text again and again, and once more in the end. Two more texts are never shown. -/
def greeting : Func Unit :=
  ⟨"f", false, ⟨[⟨.bool, "b"⟩], none⟩,
    [.loop () (.var () "b")
      [.branch () (.var () "b") [.effect () (.bareCall () "show" [.lit () (.str "é")])]
        [.ret () none, .effect () (.bareCall () "show" [.lit () (.str "late")])]],
     .effect () (.bareCall () "show" [.lit () (.str "é")]),
     .ret () none,
     .effect () (.bareCall () "show" [.lit () (.str "later")])]⟩

def greetingProgram : Program Unit :=
  ⟨.single "m",
    [.function () ⟨"show", true, ⟨[⟨.any, "x"⟩], none⟩, []⟩, .function () greeting]⟩

theorem compile_hasSlots_greeting :
    ∃ r, (compile Library.empty .w64 greetingProgram).outcome = .ok r ∧
      ∃ g body slots, r.module.definitions = [g] ∧ g.body? = some body ∧ body.HasSlots slots ∧
        slots.map Slot.text = ["é", "é"] := by
  obtain ⟨r, hr⟩ := Outcome.exists_eq_ok
    (x := (compile Library.empty .w64 greetingProgram).outcome) (by decide +kernel)
  have hslots := compile_hasSlots hr
  rw [show greetingProgram.functions.filter (!·.isExternal) = [greeting] from rfl,
    List.forall₂_cons_left_iff] at hslots
  obtain ⟨g, rest, ⟨body, slots, hbody, hbodySlots, htexts⟩, hrest, hdefs⟩ := hslots
  cases hrest
  exact ⟨r, hr, g, body, slots, hdefs, hbody, hbodySlots, htexts⟩

end BlockCompiler
