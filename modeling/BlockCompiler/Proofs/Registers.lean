import BlockCompiler.Proofs.Straight

/-!
# Registers of straight-line code

Straight-line code takes registers in order. Each instruction writes the next register or none, and
it reads only arguments, registers that earlier instructions of the code have written, and the slots
the code has reserved.
-/

namespace BlockCompiler

open Target

namespace Target

/-- The registers below `n`. -/
def Reg.below (n : Nat) : List Reg :=
  (List.range n).map Reg.mk

theorem Reg.below_succ (n : Nat) : Reg.below (n + 1) = Reg.below n ++ [⟨n⟩] := by
  simp [below, List.range_succ]

def Operand.reg? : Operand → Option Reg
  | reg r => some r
  | int _ | bool _ => none

namespace Instr

/-- The register an instruction writes. -/
def dest? : Instr → Option Reg
  | arith dest _ _ _ | compare dest _ _ _ | neg dest _ | alloca dest _ | bitcast dest _
  | intToPtr dest _ | ptrToInt dest _ _ => some dest
  | call dest? _ _ => dest?
  | store _ _ => none

/-- The values an instruction works on. -/
def operands : Instr → List Operand
  | arith _ _ lhs rhs | compare _ _ lhs rhs => [lhs, rhs]
  | neg _ x | intToPtr _ x | ptrToInt _ x _ => [x]
  | call _ _ args => args
  | alloca _ _ | store _ _ | bitcast _ _ => []

/-- The slot whose memory an instruction writes or hands on. -/
def slot? : Instr → Option Reg
  | store ptr _ => some ptr
  | bitcast _ value => some value
  | _ => none

/-- The registers an instruction reads. -/
def reads (i : Instr) : List Reg :=
  i.operands.filterMap Operand.reg? ++ i.slot?.toList

end Instr

def Terminator.operands : Terminator → List Operand
  | branch test _ _ => [test]
  | ret value? => value?.toList
  | jump _ | unreachable => []

/-- The registers a terminator reads. -/
def Terminator.reads (t : Terminator) : List Reg :=
  t.operands.filterMap Operand.reg?

/-- The registers that instructions write, in order. -/
def written (is : List Instr) : List Reg :=
  is.filterMap Instr.dest?

theorem written_append (is js : List Instr) : written (is ++ js) = written is ++ written js :=
  List.filterMap_append

private theorem dest?_conversion {source dest : Ty} {instr : Operand → Reg → Instr}
    (h : source.conversion? dest = some instr) (x : Operand) (r : Reg) :
    (instr x r).dest? = some r ∧ (instr x r).operands = [x] ∧ (instr x r).slot? = none := by
  cases source <;> cases dest <;> cases h <;> exact ⟨rfl, rfl, rfl⟩

end Target

/-- The registers that the code writes where it stands. -/
def Code.written (c : Code) : List Reg :=
  Target.written (c.inBlock true false)

namespace Code

variable {args : List Reg} {n n' m : Nat} {c d : Code} {x : Operand} {i : Instr}

private theorem written_append (c d : Code) : written (c ++ d) = written c ++ written d := by
  simp only [written, inBlock_append, Target.written_append]

private theorem written_instr (i : Instr) : written [.instr i] = i.dest?.toList := by
  cases h : i.dest? <;> simp [written, Target.written, h]

theorem mem_written_inBlock (entry : Bool) {r : Reg} (h : r ∈ c.written) :
    r ∈ Target.written (c.inBlock true entry) := by
  obtain ⟨i, hi, hr⟩ := List.mem_filterMap.1 h
  obtain ⟨piece, hpiece, hp⟩ := List.mem_filterMap.1 hi
  refine List.mem_filterMap.2 ⟨i, List.mem_filterMap.2 ⟨piece, hpiece, ?_⟩, hr⟩
  cases piece with
  | instr j => exact hp
  | slot => simp [Piece.inBlock?] at hp

/-- The value is a constant, an argument or what the code has computed. -/
def Knows (args : List Reg) (c : Code) (x : Operand) : Prop :=
  ∀ r, x.reg? = some r → r ∈ args ∨ r ∈ c.written

private theorem Knows.append_right (h : Knows args c x) (d : Code) : Knows args (c ++ d) x := by
  intro r hr
  rw [written_append]
  exact (h r hr).imp_right (List.mem_append_left _)

private theorem Knows.append_left (h : Knows args d x) (c : Code) : Knows args (c ++ d) x := by
  intro r hr
  rw [written_append]
  exact (h r hr).imp_right (List.mem_append_right _)

private theorem knows_dest {r : Reg} (h : i.dest? = some r) (c : Code) :
    Knows args (c ++ [.instr i]) (.reg r) := by
  intro r' hr'
  cases hr'
  rw [written_append, written_instr, h]
  simp

/-- After the code, the instruction finds what it reads. -/
structure Feeds (args : List Reg) (c : Code) (i : Instr) : Prop where
  operands : ∀ x ∈ i.operands, Knows args c x
  slot : ∀ r, i.slot? = some r → ∃ length, Piece.slot r length ∈ c

private theorem Feeds.append_left (h : Feeds args d i) (c : Code) : Feeds args (c ++ d) i where
  operands x hx := (h.operands x hx).append_left c
  slot r hr := by
    obtain ⟨length, hmem⟩ := h.slot r hr
    exact ⟨length, List.mem_append_right _ hmem⟩

/-- `Ordered args n c n'`: the code takes the registers from `n` up to `n'` in order, and every
instruction finds what it reads. -/
inductive Ordered (args : List Reg) (n : Nat) : Code → Nat → Prop where
  | nil : Ordered args n [] n
  | slot {c : Code} {m : Nat} (h : Ordered args n c m) (length : Nat) :
      Ordered args n (c ++ [.slot ⟨m⟩ length]) (m + 1)
  | define {c : Code} {m : Nat} {i : Instr} (h : Ordered args n c m) (hd : i.dest? = some ⟨m⟩)
      (hi : Feeds args c i) : Ordered args n (c ++ [.instr i]) (m + 1)
  | perform {c : Code} {m : Nat} {i : Instr} (h : Ordered args n c m) (hd : i.dest? = none)
      (hi : Feeds args c i) : Ordered args n (c ++ [.instr i]) m

private theorem Ordered.append (h : Ordered args n c m) (h' : Ordered args m d n') :
    Ordered args n (c ++ d) n' := by
  induction h' with
  | nil => simpa using h
  | slot _ length ih =>
    rw [← List.append_assoc]
    exact .slot ih length
  | define _ hd hi ih =>
    rw [← List.append_assoc]
    exact .define ih hd (hi.append_left c)
  | perform _ hd hi ih =>
    rw [← List.append_assoc]
    exact .perform ih hd (hi.append_left c)

private theorem Ordered.operation {y : Operand} (op : BinOp) (h : Ordered args n c m)
    (hx : Knows args c x) (hy : Knows args c y) :
    Ordered args n (c ++ [.instr (op.instr x y ⟨m⟩)]) (m + 1) ∧
      Knows args (c ++ [.instr (op.instr x y ⟨m⟩)]) (.reg ⟨m⟩) := by
  have hops := List.forall_mem_cons.2 ⟨hx, List.forall_mem_singleton.2 hy⟩
  cases op with
  | arith | compare => exact ⟨.define h rfl ⟨hops, nofun⟩, knows_dest rfl c⟩

end Code

/-- A conversion reads the value it converts. -/
theorem Coerces.ordered {args : List Reg} {w : Width} {source dest : Ty} {n m m' : Nat}
    {x x' : Operand} {c c' : Code} (h : Coerces w source dest m x x' c' m')
    (hc : c.Ordered args n m) (hx : c.Knows args x) :
    (c ++ c').Ordered args n m' ∧ (c ++ c').Knows args x' := by
  cases h with
  | same _ => simpa using ⟨hc, hx⟩
  | convert _ hinstr =>
    obtain ⟨hd, hops, hslot⟩ := dest?_conversion hinstr x ⟨m⟩
    refine ⟨.define hc hd ⟨?_, ?_⟩, Code.knows_dest hd c⟩
    · simpa [hops] using hx
    · simp [hslot]

variable {τ : Type} {f : Frame}

private theorem Frame.mem_args_of_register? {name : String} {r : Reg}
    (h : f.register? name = some r) :
    r ∈ f.args := by
  obtain ⟨entry, hentry, rfl⟩ := Option.map_eq_some_iff.1 h
  exact (List.of_mem_zip (List.mem_reverse.1 (List.mem_of_find?_eq_some hentry))).2

namespace Expr

mutual

/-- The code of an expression is in order, and its value is known after it. -/
theorem Emits.ordered {e : Expr τ} {n n' : Nat} {x : Operand} {c : Code} :
    e.Emits f n x c n' → c.Ordered f.args n n' ∧ c.Knows f.args x
  | .bool .. | .int .. => ⟨.nil, nofun⟩
  | .str _ _ _ v n => by
    have hslot : Code.Ordered f.args n [.slot ⟨n⟩ (stringData v).length] (n + 1) := .slot .nil _
    have hstore := hslot.perform (i := .store ⟨n⟩ (stringData v)) rfl
      ⟨nofun, fun r hr => ⟨_, List.mem_singleton.2 (by cases hr; rfl)⟩⟩
    have hcast := hstore.define (i := .bitcast ⟨n + 1⟩ ⟨n⟩) rfl
      ⟨nofun, fun r hr => ⟨_, List.mem_cons.2 (.inl (by cases hr; rfl))⟩⟩
    exact ⟨hcast, Code.knows_dest rfl [.slot ⟨n⟩ _, .instr (.store ⟨n⟩ _)]⟩
  | .var _ _ _ _ hr => by
    refine ⟨.nil, ?_⟩
    intro r hx
    cases hx
    exact .inl (Frame.mem_args_of_register? hr)
  | .neg _ _ _ _ h => by
    obtain ⟨hc, hx⟩ := h.ordered
    exact ⟨hc.define rfl ⟨by simpa [Instr.operands] using hx, nofun⟩, Code.knows_dest rfl _⟩
  | .binary _ _ _ op _ _ hl hr hx hy => by
    obtain ⟨hc₁, hx₁⟩ := hl.ordered
    obtain ⟨hc₂, hy₁⟩ := hr.ordered
    obtain ⟨hc₃, hx₂⟩ := hx.ordered (hc₁.append hc₂) (hx₁.append_right _)
    obtain ⟨hc₄, hy₂⟩ := hy.ordered hc₃ ((hy₁.append_left _).append_right _)
    simp only [← List.append_assoc]
    exact hc₄.operation op (hx₂.append_right _) hy₂
  | .call _ _ _ _ h _ => by
    obtain ⟨hc, hxs⟩ := h.ordered
    exact ⟨hc.define rfl ⟨hxs, nofun⟩, Code.knows_dest rfl _⟩

private theorem EmitsArgs.ordered {args : List (Expr τ)} {params : List Param} {n n' : Nat}
    {xs : List Operand} {c : Code} : EmitsArgs f args params n xs c n' →
    c.Ordered f.args n n' ∧ ∀ x ∈ xs, c.Knows f.args x
  | .noArgs .. | .noParams .. => ⟨.nil, nofun⟩
  | .cons _ h hx rest => by
    obtain ⟨hc₁, hx₁⟩ := h.ordered
    obtain ⟨hc₂, hx₂⟩ := hx.ordered hc₁ hx₁
    obtain ⟨hc₃, hxs⟩ := rest.ordered
    rw [← List.append_assoc]
    refine ⟨hc₂.append hc₃, ?_⟩
    intro x hmem
    rcases List.mem_cons.1 hmem with rfl | hmem
    · exact hx₂.append_right _
    · exact (hxs x hmem).append_left _

end

theorem EmitsEffect.ordered {e : Expr τ} {n n' : Nat} {c : Code} (h : e.EmitsEffect f n c n') :
    c.Ordered f.args n n' := by
  cases h with
  | value h => exact h.ordered.1
  | voidCall _ _ _ _ h _ =>
    obtain ⟨hc, hxs⟩ := h.ordered
    exact hc.perform rfl ⟨hxs, nofun⟩

end Expr

end BlockCompiler
