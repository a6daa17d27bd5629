import BlockCompiler.Proofs.Live
import BlockCompiler.Proofs.Meaning.Expressions
import BlockCompiler.Proofs.Stages

/-!
# Points of finished code

A builder on the way stands for a point of the finished code: the end of what it has written so far
to its current block. Running on from such a point follows the steps of the builder: code that it
writes is run, closing the block runs what was added to the entry block later and then follows the
terminator, and going on in an empty block is entering that block.
-/

namespace BlockCompiler

open Target

namespace Target.Builder

/-- The code that `B` has after the point where `b` stands, up to the end of the block. -/
def rest (b B : Builder) : List Instr × Terminator :=
  match b.current? with
  | none => ([], .unreachable)
  | some id =>
    match b.blocks[id.index]?, B.blocks[id.index]? with
    | some block, some done =>
      (done.instrs.drop block.instrs.length, done.terminator?.getD .unreachable)
    | _, _ => ([], .unreachable)

/-- `b` stands at the start of block `id`. -/
structure StandsAt (b : Builder) (id : BlockId) : Prop where
  current : b.current? = some id
  block : ∃ label, b.blocks[id.index]? = some ⟨label, [], none⟩

/-- `b` stands at the start of block `id`, which is not the entry. -/
structure Begins (b : Builder) (id : BlockId) : Prop extends b.StandsAt id where
  pos : 0 < id.index

/-- The instructions of the entry block. -/
def entry (b : Builder) : List Instr :=
  (b.blocks[0]?.map OpenBlock.instrs).getD []

/-- The code of `b` is part of that of `B`. To a block that is closed in `b`, only room for strings
is added. -/
def Within (b B : Builder) : Prop :=
  ∀ (i : Nat) (block : OpenBlock), b.blocks[i]? = some block →
    ∃ more t?, B.blocks[i]? = some ⟨block.label, block.instrs ++ more, t?⟩ ∧
      (block.terminator? ≠ none →
        t? = block.terminator? ∧ ∀ j ∈ more, i = 0 ∧ ∃ r length, j = .alloca r length)

variable {b b' B : Builder}

theorem Extends.within (h : b.Extends b') : b.Within b' := by
  intro i block hb
  obtain ⟨more, t?, hb', hkeep⟩ := h.keeps hb
  exact ⟨more, t?, hb', fun ht => hkeep (.inr ht)⟩

theorem Within.trans (h : b.Within b') (h' : b'.Within B) : b.Within B := by
  intro i block hb
  obtain ⟨more, t?, hb', hkeep⟩ := h i block hb
  obtain ⟨more', t?', hB, hkeep'⟩ := h' i _ hb'
  refine ⟨more ++ more', t?', by simpa using hB, ?_⟩
  intro ht
  obtain ⟨rfl, hmore⟩ := hkeep ht
  obtain ⟨rfl, hmore'⟩ := hkeep' ht
  refine ⟨rfl, ?_⟩
  intro j hj
  rcases List.mem_append.1 hj with hj | hj
  · exact hmore j hj
  · exact hmore' j hj

theorem within_moveTo (b : Builder) (id : BlockId) : b.Within (b.moveTo id) := by
  intro i block hb
  exact ⟨[], block.terminator?, by simpa using hb, by simp⟩

theorem within_resume (b : Builder) (merge? : Option BlockId) : b.Within (b.resume merge?) := by
  cases merge? with
  | none => exact (Extends.refl b).within
  | some id => exact within_moveTo b id

/-- The block where `b` stands is closed by `t` in `b'`, with no more code. -/
def Leaves (b : Builder) (t : Terminator) (b' : Builder) : Prop :=
  ∀ (i : Nat) (block : OpenBlock), b.isCurrent i → b.blocks[i]? = some block →
    b'.blocks[i]? = some { block with terminator? := some t }

theorem leaves_close (b : Builder) (t : Terminator) : b.Leaves t (b.close t) := by
  intro i block hi hb
  simp [getElem?_blocks_close, hb, hi]

theorem Leaves.of_add {label : String} {t : Terminator} (h : (b.add label).Leaves t b') :
    b.Leaves t b' := by
  intro i block hi hb
  have hlt : i < b.blocks.length := (List.getElem?_eq_some_iff.1 hb).1
  apply h i block hi
  rw [blocks_add, List.getElem?_append_left hlt, hb]

theorem leaves_proceed (b : Builder) (label : String) :
    b.Leaves (.jump ⟨b.blocks.length⟩) (b.proceed label) :=
  (leaves_close (b.add label) _).of_add

theorem leaves_split (b : Builder) (x : Operand) (thn els : String) :
    b.Leaves (.branch x ⟨b.blocks.length⟩ ⟨b.blocks.length + 1⟩) (b.split x thn els) :=
  (leaves_close ((b.add thn).add els) _).of_add.of_add

private theorem blocks_ne_nil (h : b.isOpen) : b.blocks ≠ [] := by
  obtain ⟨id, block, _, hb, _⟩ := isOpen_iff_exists.1 h
  intro he
  simp [he] at hb

theorem Begins.isOpen {id : BlockId} (h : b.Begins id) : b.isOpen := by
  obtain ⟨label, hb⟩ := h.block
  exact isOpen_iff_exists.2 ⟨id, _, h.current, hb, rfl⟩

theorem Begins.isCurrent_zero {id : BlockId} (h : b.Begins id) : b.isCurrent 0 = false := by
  have hpos := h.pos
  simp only [isCurrent, h.current, Option.some.injEq, decide_eq_false_iff_not]
  intro hid
  subst hid
  exact Nat.lt_irrefl 0 hpos

theorem Blank.begins {id : BlockId} (h : b.Blank id.index) : (b.moveTo id).Begins id :=
  ⟨⟨rfl, h.block⟩, h.pos⟩

theorem begins_proceed (label : String) (h : b.isOpen) :
    (b.proceed label).Begins ⟨b.blocks.length⟩ where
  current := rfl
  pos := List.length_pos_iff.2 (blocks_ne_nil h)
  block := by
    have hc := isCurrent_eq_false h (Nat.le_refl b.blocks.length)
    refine ⟨label, ?_⟩
    simp only [proceed, blocks_moveTo, getElem?_blocks_close, isCurrent_add, hc]
    simp

theorem begins_split (x : Operand) (thn els : String) (h : b.isOpen) :
    (b.split x thn els).Begins ⟨b.blocks.length⟩ where
  current := rfl
  pos := List.length_pos_iff.2 (blocks_ne_nil h)
  block := by
    have hc := isCurrent_eq_false h (Nat.le_refl b.blocks.length)
    refine ⟨thn, ?_⟩
    simp only [split, blocks_moveTo, getElem?_blocks_close, isCurrent_add, hc]
    simp

private theorem rest_eq {id : BlockId} {block : OpenBlock} {label : String} {is : List Instr}
    {t : Terminator} (hc : b.current? = some id) (hb : b.blocks[id.index]? = some block)
    (hB : B.blocks[id.index]? = some ⟨label, block.instrs ++ is, some t⟩) : b.rest B = (is, t) := by
  simp [rest, hc, hb, hB]

private theorem mem_entry_of_within {i : Instr} (h : b.Within B) (hi : i ∈ b.entry) :
    i ∈ B.entry := by
  unfold entry at hi ⊢
  cases hb : b.blocks[0]? with
  | none => simp [hb] at hi
  | some block =>
    obtain ⟨more, t?, hB, _⟩ := h 0 block hb
    simp only [hb, Option.map_some, Option.getD_some] at hi
    simp [hB, hi]

private theorem entry_write (b : Builder) (c : Code) (n : Nat) (hb : b.blocks ≠ []) :
    (b.write c n).entry = b.entry ++ c.inBlock (b.isCurrent 0) true := by
  obtain ⟨block, blocks, hb⟩ := List.exists_cons_of_ne_nil hb
  simp only [entry, getElem?_blocks_write]
  simp [hb, OpenBlock.appendAll]

end Target.Builder

namespace Exec

variable {w : Width} {P : Type} {α β : Type}

/-- What holds of every value the computation may yield. -/
def Post (Q : α → Prop) (x : Exec w P α) : Prop :=
  ∀ h₀ a h₁, x h₀ = .ok (a, h₁) → Q a

variable {Q : α → Prop} {Q' : β → Prop} {x : Exec w P α}

private theorem Post.pure {a : α} (h : Q a) : Post Q (Pure.pure a : Exec w P α) := by
  intro h₀ _ h₁ ha
  cases ha
  exact h

private theorem Post.stuck : Post Q (stuck : Exec w P α) := by
  intro h₀ a h₁ ha
  cases ha

private theorem Post.seq {f : α → Exec w P β} (hx : Post Q x) (hf : ∀ a, Q a → Post Q' (f a)) :
    Post Q' (x >>= f) := by
  intro h₀ b h₁ hb
  simp only [bind, StateT.bind] at hb
  cases hr : x h₀ with
  | error e =>
    rw [hr] at hb
    cases hb
  | ok r =>
    rw [hr] at hb
    exact hf r.1 (hx h₀ r.1 r.2 hr) r.2 b h₁ hb

private theorem Post.bind {f : α → Exec w P β} (hf : ∀ a, Post Q' (f a)) : Post Q' (x >>= f) :=
  Post.seq (Q := fun _ => True) (fun _ _ _ _ => trivial) fun a _ => hf a

end Exec

namespace Target

variable {w : Width} {P : Type} {m m' : Memory w P}

/-- `m'` has all memory that `m` has, and the slots that are reserved in `is`. -/
structure Memory.Reserves (is : List Instr) (m m' : Memory w P) : Prop where
  keeps : ∀ r, m.cells r ≠ none → m'.cells r ≠ none
  slots : ∀ r length, Instr.alloca r length ∈ is → m'.cells r ≠ none

theorem Memory.read_congr (h : m'.regs = m.regs) (x : Operand) : m'.read x = m.read x := by
  cases x with
  | reg r => simp only [read, h]
  | int | bool => rfl

variable [DecidableEq P]

/-- No instruction gives memory back. -/
private theorem Instr.reserves_of_exec (world : World w P) (m : Memory w P) (i : Instr) :
    Exec.Post (m.Reserves [i]) (i.exec world m) := by
  have hset : ∀ (r : Reg) (v : Value w P), (∀ r length, i ≠ .alloca r length) →
      m.Reserves [i] (m.set r v) := by
    intro r v hi
    refine ⟨fun r' hr => hr, ?_⟩
    intro r' length hr
    exact absurd (List.mem_singleton.1 hr).symm (hi r' length)
  cases i with
  | arith dest op lhs rhs =>
    exact .bind fun _ => .bind fun _ => .bind fun v => .pure (hset dest v (by simp))
  | compare dest op lhs rhs =>
    exact .bind fun _ => .bind fun _ => .bind fun v => .pure (hset dest v (by simp))
  | neg dest operand => exact .bind fun _ => .bind fun v => .pure (hset dest v (by simp))
  | call dest? callee args =>
    refine .bind fun _ => .bind fun v => ?_
    cases dest? with
    | none => exact .pure ⟨fun _ hr => hr, by simp⟩
    | some dest => exact .pure (hset dest v (by simp))
  | alloca dest length =>
    refine .pure ⟨(m.keeps_setCell 0 dest _).cells, ?_⟩
    intro r length' hr
    cases List.mem_singleton.1 hr
    simp
  | store ptr data =>
    exact .bind fun _ => .pure ⟨(m.keeps_setCell 0 ptr data).cells, by simp⟩
  | bitcast dest value => exact .bind fun _ => .pure (hset dest _ (by simp))
  | intToPtr dest value => exact .bind fun _ => .bind fun v => .pure (hset dest v (by simp))
  | ptrToInt dest value ty =>
    cases ty with
    | bool => exact .bind fun _ => .bind fun v => .pure (hset dest v (by simp))
    | int w' =>
      refine .bind fun _ => ?_
      split
      · exact .bind fun v => .pure (hset dest v (by simp))
      · exact .stuck
    | ptr | void => exact .stuck

private theorem execAll_reserves (world : World w P) (m : Memory w P) (is : List Instr) :
    Exec.Post (m.Reserves is) (execAll world m is) := by
  induction is generalizing m with
  | nil => exact .pure ⟨fun _ hr => hr, by simp⟩
  | cons i is ih =>
    refine (i.reserves_of_exec world m).seq ?_
    intro m₁ h₁ h₀ m₂ h₂ hexec
    have hrest := ih m₁ h₀ m₂ h₂ hexec
    refine ⟨fun r hr => hrest.keeps r (h₁.keeps r hr), ?_⟩
    intro r length hr
    rcases List.mem_cons.1 hr with hr | hr
    · exact hrest.keeps r (h₁.slots r length (List.mem_singleton.2 hr))
    · exact hrest.slots r length hr

/-- Instructions that only reserve memory do nothing else. -/
private theorem execAll_allocas (world : World w P) (m : Memory w P) (is : List Instr)
    (h : ∀ i ∈ is, ∃ r length, i = .alloca r length) :
    ∃ m', execAll world m is = pure m' ∧ m'.regs = m.regs := by
  induction is generalizing m with
  | nil => exact ⟨m, rfl, rfl⟩
  | cons i is ih =>
    obtain ⟨⟨r, length, rfl⟩, his⟩ := List.forall_mem_cons.1 h
    obtain ⟨m', hm', hregs⟩ := ih (m.setCell r (List.replicate length 0)) his
    refine ⟨m', ?_, hregs⟩
    rw [execAll, Instr.exec, pure_bind, hm']

/-- Runs the first instructions, and then the others. -/
private theorem complete_append (world : World w P)
    (next : BlockId → Memory w P → History w P → Option (History w P × Ending w P))
    (is js : List Instr) (t : Terminator) (m : Memory w P) (calls : History w P) :
    complete world next (is ++ js) t m calls =
      match execAll world m is calls with
      | .error (.trapped calls) => some (calls, .trapped)
      | .error .stuck => none
      | .ok (m, calls) => complete world next js t m calls := by
  unfold complete
  rw [execAll_append]
  simp only [bind, StateT.bind]
  cases execAll world m is calls with
  | error e => cases e <;> rfl
  | ok r => rfl

section AtTerminator

variable {next : BlockId → Memory w P → History w P → Option (History w P × Ending w P)}
  {x : Operand} {calls : History w P}

private theorem execAll_nil (world : World w P) (m : Memory w P) (calls : History w P) :
    execAll world m [] calls = .ok (m, calls) := rfl

theorem complete_branch (world : World w P) {v : Bool} (thn els : BlockId)
    (h : m.read x = some (.bool v)) :
    complete world next [] (.branch x thn els) m calls = next (if v then thn else els) m calls := by
  simp only [complete, execAll_nil, h]

theorem complete_branch_eq_none (world : World w P) (thn els : BlockId)
    (h : ∀ v, m.read x ≠ some (.bool v)) :
    complete world next [] (.branch x thn els) m calls = none := by
  simp only [complete, execAll_nil]

theorem complete_ret (world : World w P) {v : Value w P} (h : m.read x = some v) :
    complete world next [] (.ret (some x)) m calls = some (calls, .returned (some v)) := by
  simp only [complete, execAll_nil, h, Option.map_some]

end AtTerminator

/-- What running code comes to, given the computation `y` it stands for: it halts like `y`, or goes
on as `Q` says. -/
inductive Advance {α : Type} (y : Exec w P α) (h₀ : History w P)
    (here : Nat → Option (History w P × Ending w P)) (Q : α → History w P → Prop) : Prop where
  | ok {a : α} {h₁ : History w P} (hy : y h₀ = .ok (a, h₁)) (hq : Q a h₁)
  | trapped {h₁ : History w P} (hy : y h₀ = .error (.trapped h₁))
      (hrun : ∀ k, here k = some (h₁, .trapped))
  | stuck (hy : y h₀ = .error .stuck) (hrun : ∀ k, here k = none)

namespace Advance

variable {α : Type} {y : Exec w P α} {h₀ h₁ : History w P}
  {here : Nat → Option (History w P × Ending w P)} {Q Q' : α → History w P → Prop}

omit [DecidableEq P]

theorem imp (h : Advance y h₀ here Q) (hq : ∀ a h₁, Q a h₁ → Q' a h₁) : Advance y h₀ here Q' := by
  cases h with
  | ok hy hq' => exact .ok hy (hq _ _ hq')
  | trapped hy hrun => exact .trapped hy hrun
  | stuck hy hrun => exact .stuck hy hrun

theorem of_ok {a : α} (h : Advance y h₀ here Q) (ha : y h₀ = .ok (a, h₁)) : Q a h₁ := by
  cases h with
  | ok hy hq =>
    rw [ha] at hy
    cases hy
    exact hq
  | trapped hy _ | stuck hy _ =>
    rw [ha] at hy
    cases hy

theorem of_trapped (h : Advance y h₀ here Q) (ht : y h₀ = .error (.trapped h₁)) (k : Nat) :
    here k = some (h₁, .trapped) := by
  cases h with
  | trapped hy hrun =>
    rw [ht] at hy
    cases hy
    exact hrun k
  | ok hy _ | stuck hy _ =>
    rw [ht] at hy
    cases hy

/-- If the run ends, then `y` has not got stuck. -/
theorem of_run {n : Nat} {r : History w P × Ending w P} (h : Advance y h₀ here Q)
    (hr : here n = some r) :
    (∃ a h₁, y h₀ = .ok (a, h₁) ∧ Q a h₁) ∨ ∃ h₁, y h₀ = .error (.trapped h₁) ∧ r = (h₁, .trapped) := by
  cases h with
  | ok hy hq => exact .inl ⟨_, _, hy, hq⟩
  | trapped hy hrun =>
    rw [hrun n] at hr
    cases hr
    exact .inr ⟨_, hy, rfl⟩
  | stuck _ hrun =>
    rw [hrun n] at hr
    cases hr

end Advance

end Target

/-- A call of a function whose code is finished. -/
structure Invocation (f : Frame) (P : Type) where
  world : World f.width P
  args : List (Value f.width P)
  builder : Builder
  blocks : List Block
  length_args : args.length = f.signature.params.length
  params : ∀ param ∈ f.signature.params, param.ty ≠ .void
  finish : builder.finish = .ok blocks

namespace Invocation

variable {f : Frame} {P : Type} (x : Invocation f P)

def activation : Activation f.width P :=
  f.activation x.world x.args

private theorem find_block {id : BlockId} {label : String} {is : List Instr} {t : Terminator}
    (h : x.builder.blocks[id.index]? = some ⟨label, is, some t⟩) :
    x.blocks.find? (·.id = id) = some ⟨id, label, is, t⟩ := by
  obtain ⟨hlen, hall⟩ := Builder.finish_eq_ok_iff.1 x.finish
  obtain ⟨_, ht, hblock⟩ := hall _ _ h
  cases ht
  obtain ⟨hlt, heq⟩ := List.getElem?_eq_some_iff.1 hblock
  refine List.find?_eq_some_iff_getElem.2 ⟨by simp, id.index, hlt, heq, ?_⟩
  intro j hj
  have hjlt : j < x.builder.blocks.length := by omega
  obtain ⟨t', _, hblock'⟩ := hall j _ (List.getElem?_eq_getElem hjlt)
  obtain ⟨_, heq'⟩ := List.getElem?_eq_some_iff.1 hblock'
  have hne : (⟨j⟩ : BlockId) ≠ id := by
    intro he
    subst he
    simp at hj
  simpa [heq'] using hne

/-- Every point of an open builder lies in a block of the finished code. -/
private theorem exists_rest {b : Builder} (ho : b.isOpen) (he : b.Within x.builder) :
    ∃ id block is t, b.current? = some id ∧ b.blocks[id.index]? = some block ∧
      x.builder.blocks[id.index]? = some ⟨block.label, block.instrs ++ is, some t⟩ := by
  obtain ⟨id, block, hc, hb, _⟩ := Builder.isOpen_iff_exists.1 ho
  obtain ⟨more, t?, hB, _⟩ := he _ _ hb
  obtain ⟨t, ht, _⟩ := (Builder.finish_eq_ok_iff.1 x.finish).2 _ _ hB
  have ht : t? = some t := ht
  subst ht
  exact ⟨id, block, more, t, hc, hb, hB⟩

/-- Memory at a point away from the entry block: arguments are in place, and all slots are
reserved. -/
structure Settled (m : Memory f.width P) : Prop where
  holds : f.Holds x.args m
  reserved : ∀ r length, Instr.alloca r length ∈ x.builder.entry → m.cells r ≠ none

/-- Memory at the point where `b` stands. In the entry block, only the slots before that point are
reserved. -/
structure Ready (b : Builder) (m : Memory f.width P) : Prop where
  holds : f.Holds x.args m
  reserved : ∀ r length,
    Instr.alloca r length ∈ (if b.isCurrent 0 then b else x.builder).entry → m.cells r ≠ none

variable {x} {b : Builder} {m m' : Memory f.width P}

theorem Settled.ready (h : x.Settled m) (hc : b.isCurrent 0 = false) : x.Ready b m :=
  ⟨h.holds, by simpa [hc] using h.reserved⟩

/-- Code away from the entry block finds its slots reserved. -/
theorem Ready.reserved_code {c : Code} {n : Nat} (h : x.Ready b m) (ho : b.isOpen)
    (he : (b.write c n).Within x.builder) : c.Reserved (b.isCurrent 0) m := by
  intro hc r length hr
  apply h.reserved r length
  rw [hc, if_neg (by simp)]
  apply Builder.mem_entry_of_within he
  rw [Builder.entry_write b c n (Builder.blocks_ne_nil ho), hc]
  exact List.mem_append_right _ (List.mem_filterMap.2 ⟨_, hr, rfl⟩)

/-- What is left of a block begins with the code that the builder writes next. -/
private theorem rest_write {c : Code} {n : Nat} (ho : b.isOpen)
    (he : (b.write c n).Within x.builder) :
    b.rest x.builder = (c.inBlock true (b.isCurrent 0) ++ ((b.write c n).rest x.builder).1,
      ((b.write c n).rest x.builder).2) := by
  obtain ⟨id, block', is, t, hc, hb', hB⟩ := x.exists_rest (by simpa using ho) he
  have hid : b.current? = some id := hc
  have hcur : b.isCurrent id.index = true := by
    simp [Builder.isCurrent, hid]
  have hzero : decide (id.index = 0) = b.isCurrent 0 := by
    cases id
    simp [Builder.isCurrent, hid]
  rw [Builder.rest_eq hc hb' hB]
  rw [Builder.getElem?_blocks_write, Option.map_eq_some_iff] at hb'
  obtain ⟨block, hb, rfl⟩ := hb'
  rw [hcur, hzero] at hB
  have hB' : x.builder.blocks[id.index]? =
      some ⟨block.label, block.instrs ++ (c.inBlock true (b.isCurrent 0) ++ is), some t⟩ := by
    simpa [OpenBlock.appendAll] using hB
  exact Builder.rest_eq hid hb hB'

/-- What is left of a block that the builder leaves now is memory that is reserved later. -/
private theorem rest_leaves {b' : Builder} {t : Terminator} (ho : b.isOpen) (hl : b.Leaves t b')
    (he : b'.Within x.builder) :
    ∃ is, b.rest x.builder = (is, t) ∧ (∀ i ∈ is, ∃ r length, i = .alloca r length) ∧
      (b.isCurrent 0 = true → x.builder.entry = b.entry ++ is) := by
  obtain ⟨id, block, hc, hb, _⟩ := Builder.isOpen_iff_exists.1 ho
  have hcur : b.isCurrent id.index = true := by
    simp [Builder.isCurrent, hc]
  obtain ⟨is, t?, hB, hkeep⟩ := he _ _ (hl _ block hcur hb)
  obtain ⟨rfl, his⟩ := hkeep (by simp)
  refine ⟨is, Builder.rest_eq hc hb hB, fun i hi => (his i hi).2, ?_⟩
  intro hzero
  have hid : id = ⟨0⟩ := by
    simpa [Builder.isCurrent, hc] using hzero
  subst hid
  simp [Builder.entry, hb, hB]

variable [DecidableEq P]

private theorem Ready.write {c : Code} {n : Nat} {h₀ h₁ : History f.width P} (h : x.Ready b m)
    (ho : b.isOpen) (hn : f.signature.params.length ≤ b.nextReg) (hk : m.Keeps b.nextReg m')
    (hexec : execAll x.world m (c.inBlock true (b.isCurrent 0)) h₀ = .ok (m', h₁)) :
    x.Ready (b.write c n) m' where
  holds := h.holds.of_keeps hk hn
  reserved r length hr := by
    have hslots := execAll_reserves x.world m _ h₀ m' h₁ hexec
    have hold := h.reserved r length
    cases hc : b.isCurrent 0 with
    | false =>
      simp only [hc, Builder.isCurrent_write, Bool.false_eq_true, if_false] at hr hold
      exact hk.cells r (hold hr)
    | true =>
      simp only [hc, Builder.isCurrent_write, if_true] at hr hold hslots
      rw [Builder.entry_write b c n (Builder.blocks_ne_nil ho), hc] at hr
      rcases List.mem_append.1 hr with hr | hr
      · exact hk.cells r (hold hr)
      · exact hslots.slots r length hr

variable (x) in
/-- Runs on from the point where `b` stands, and then at most `k` more blocks. -/
def runAt (b : Builder) (k : Nat) (m : Memory f.width P) (calls : History f.width P) :
    Option (History f.width P × Ending f.width P) :=
  complete x.world (run x.world x.blocks k) (b.rest x.builder).1 (b.rest x.builder).2 m calls

/-- Leaving a block runs what is left of it and then follows the terminator. -/
theorem runAt_leaves {b' : Builder} {t : Terminator} (hm : x.Ready b m) (ho : b.isOpen)
    (hl : b.Leaves t b') (he : b'.Within x.builder) :
    ∃ m', x.Settled m' ∧ m'.regs = m.regs ∧ ∀ k calls,
      x.runAt b k m calls = complete x.world (run x.world x.blocks k) [] t m' calls := by
  obtain ⟨is, hrest, his, hentry⟩ := rest_leaves ho hl he
  obtain ⟨m', hexec, hregs⟩ := execAll_allocas x.world m is his
  have hslots := execAll_reserves x.world m is [] m' [] (by rw [hexec]; rfl)
  refine ⟨m', ⟨?_, ?_⟩, hregs, ?_⟩
  · intro r v hr
    rw [hregs]
    exact hm.holds r v hr
  · intro r length hr
    have hold := hm.reserved r length
    cases hc : b.isCurrent 0 with
    | false =>
      simp only [hc, Bool.false_eq_true, if_false] at hold
      exact hslots.keeps r (hold hr)
    | true =>
      simp only [hc, if_true] at hold
      rw [hentry hc] at hr
      rcases List.mem_append.1 hr with hr | hr
      · exact hslots.keeps r (hold hr)
      · exact hslots.slots r length hr
  · intro k calls
    simp only [runAt, hrest, complete, hexec, execAll]

/-- Entering a block is running on from its start. -/
theorem run_standsAt {id : BlockId} (hb : b.StandsAt id) (he : b.Within x.builder) (k : Nat)
    (m : Memory f.width P) (calls : History f.width P) :
    run x.world x.blocks (k + 1) id m calls = x.runAt b k m calls := by
  obtain ⟨hc, label, hb⟩ := hb
  obtain ⟨is, t?, hB, _⟩ := he _ _ hb
  obtain ⟨t, ht, _⟩ := (Builder.finish_eq_ok_iff.1 x.finish).2 _ _ hB
  have ht : t? = some t := ht
  subst ht
  rw [run, x.find_block hB, runAt, Builder.rest_eq hc hb hB]
  rfl

theorem Settled.begins {id : BlockId} (hm : x.Settled m) (hb : b.Begins id)
    (he : b.Within x.builder) :
    x.Ready b m ∧ ∀ k calls, run x.world x.blocks (k + 1) id m calls = x.runAt b k m calls :=
  ⟨hm.ready hb.isCurrent_zero, fun k calls => run_standsAt hb.toStandsAt he k m calls⟩

/-- Code that the builder writes is run, given that it computes what `y` does. -/
theorem advance_write {α : Type} {Q : α → Memory f.width P → Prop} {y : Exec f.width P α} {c : Code}
    {n : Nat} (hm : x.Ready b m) (ho : b.isOpen) (he : (b.write c n).Within x.builder)
    (hn : f.signature.params.length ≤ b.nextReg)
    (hrel : Exec.Rel (fun a m' => Q a m' ∧ m.Keeps b.nextReg m') y
      (execAll x.world m (c.inBlock true (b.isCurrent 0)))) (h₀ : History f.width P) :
    Advance y h₀ (fun k => x.runAt b k m h₀) fun a h₁ => ∃ m', Q a m' ∧ x.Ready (b.write c n) m' ∧
      ∀ k, x.runAt b k m h₀ = x.runAt (b.write c n) k m' h₁ := by
  have hrun : ∀ k, x.runAt b k m h₀ = complete x.world (run x.world x.blocks k)
      (c.inBlock true (b.isCurrent 0) ++ ((b.write c n).rest x.builder).1)
      ((b.write c n).rest x.builder).2 m h₀ := by
    intro k
    rw [runAt, rest_write ho he]
  simp only [complete_append] at hrun
  have hagree := hrel h₀
  cases hexec : execAll x.world m (c.inBlock true (b.isCurrent 0)) h₀ with
  | error e =>
    rw [hexec] at hagree
    simp only [hexec] at hrun
    generalize hy : y h₀ = r at hagree
    cases hagree with
    | error =>
      cases e with
      | trapped h₁ => exact .trapped hy hrun
      | stuck => exact .stuck hy hrun
  | ok r =>
    rw [hexec] at hagree
    simp only [hexec] at hrun
    generalize hy : y h₀ = r' at hagree
    cases hagree with
    | ok h₁ hq => exact .ok hy ⟨_, hq.1, hm.write ho hn hq.2 hexec, hrun⟩

end Invocation

end BlockCompiler
