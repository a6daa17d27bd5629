import BlockCompiler.Proofs.Registers
import BlockCompiler.Proofs.Stages

/-!
# Single assignment

In an emitted body each register is written once, by the entry of the function or by one
instruction, and the registers in use are the first ones. A register is read only after it has been
written in the same block. Slots are the exception: they are reserved in the entry block, and used
wherever their string stands.
-/

namespace BlockCompiler

open Target

namespace Target

/-- What each instruction reads is an argument, is written before it, or is a slot in `S`. -/
def ReadsWritten (args : List Reg) (S : Reg → Prop) (is : List Instr) : Prop :=
  ∀ (j : Nat) (i : Instr), is[j]? = some i → ∀ r ∈ i.reads,
    r ∈ args ∨ r ∈ written (is.take j) ∨ i.slot? = some r ∧ S r

/-- The entry block reserves memory for `r`. -/
def Body.Reserves (body : Body) (r : Reg) : Prop :=
  ∃ entry length, body.blocks[0]? = some entry ∧ Instr.alloca r length ∈ entry.instrs

/-- The registers are numbered without gaps, each is written once, and each is read only where it has
been written. -/
structure Body.SingleAssignment (body : Body) : Prop where
  numbered : ∃ n, (body.args ++ body.blocks.flatMap (written ·.instrs)).Perm (Reg.below n)
  instrs : ∀ block ∈ body.blocks, ReadsWritten body.args body.Reserves block.instrs
  terminators : ∀ block ∈ body.blocks, ∀ r ∈ block.terminator.reads,
    r ∈ body.args ∨ r ∈ written block.instrs

section ReadsWritten

variable {args : List Reg} {S S' : Reg → Prop} {is : List Instr}

private theorem ReadsWritten.imp (h : ReadsWritten args S is) (hS : ∀ r, S r → S' r) :
    ReadsWritten args S' is := by
  intro j i hj r hr
  exact (h j i hj r hr).imp_right (Or.imp_right (And.imp_right (hS r)))

private theorem ReadsWritten.concat {i : Instr} (h : ReadsWritten args S is)
    (hi : ∀ r ∈ i.reads, r ∈ args ∨ r ∈ written is ∨ i.slot? = some r ∧ S r) :
    ReadsWritten args S (is ++ [i]) := by
  intro j k hj r hr
  rcases Nat.lt_trichotomy j is.length with hlt | rfl | hgt
  · rw [List.getElem?_append_left hlt] at hj
    rw [List.take_append_of_le_length (Nat.le_of_lt hlt)]
    exact h j k hj r hr
  · rw [List.getElem?_concat_length, Option.some.injEq] at hj
    subst hj
    rw [List.take_left]
    exact hi r hr
  · rw [List.getElem?_eq_none (by simpa [Nat.succ_le_iff] using hgt)] at hj
    cases hj

end ReadsWritten

/-- To add at one place is, up to order, to add at the end. -/
theorem perm_flatMap_modify {α β : Type} {g : α → List β} {f : α → α} {more : List β}
    (hf : ∀ a, g (f a) = g a ++ more) : ∀ {l : List α} {k : Nat}, k < l.length →
    ((l.modify k f).flatMap g).Perm (l.flatMap g ++ more)
  | a :: l, 0, _ => by
    simp only [List.modify_zero_cons, List.flatMap_cons, hf, List.append_assoc]
    exact List.perm_append_comm.append_left _
  | a :: l, k + 1, hk => by
    simp only [List.modify_succ_cons, List.flatMap_cons, List.append_assoc]
    exact (perm_flatMap_modify hf (Nat.lt_of_succ_lt_succ hk)).append_left _

private theorem OpenBlock.written_append (block : OpenBlock) (i : Instr) :
    written (block.append i).instrs = written block.instrs ++ i.dest?.toList := by
  rw [OpenBlock.append, Target.written_append]
  cases hd : i.dest? <;> simp [written, hd]

namespace Builder

/-- The entry block reserves memory for `r`. -/
def Reserves (b : Builder) (r : Reg) : Prop :=
  ∃ entry length, b.blocks[0]? = some entry ∧ Instr.alloca r length ∈ entry.instrs

/-- The value is a constant, an argument or what the current block has computed. -/
def Knows (args : List Reg) (b : Builder) (x : Operand) : Prop :=
  ∀ r, x.reg? = some r → r ∈ args ∨
    ∃ (i : Nat) (block : OpenBlock), b.isCurrent i ∧ b.blocks[i]? = some block ∧
      r ∈ written block.instrs

/-- Each register below the next one is written once, and each is read only where it has been
written. -/
structure SingleAssignment (args : List Reg) (b : Builder) : Prop where
  numbered : (args ++ b.blocks.flatMap (written ·.instrs)).Perm (Reg.below b.nextReg)
  instrs : ∀ (i : Nat) (block : OpenBlock), b.blocks[i]? = some block →
    ReadsWritten args b.Reserves block.instrs
  terminators : ∀ (i : Nat) (block : OpenBlock), b.blocks[i]? = some block →
    ∀ t, block.terminator? = some t → ∀ r ∈ t.reads, r ∈ args ∨ r ∈ written block.instrs

variable {args : List Reg} {b b' : Builder} {x : Operand} {c : Code}

section OneInstr

variable {k : Nat} {i : Instr} (hb : b'.blocks = b.blocks.modify k (·.append i))
include hb

private theorem getElem?_modify_append {j : Nat} {block block' : OpenBlock}
    (hk : b.blocks[k]? = some block) (hj : b'.blocks[j]? = some block') :
    b.blocks[j]? = some block' ∨ block' = block.append i := by
  rw [hb, List.getElem?_modify] at hj
  by_cases hkj : k = j
  · subst hkj
    simp only [hk, if_true, Option.map_eq_map, Option.map_some, Option.some.injEq] at hj
    exact .inr hj.symm
  · simp only [hkj, if_false] at hj
    exact .inl (by simpa using hj)

private theorem Reserves.modify_append {r : Reg} (h : b.Reserves r) : b'.Reserves r := by
  obtain ⟨entry, length, he, hmem⟩ := h
  refine ⟨_, length, by rw [hb, List.getElem?_modify, he, Option.map_eq_map, Option.map_some], ?_⟩
  split
  · exact List.mem_append_left _ hmem
  · exact hmem

end OneInstr

private theorem reserves_write {r : Reg} {length n : Nat} (ho : b.isOpen)
    (h : Piece.slot r length ∈ c) :
    (b.write c n).Reserves r := by
  have hb := List.getElem?_eq_getElem (length_pos_of_isOpen ho)
  refine ⟨_, length, by rw [getElem?_blocks_write, hb, Option.map_some], ?_⟩
  exact List.mem_append_right _ (List.mem_filterMap.2 ⟨_, h, by simp [Piece.inBlock?]⟩)

private theorem knows_write (ho : b.isOpen) (h : c.Knows args x) (n : Nat) :
    (b.write c n).Knows args x := by
  intro r hr
  obtain ⟨id, block, hc, hb, _⟩ := isOpen_iff_exists.1 ho
  have hcur : b.isCurrent id.index := by simp [isCurrent, hc]
  refine (h r hr).imp_right fun hw => ?_
  refine ⟨id.index, _, hcur, by rw [getElem?_blocks_write, hb, Option.map_some], ?_⟩
  rw [OpenBlock.appendAll, written_append, hcur]
  exact List.mem_append_right _ (Code.mem_written_inBlock _ hw)

private theorem Knows.add (label : String) (h : b.Knows args x) : (b.add label).Knows args x := by
  intro r hr
  refine (h r hr).imp_right fun hw => ?_
  obtain ⟨i, block, hc, hb, hmem⟩ := hw
  have hlt : i < b.blocks.length := (List.getElem?_eq_some_iff.1 hb).1
  exact ⟨i, block, by simpa, by rw [blocks_add, List.getElem?_append_left hlt, hb], hmem⟩

/-- The current block is the only one that `Knows` can speak of. -/
private theorem Knows.mem_written {i : Nat} {block : OpenBlock} {r : Reg} (h : b.Knows args x)
    (hc : b.isCurrent i) (hb : b.blocks[i]? = some block) (hr : x.reg? = some r) :
    r ∈ args ∨ r ∈ written block.instrs := by
  refine (h r hr).imp_right fun hw => ?_
  obtain ⟨j, block', hc', hb', hmem⟩ := hw
  have hj : j = i := by
    have hi : b.current? = some ⟨i⟩ := by simpa [isCurrent] using hc
    have hj : b.current? = some ⟨j⟩ := by simpa [isCurrent] using hc'
    simpa [hi, eq_comm] using hj
  subst hj
  rw [hb] at hb'
  cases hb'
  exact hmem

theorem map_instrs_close (b : Builder) (t : Terminator) :
    (b.close t).blocks.map (·.instrs) = b.blocks.map (·.instrs) := by
  refine List.ext_getElem? fun i => ?_
  simp only [List.getElem?_map, getElem?_blocks_close, Option.map_map]
  congr 1
  funext block
  cases hc : b.isCurrent i <;> simp

private theorem singleAssignment_start (n : Nat) : (start n).SingleAssignment (Reg.below n) := by
  have hblock : ∀ (i : Nat) (block : OpenBlock), (start n).blocks[i]? = some block →
      block = ⟨"entry", [], none⟩ :=
    fun i block hb => List.mem_singleton.1 (List.mem_of_getElem? hb)
  refine ⟨by simp [start, written], ?_, ?_⟩
  · intro i block hb
    rw [hblock i block hb]
    simp [ReadsWritten]
  · intro i block hb
    rw [hblock i block hb]
    simp

namespace SingleAssignment

/-- One more instruction, at the end of block `k`, which writes the next register or none. -/
private theorem append {k : Nat} {block : OpenBlock} {i : Instr} (h : b.SingleAssignment args)
    (hk : b.blocks[k]? = some block) (hb : b'.blocks = b.blocks.modify k (·.append i))
    (hn : Reg.below b'.nextReg = Reg.below b.nextReg ++ i.dest?.toList)
    (hi : ∀ r ∈ i.reads, r ∈ args ∨ r ∈ written block.instrs ∨ i.slot? = some r ∧ b.Reserves r) :
    b'.SingleAssignment args := by
  refine ⟨?_, ?_, ?_⟩
  · have hperm := perm_flatMap_modify (g := fun block => written block.instrs)
      (fun block => block.written_append i) (List.getElem?_eq_some_iff.1 hk).1
    rw [hb, hn]
    refine (hperm.append_left args).trans ?_
    rw [← List.append_assoc]
    exact h.numbered.append_right _
  · intro j block' hj
    rcases getElem?_modify_append hb hk hj with hj | rfl
    · exact (h.instrs j block' hj).imp fun r hr => hr.modify_append hb
    · exact ((h.instrs k block hk).concat hi).imp fun r hr => hr.modify_append hb
  · intro j block' hj t ht r hr
    rcases getElem?_modify_append hb hk hj with hj | rfl
    · exact h.terminators j block' hj t ht r hr
    · rw [block.written_append]
      exact (h.terminators k block hk t ht r hr).imp_right (List.mem_append_left _)

/-- One more instruction of the code, where the code before it feeds it. -/
private theorem append_instr {i : Instr} {n m : Nat} (h : (b.write c n).SingleAssignment args)
    (ho : b.isOpen) (hi : c.Feeds args i) (hm : Reg.below m = Reg.below n ++ i.dest?.toList) :
    (b.write (c ++ [.instr i]) m).SingleAssignment args := by
  rw [← write_write b c _ n]
  have ho' : (b.write c n).isOpen := by simpa
  obtain ⟨id, block, hc, hb, _⟩ := isOpen_iff_exists.1 ho'
  refine h.append hb (blocks_write_instr hc i m) hm ?_
  intro r hr
  rcases List.mem_append.1 hr with hr | hr
  · obtain ⟨x, hx, hxr⟩ := List.mem_filterMap.1 hr
    have hcur : (b.write c n).isCurrent id.index := decide_eq_true hc
    exact ((knows_write ho (hi.operands x hx) n).mem_written hcur hb hxr).imp_right .inl
  · have hslot : i.slot? = some r := by simpa using hr
    obtain ⟨length, hmem⟩ := hi.slot r hslot
    exact .inr (.inr ⟨hslot, reserves_write ho hmem⟩)

private theorem write {n : Nat} (h : b.SingleAssignment args) (ho : b.isOpen)
    (hc : c.Ordered args b.nextReg n) : (b.write c n).SingleAssignment args := by
  induction hc with
  | nil => simpa using h
  | @slot c m _ length ih =>
    rw [← write_write b c _ m]
    have hpos : 0 < (b.write c m).blocks.length := length_pos_of_isOpen (by simpa)
    refine ih.append (List.getElem?_eq_getElem hpos) (blocks_write_slot ..) (Reg.below_succ m) ?_
    simp [Instr.reads, Instr.operands, Instr.slot?]
  | @define _ m i _ hd hi ih => exact ih.append_instr ho hi (by rw [hd, Reg.below_succ]; rfl)
  | @perform _ m i _ hd hi ih => exact ih.append_instr ho hi (by simp [hd])

private theorem add (label : String) (h : b.SingleAssignment args) :
    (b.add label).SingleAssignment args := by
  have hreserves : ∀ r, b.Reserves r → (b.add label).Reserves r := by
    intro r hr
    obtain ⟨entry, length, he, hmem⟩ := hr
    have hlt : 0 < b.blocks.length := (List.getElem?_eq_some_iff.1 he).1
    exact ⟨entry, length, by rw [blocks_add, List.getElem?_append_left hlt, he], hmem⟩
  refine ⟨by simpa [written] using h.numbered, ?_, ?_⟩
  · intro i block hb
    rcases getElem?_blocks_add hb with hb | rfl
    · exact (h.instrs i block hb).imp hreserves
    · simp [ReadsWritten]
  · intro i block hb
    rcases getElem?_blocks_add hb with hb | rfl
    · exact h.terminators i block hb
    · simp

private theorem close {t : Terminator} (h : b.SingleAssignment args)
    (ht : ∀ x ∈ t.operands, b.Knows args x) : (b.close t).SingleAssignment args := by
  have hreserves : ∀ r, b.Reserves r → (b.close t).Reserves r := by
    intro r hr
    obtain ⟨entry, length, he, hmem⟩ := hr
    refine ⟨_, length, by rw [getElem?_blocks_close, he, Option.map_some], ?_⟩
    split <;> exact hmem
  refine ⟨?_, ?_, ?_⟩
  · rw [nextReg_close, ← List.flatMap_map, map_instrs_close, List.flatMap_map]
    exact h.numbered
  · intro i block hb
    rw [getElem?_blocks_close, Option.map_eq_some_iff] at hb
    obtain ⟨block, hb, rfl⟩ := hb
    have hinstrs := (h.instrs i block hb).imp hreserves
    split <;> exact hinstrs
  · intro i block hb t' ht' r hr
    rw [getElem?_blocks_close, Option.map_eq_some_iff] at hb
    obtain ⟨block, hb, rfl⟩ := hb
    cases hc : b.isCurrent i with
    | false =>
      simp only [hc] at ht' ⊢
      exact h.terminators i block hb t' ht' r hr
    | true =>
      simp only [hc, if_true, Option.some.injEq] at ht' ⊢
      subst ht'
      obtain ⟨x, hx, hxr⟩ := List.mem_filterMap.1 hr
      exact (ht x hx).mem_written hc hb hxr

private theorem closeOpen {t : Terminator} (h : b.SingleAssignment args) (ht : t.operands = []) :
    (b.closeOpen t).SingleAssignment args := by
  unfold Builder.closeOpen
  split
  · exact h.close (by simp [ht])
  · exact h

private theorem moveTo (id : BlockId) (h : b.SingleAssignment args) :
    (b.moveTo id).SingleAssignment args :=
  ⟨h.numbered, h.instrs, h.terminators⟩

private theorem resume (m : Option BlockId) (h : b.SingleAssignment args) :
    (b.resume m).SingleAssignment args := by
  cases m with
  | none => exact h
  | some id => exact h.moveTo id

private theorem proceed (label : String) (h : b.SingleAssignment args) :
    (b.proceed label).SingleAssignment args :=
  ((h.add label).close (by simp [Terminator.operands])).moveTo _

private theorem split (thn els : String) (h : b.SingleAssignment args) (hx : b.Knows args x) :
    (b.split x thn els).SingleAssignment args :=
  (((h.add thn).add els).close
    (by simpa [Terminator.operands] using (hx.add thn).add els)).moveTo _

private theorem joins {m m' : Option BlockId} (h : b.SingleAssignment args) (hj : b.Joins m b' m') :
    b'.SingleAssignment args := by
  cases hj with
  | closed _ => exact h
  | first _ => exact (h.add "merge").close nofun
  | again _ => exact h.close nofun

end SingleAssignment

end Builder

end Target

variable {τ : Type} {f : Frame}

namespace Stmt

mutual

private theorem Emitted.singleAssignment {st : Stmt τ} {b b' : Builder} :
    st.Emitted f b b' → b.isOpen →
    b.SingleAssignment f.args → b'.SingleAssignment f.args
  | .effect _ h, ho, hb => hb.write ho h.ordered
  | .bareRet .., _, hb => hb.close nofun
  | .voidRet _ _ h, ho, hb => (hb.write ho h.ordered).close nofun
  | .ret _ _ _ h hcoerce, ho, hb => by
    obtain ⟨hc, hx⟩ := h.ordered
    obtain ⟨hc', hx'⟩ := hcoerce.ordered hc hx
    exact (hb.write ho hc').close (List.forall_mem_singleton.2 (Builder.knows_write ho hx' _))
  | .branch (n := n) _ h hthn j₁ hels j₂, ho, hb => by
    obtain ⟨hc, hx⟩ := h.ordered
    have hsplit := (hb.write ho hc).split "then" "else" (Builder.knows_write ho hx n)
    have hthen := (hthn.singleAssignment hsplit).joins j₁
    exact ((hels.singleAssignment (hthen.moveTo _)).joins j₂).resume _
  | .loop (n := n) _ h hbody, ho, hb => by
    obtain ⟨hc, hx⟩ := h.ordered
    have ho' := Builder.isOpen_proceed "loop.header" ho
    have hheader := (hb.proceed "loop.header").write ho' (by simpa using hc)
    have hsplit := hheader.split "loop.body" "loop.exit" (Builder.knows_write ho' hx n)
    exact ((hbody.singleAssignment hsplit).closeOpen rfl).moveTo _

private theorem EmittedAll.singleAssignment {sts : List (Stmt τ)} {b b' : Builder} :
    EmittedAll f sts b b' → b.SingleAssignment f.args → b'.SingleAssignment f.args
  | .nil _, hb => hb
  | .dead _, hb => hb
  | .cons ho hst hsts, hb => hsts.singleAssignment (hst.singleAssignment ho hb)

end

end Stmt

private theorem Signature.operands_lastTerminator (sig : Signature) :
    sig.lastTerminator.operands = [] := by
  unfold lastTerminator
  split <;> rfl

/-- Finished blocks are written and read as they were in the builder. -/
private theorem Target.Builder.SingleAssignment.finish {b : Builder} {body : Body}
    (h : b.SingleAssignment body.args) (hf : b.finish = .ok body.blocks) :
    body.SingleAssignment := by
  obtain ⟨hlen, hall⟩ := Builder.finish_eq_ok_iff.1 hf
  have hinstrs : body.blocks.map (·.instrs) = b.blocks.map (·.instrs) := by
    refine List.ext_getElem? fun i => ?_
    rw [List.getElem?_map, List.getElem?_map]
    cases hb : b.blocks[i]? with
    | none => rw [List.getElem?_eq_none (hlen ▸ List.getElem?_eq_none_iff.1 hb)]; rfl
    | some block =>
      obtain ⟨_, _, hdone⟩ := hall i block hb
      rw [hdone]
      rfl
  have hreserves : ∀ r, b.Reserves r → body.Reserves r := by
    intro r hr
    obtain ⟨entry, length, he, hmem⟩ := hr
    obtain ⟨_, _, hdone⟩ := hall 0 entry he
    exact ⟨_, length, hdone, hmem⟩
  refine ⟨⟨b.nextReg, ?_⟩, ?_, ?_⟩
  · have hn := h.numbered
    rw [← List.flatMap_map, ← hinstrs, List.flatMap_map] at hn
    exact hn
  · intro done hmem
    obtain ⟨i, hi⟩ := List.mem_iff_getElem?.1 hmem
    obtain ⟨block, t, hb, _, rfl⟩ := Builder.exists_of_finish hf hi
    exact (h.instrs i block hb).imp hreserves
  · intro done hmem
    obtain ⟨i, hi⟩ := List.mem_iff_getElem?.1 hmem
    obtain ⟨block, t, hb, ht, rfl⟩ := Builder.exists_of_finish hf hi
    exact h.terminators i block hb t ht

variable {s : Scope} {w : Width}

theorem Func.Builds.singleAssignment {f : Func τ} {b : Builder} {body : Body}
    (h : f.Builds s w b body) : body.SingleAssignment := by
  have hstart : (Builder.start f.signature.params.length).SingleAssignment (f.frame s w).args :=
    Builder.singleAssignment_start _
  have hend := (h.emitted.singleAssignment hstart).closeOpen f.signature.operands_lastTerminator
  rw [← h.args] at hend
  exact hend.finish h.finish

/-- Emitted bodies are in single-assignment form, with definitions before uses. -/
theorem Program.emit_singleAssignment {p : Program τ} {m : Module}
    (h : (p.emit s w).outcome = .ok m) :
    ∀ g ∈ m.functions, ∀ body, g.body? = some body → body.SingleAssignment := by
  intro g hg body hbody
  obtain ⟨f, _, _, b, hb⟩ := Program.builds_of_emit h hg hbody
  exact hb.singleAssignment

def printing : Func Unit :=
  ⟨"print", true, ⟨[⟨.any, "x"⟩], none⟩, []⟩

/-- A program that prints a string, then a number, again and again. -/
def repeating : Program Unit :=
  ⟨.single "m",
    [.function () printing,
     .function () ⟨"f", false, ⟨[⟨.bool, "b"⟩, ⟨.int, "n"⟩], none⟩,
      [.loop () (.ascribed () .bool (.var () "b"))
        [.effect () (.ascribed () .void (.call () ((Path.single "m").child "print")
          [.ascribed () .str (.lit () (.str "n"))])),
         .effect () (.ascribed () .void (.call () ((Path.single "m").child "print")
          [.ascribed () .int (.binary () (.arith .add) (.ascribed () .int (.var () "n"))
            (.ascribed () .int (.lit () (.int 1))))]))]]⟩]⟩

theorem emit_singleAssignment_repeating :
    ∃ m, (repeating.emit ((Scope.empty (.single "m")).declareFunction printing) .w64).outcome = .ok m ∧
      m.functions.map (·.blocks.length) = [0, 4] ∧
      ∀ g ∈ m.functions, ∀ body, g.body? = some body → body.SingleAssignment := by
  obtain ⟨m, hm, hblocks⟩ := Outcome.exists_of_map_eq_ok
    (x := (repeating.emit ((Scope.empty (.single "m")).declareFunction printing) .w64).outcome)
    (g := fun m => m.functions.map (·.blocks.length)) (b := [0, 4]) (by decide +kernel)
  exact ⟨m, hm, hblocks, Program.emit_singleAssignment hm⟩

end BlockCompiler
