import BlockCompiler.Proofs.Stages
import Mathlib.Logic.Relation

/-!
# The graph of a body

The blocks of a body are the nodes of a graph, and the successors of their terminators its edges.
Emission adds a block only in a step that also leads to it, so every block is reached from the entry
block. Nothing leads back to the entry block.
-/

namespace BlockCompiler

open Target

namespace Target

/-- Control can pass from block `a` to block `b`. -/
def Body.Edge (body : Body) (a b : BlockId) : Prop :=
  ∃ block ∈ body.blocks, block.id = a ∧ b ∈ block.terminator.successors

/-- The blocks are numbered in order and form a graph with the entry block as its root. -/
structure Body.Rooted (body : Body) : Prop where
  nonempty : body.blocks ≠ []
  id_eq : ∀ (i : Nat) (block : Block), body.blocks[i]? = some block → block.id = ⟨i⟩
  target_exists : ∀ a b, body.Edge a b → ∃ block ∈ body.blocks, block.id = b
  target_ne_entry : ∀ a b, body.Edge a b → b ≠ ⟨0⟩
  reached : ∀ block ∈ body.blocks, Relation.ReflTransGen body.Edge ⟨0⟩ block.id

namespace Builder

/-- Control can pass from block `i` to block `j`. -/
def Edge (b : Builder) (i j : Nat) : Prop :=
  ∃ block t, b.blocks[i]? = some block ∧ block.terminator? = some t ∧ ⟨j⟩ ∈ t.successors

/-- Control can pass from the entry block to block `i`. -/
def Reaches (b : Builder) (i : Nat) : Prop :=
  Relation.ReflTransGen b.Edge 0 i

/-- Edges lead to blocks that exist, but not to the entry block, and all blocks apart from those in
`S` are reached. -/
structure LinkedBut (b : Builder) (S : Nat → Prop) : Prop where
  targets : ∀ i j, b.Edge i j → 0 < j ∧ j < b.blocks.length
  reached : ∀ i, i < b.blocks.length → S i ∨ b.Reaches i

/-- Every block is reached. -/
def Linked (b : Builder) : Prop :=
  b.LinkedBut fun _ => False

variable {b b' : Builder} {S : Nat → Prop}

private theorem Reaches.mono {i : Nat} (h : b.Reaches i) (he : ∀ i j, b.Edge i j → b'.Edge i j) :
    b'.Reaches i :=
  Relation.ReflTransGen.mono he _ _ h

theorem edge_write (c : Code) (n i j : Nat) : (b.write c n).Edge i j ↔ b.Edge i j := by
  simp only [Edge, getElem?_blocks_write]
  constructor
  · intro h
    obtain ⟨_, t, hb, ht, hj⟩ := h
    obtain ⟨block, hblock, rfl⟩ := Option.map_eq_some_iff.1 hb
    exact ⟨block, t, hblock, ht, hj⟩
  · intro h
    obtain ⟨block, t, hb, ht, hj⟩ := h
    exact ⟨_, t, Option.map_eq_some_iff.2 ⟨block, hb, rfl⟩, ht, hj⟩

theorem edge_add (label : String) (i j : Nat) : (b.add label).Edge i j ↔ b.Edge i j := by
  constructor
  · intro h
    obtain ⟨block, t, hb, ht, hj⟩ := h
    rcases getElem?_blocks_add hb with hb | rfl
    · exact ⟨block, t, hb, ht, hj⟩
    · cases ht
  · intro h
    obtain ⟨block, t, hb, ht, hj⟩ := h
    have hlt : i < b.blocks.length := (List.getElem?_eq_some_iff.1 hb).1
    exact ⟨block, t, by rw [blocks_add, List.getElem?_append_left hlt, hb], ht, hj⟩

/-- To close the current block, which was open, adds the edges of its terminator. -/
theorem edge_close (t : Terminator) (h : b.isOpen) (i j : Nat) :
    (b.close t).Edge i j ↔ b.Edge i j ∨ b.isCurrent i ∧ ⟨j⟩ ∈ t.successors := by
  simp only [Edge, getElem?_blocks_close]
  constructor
  · intro he
    obtain ⟨_, t', hb, ht, hj⟩ := he
    obtain ⟨block, hblock, rfl⟩ := Option.map_eq_some_iff.1 hb
    cases hc : b.isCurrent i with
    | false =>
      simp only [hc] at ht
      exact .inl ⟨block, t', hblock, ht, hj⟩
    | true =>
      simp only [hc, if_true, Option.some.injEq] at ht
      exact .inr ⟨rfl, ht ▸ hj⟩
  · intro he
    rcases he with ⟨block, t', hb, ht, hj⟩ | ⟨hc, hj⟩
    · have hc : b.isCurrent i = false := isCurrent_of_closed h hb (by simp [ht])
      exact ⟨block, t', by simp [hb, hc], ht, hj⟩
    · have hb := List.getElem?_eq_getElem (lt_length_of_isCurrent h hc)
      exact ⟨_, t, Option.map_eq_some_iff.2 ⟨_, hb, rfl⟩, by simp [hc], hj⟩

private theorem LinkedBut.add (label : String) (h : b.LinkedBut S) :
    (b.add label).LinkedBut fun i => i = b.blocks.length ∨ S i := by
  constructor
  · intro i j he
    have hj := h.targets i j ((edge_add label i j).1 he)
    simp only [blocks_add, List.length_append, List.length_singleton]
    omega
  · intro i hi
    simp only [blocks_add, List.length_append, List.length_singleton] at hi
    by_cases hlt : i < b.blocks.length
    · rcases h.reached i hlt with hS | hr
      · exact .inl (.inr hS)
      · exact .inr (hr.mono fun i j => (edge_add label i j).2)
    · exact .inl (.inl (by omega))

/-- If the current block is closed by a terminator that leads to the blocks not reached so far, then
all are reached. -/
private theorem LinkedBut.close {t : Terminator} (h : b.LinkedBut S) (ho : b.isOpen)
    (hcur : ∀ i, S i → b.isCurrent i = false) (hS : ∀ i, S i → ⟨i⟩ ∈ t.successors)
    (ht : ∀ id ∈ t.successors, 0 < id.index ∧ id.index < b.blocks.length) : (b.close t).Linked := by
  have hmono : ∀ i, b.Reaches i → (b.close t).Reaches i :=
    fun i hr => hr.mono fun i j he => (edge_close t ho i j).2 (.inl he)
  -- the current block is none of those not reached
  obtain ⟨id, block, hc, hb, _⟩ := isOpen_iff_exists.1 ho
  have hid : b.isCurrent id.index := by simp [isCurrent, hc]
  have hreach : (b.close t).Reaches id.index := by
    rcases h.reached id.index (lt_length_of_isCurrent ho hid) with hSid | hr
    · have hfalse := hcur id.index hSid
      rw [hid] at hfalse
      cases hfalse
    · exact hmono id.index hr
  constructor
  · intro i j he
    rw [length_blocks_close]
    rcases (edge_close t ho i j).1 he with he | ⟨_, hj⟩
    · exact h.targets i j he
    · exact ht ⟨j⟩ hj
  · intro i hi
    rw [length_blocks_close] at hi
    right
    rcases h.reached i hi with hSi | hr
    · exact hreach.tail ((edge_close t ho id.index i).2 (.inr ⟨hid, hS i hSi⟩))
    · exact hmono i hr

namespace Linked

private theorem write (c : Code) (n : Nat) (h : b.Linked) : (b.write c n).Linked := by
  constructor
  · intro i j he
    rw [length_blocks_write]
    exact h.targets i j ((edge_write c n i j).1 he)
  · intro i hi
    rw [length_blocks_write] at hi
    exact (h.reached i hi).imp_right fun hr => hr.mono fun i j => (edge_write c n i j).2

private theorem moveTo (id : BlockId) (h : b.Linked) : (b.moveTo id).Linked :=
  ⟨h.targets, h.reached⟩

private theorem resume (m : Option BlockId) (h : b.Linked) : (b.resume m).Linked := by
  cases m with
  | none => exact h
  | some id => exact h.moveTo id

private theorem close {t : Terminator} (h : b.Linked) (ho : b.isOpen)
    (ht : ∀ id ∈ t.successors, 0 < id.index ∧ id.index < b.blocks.length) : (b.close t).Linked :=
  LinkedBut.close h ho (by simp) (by simp) ht

private theorem closeOpen {t : Terminator} (h : b.Linked)
    (ht : ∀ id ∈ t.successors, 0 < id.index ∧ id.index < b.blocks.length) :
    (b.closeOpen t).Linked := by
  unfold Builder.closeOpen
  split
  · next ho => exact h.close ho ht
  · exact h

/-- A new block to which the current one leads. -/
private theorem add_close_jump (label : String) (h : b.Linked) (ho : b.isOpen) :
    ((b.add label).close (.jump ⟨b.blocks.length⟩)).Linked := by
  have hpos := length_pos_of_isOpen ho
  have hcur := isCurrent_eq_false ho (Nat.le_refl b.blocks.length)
  refine (LinkedBut.add label h).close (isOpen_add ho) ?_ ?_ ?_
  · simpa using hcur
  · simp [Terminator.successors]
  · simpa [Terminator.successors] using hpos

private theorem proceed (label : String) (h : b.Linked) (ho : b.isOpen) :
    (b.proceed label).Linked :=
  (h.add_close_jump label ho).moveTo _

private theorem split (x : Operand) (thn els : String) (h : b.Linked) (ho : b.isOpen) :
    (b.split x thn els).Linked := by
  have hpos := length_pos_of_isOpen ho
  have hcur := isCurrent_eq_false ho (Nat.le_refl b.blocks.length)
  have hcur' := isCurrent_eq_false ho (Nat.le_succ b.blocks.length)
  refine moveTo _ ((LinkedBut.add els (LinkedBut.add thn h)).close (isOpen_add (isOpen_add ho))
    ?_ ?_ ?_)
  · intro i hi
    simp only [blocks_add, List.length_append, List.length_singleton, or_false] at hi
    rcases hi with rfl | rfl
    · simpa using hcur'
    · simpa using hcur
  · intro i hi
    simp only [blocks_add, List.length_append, List.length_singleton, or_false] at hi
    rcases hi with rfl | rfl <;> simp [Terminator.successors]
  · intro id hid
    simp only [Terminator.successors, List.mem_cons, List.not_mem_nil, or_false] at hid
    rcases hid with rfl | rfl
    · simpa using hpos
    · simp

/-- The end of an arm leads to the block where the arms meet. -/
private theorem joins {m m' : Option BlockId} (h : b.Linked) (hj : b.Joins m b' m')
    (hm : b.Awaits m) :
    b'.Linked := by
  cases hj with
  | closed _ => exact h
  | first ho => exact h.add_close_jump "merge" ho
  | @again merge ho =>
    have hblank := hm merge rfl
    obtain ⟨label, hb⟩ := hblank.block
    refine h.close ho ?_
    intro id hid
    cases List.mem_singleton.1 hid
    exact ⟨hblank.pos, (List.getElem?_eq_some_iff.1 hb).1⟩

end Linked

private theorem linked_start (n : Nat) : (start n).Linked := by
  constructor
  · intro i j he
    obtain ⟨block, t, hb, ht, _⟩ := he
    cases List.mem_singleton.1 (List.mem_of_getElem? hb)
    cases ht
  · intro i hi
    have hzero : i = 0 := Nat.lt_one_iff.1 hi
    subst hzero
    exact .inr .refl

end Builder

end Target

variable {τ : Type} {f : Frame}

namespace Stmt

mutual

private theorem Emitted.linked {st : Stmt τ} {b b' : Builder} :
    st.Emitted f b b' → b.isOpen → b.Linked →
    b'.Linked
  | .effect .., _, hb => hb.write _ _
  | .bareRet .., ho, hb => hb.close ho (by simp [Terminator.successors])
  | .voidRet .., ho, hb => (hb.write _ _).close (by simpa) (by simp [Terminator.successors])
  | .ret .., ho, hb => (hb.write _ _).close (by simpa) (by simp [Terminator.successors])
  | @Emitted.branch _ _ _ _ _ _ b b₁ b₁' b₂ b₂' m₁ m₂ x c n _ hthn j₁ hels j₂, ho, hb => by
    have hsplit := (hb.write c n).split x "then" "else" (by simpa)
    have hthen := (hthn.linked hsplit).joins j₁ (by simp [Builder.Awaits])
    have helse := hels.linked (hthen.moveTo _)
    exact (helse.joins j₂ ((hthn.awaits_else j₁).of_extends hels.extends)).resume m₂
  | @Emitted.loop _ _ _ _ _ b b₁ x c n _ hbody, ho, hb => by
    have hheader := (hb.proceed "loop.header" ho).write c n
    have hsplit := hheader.split x "loop.body" "loop.exit"
      (by simpa using Builder.isOpen_proceed _ ho)
    have hpos := Builder.length_pos_of_isOpen ho
    have hle := hbody.extends.length_le
    simp only [Builder.length_blocks_split, Builder.length_blocks_write,
      Builder.length_blocks_proceed] at hle
    refine ((hbody.linked hsplit).closeOpen ?_).moveTo _
    intro id hid
    cases List.mem_singleton.1 hid
    exact ⟨hpos, by simp only; omega⟩

private theorem EmittedAll.linked {sts : List (Stmt τ)} {b b' : Builder} :
    EmittedAll f sts b b' → b.Linked → b'.Linked
  | .nil _, hb => hb
  | .dead _, hb => hb
  | .cons ho hst hsts, hb => hsts.linked (hst.linked ho hb)

end

end Stmt

theorem Signature.successors_lastTerminator (sig : Signature) : sig.lastTerminator.successors = [] := by
  unfold lastTerminator
  split <;> rfl

namespace Target.Builder

variable {b : Builder} {body : Body}

/-- The edges of the finished blocks are those of the builder. -/
theorem edge_finish (hf : b.finish = .ok body.blocks) {a c : BlockId} :
    body.Edge a c ↔ b.Edge a.index c.index := by
  constructor
  · intro h
    obtain ⟨done, hmem, rfl, hc⟩ := h
    obtain ⟨i, hi⟩ := List.mem_iff_getElem?.1 hmem
    obtain ⟨block, t, hb, ht, rfl⟩ := exists_of_finish hf hi
    exact ⟨block, t, hb, ht, hc⟩
  · intro h
    obtain ⟨block, t, hb, ht, hc⟩ := h
    obtain ⟨t', ht', hdone⟩ := (finish_eq_ok_iff.1 hf).2 a.index block hb
    rw [ht] at ht'
    cases ht'
    exact ⟨_, List.mem_of_getElem? hdone, rfl, hc⟩

/-- If all blocks of a builder are reached, then its finished blocks form a graph with a root. -/
private theorem Linked.rooted (h : b.Linked) (hpos : 0 < b.blocks.length)
    (hf : b.finish = .ok body.blocks) : body.Rooted := by
  have hlen := (finish_eq_ok_iff.1 hf).1
  have hid : ∀ (i : Nat) (block : Block), body.blocks[i]? = some block → block.id = ⟨i⟩ := by
    intro i done hi
    obtain ⟨_, _, _, _, rfl⟩ := exists_of_finish hf hi
    rfl
  refine ⟨?_, hid, ?_, ?_, ?_⟩
  · intro hnil
    rw [hlen, hnil] at hpos
    exact absurd hpos (Nat.lt_irrefl 0)
  · intro a c he
    have hlt := (h.targets _ _ ((edge_finish hf).1 he)).2
    rw [hlen] at hlt
    exact ⟨_, List.getElem_mem hlt, hid c.index _ (List.getElem?_eq_getElem hlt)⟩
  · intro a c he hc
    have hpos := (h.targets _ _ ((edge_finish hf).1 he)).1
    rw [hc] at hpos
    exact absurd hpos (Nat.lt_irrefl 0)
  · intro done hmem
    obtain ⟨i, hi⟩ := List.mem_iff_getElem?.1 hmem
    have hlt : i < b.blocks.length := hlen ▸ (List.getElem?_eq_some_iff.1 hi).1
    have hr := (h.reached i hlt).resolve_left id
    rw [hid i done hi]
    exact Relation.ReflTransGen.lift BlockId.mk (fun i j he => (edge_finish hf).2 he) _ _ hr

end Target.Builder

variable {s : Scope} {w : Width}

theorem Func.Builds.rooted {f : Func τ} {b : Builder} {body : Body} (h : f.Builds s w b body) :
    body.Rooted := by
  have hlinked := (h.emitted.linked (Builder.linked_start _)).closeOpen
    (t := f.signature.lastTerminator) (by simp [Signature.successors_lastTerminator])
  have hextends := h.emitted.extends.trans (Builder.extends_closeOpen b f.signature.lastTerminator)
  exact hlinked.rooted hextends.length_le h.finish

/-- The blocks of every emitted body are numbered in order and form a graph: terminators lead to
blocks of the body, none leads to the entry block, and from the entry block each block is reached. -/
theorem Program.emit_rooted {p : Program τ} {m : Module} (h : (p.emit s w).outcome = .ok m) :
    ∀ g ∈ m.functions, ∀ body, g.body? = some body → body.Rooted := by
  intro g hg body hbody
  obtain ⟨f, _, _, b, hb⟩ := Program.builds_of_emit h hg hbody
  exact hb.rooted

/-- A program that may return from within a loop. -/
def searching : Program Unit :=
  ⟨.single "m",
    [.function () ⟨"f", false, ⟨[⟨.bool, "a"⟩, ⟨.bool, "b"⟩], some .int⟩,
      [.loop () (.ascribed () .bool (.var () "a"))
        [.branch () (.ascribed () .bool (.var () "b"))
          [.ret () (some (.ascribed () .int (.lit () (.int 1))))] []],
       .ret () (some (.ascribed () .int (.lit () (.int 0))))]⟩]⟩

theorem emit_rooted_searching :
    ∃ m, (searching.emit (Scope.empty (.single "m")) .w64).outcome = .ok m ∧
      m.functions.map (·.blocks.length) = [7] ∧
      ∀ g ∈ m.functions, ∀ body, g.body? = some body → body.Rooted := by
  obtain ⟨m, hm, hblocks⟩ := Outcome.exists_of_map_eq_ok
    (x := (searching.emit (Scope.empty (.single "m")) .w64).outcome)
    (g := fun m => m.functions.map (·.blocks.length)) (b := [7]) (by decide +kernel)
  exact ⟨m, hm, hblocks, Program.emit_rooted hm⟩

end BlockCompiler
