import BlockCompiler.Proofs.Graph
import BlockCompiler.Proofs.Layout
import Mathlib.Data.List.Chain

/-!
# Cycles of a body

The only way round in a body is through the header of a loop. The numbers of blocks do not show this,
since the block where two arms meet may have a smaller number than blocks of the second arm. But
whenever a block is closed, it leads to blocks that are not begun, or back to the header of a loop.
-/

namespace BlockCompiler

open Target

/-- If each new edge leads to a node in `S`, and none leads on from there, then a path either is made
of old edges or ends in `S`. -/
private theorem transGen_or_of_sinks {α : Type} {R R' : α → α → Prop} {S : α → Prop}
    (hnew : ∀ x y, R' x y → R x y ∨ S y) (hS : ∀ x y, S x → ¬R' x y) {x y : α}
    (h : Relation.TransGen R' x y) : Relation.TransGen R x y ∨ S y := by
  induction h with
  | single h => exact (hnew _ _ h).imp_left .single
  | tail _ h ih =>
    have hold := ih.resolve_right fun hs => hS _ _ hs h
    exact (hnew _ _ h).imp_left hold.tail

namespace Target

/-- The walk from `a` through the blocks of `rest` leads back to `a`. -/
def Body.IsCycle (body : Body) (a : BlockId) (rest : List BlockId) : Prop :=
  (a :: (rest ++ [a])).IsChain body.Edge

def Body.Acyclic (body : Body) : Prop :=
  ∀ a rest, ¬body.IsCycle a rest

/-- The body has a block with that number and that label. -/
def Body.Labelled (body : Body) (id : BlockId) (label : String) : Prop :=
  ∃ block ∈ body.blocks, block.id = id ∧ block.label = label

/-- No walk comes to a block twice. -/
theorem Body.Acyclic.nodup {body : Body} (h : body.Acyclic) {walk : List BlockId}
    (hw : walk.IsChain body.Edge) : walk.Nodup := by
  induction walk with
  | nil => exact .nil
  | cons a walk ih =>
    refine List.nodup_cons.2 ⟨?_, ih hw.tail⟩
    intro hmem
    obtain ⟨before, after, rfl⟩ := List.append_of_mem hmem
    have happ : ((a :: (before ++ [a])) ++ after).IsChain body.Edge := by simpa using hw
    exact h a before happ.left_of_append

namespace Builder

/-- Control can pass from block `i` to block `j`, which is not the header of a loop. -/
def Forward (b : Builder) (i j : Nat) : Prop :=
  b.Edge i j ∧ b.labels[j]? ≠ some "loop.header"

/-- No path leads from a block to itself unless it enters the header of a loop. -/
def AcyclicForward (b : Builder) : Prop :=
  ∀ i, ¬Relation.TransGen b.Forward i i

variable {b b' : Builder}

private theorem Extends.getElem?_labels {i : Nat} {label : String} (h : b.Extends b')
    (hl : b.labels[i]? = some label) : b'.labels[i]? = some label := by
  simp only [labels, List.getElem?_map, Option.map_eq_some_iff] at hl ⊢
  obtain ⟨block, hb, rfl⟩ := hl
  obtain ⟨more, t?, hb', _⟩ := h.keeps hb
  exact ⟨_, hb', rfl⟩

private theorem Blank.not_edge {i : Nat} (h : b.Blank i) (j : Nat) : ¬b.Edge i j := by
  intro he
  obtain ⟨label, hb⟩ := h.block
  obtain ⟨block, t, hb', ht, _⟩ := he
  rw [hb] at hb'
  cases hb'
  cases ht

namespace AcyclicForward

private theorem of_forward (h : b.AcyclicForward) (hle : ∀ i j, b'.Forward i j → b.Forward i j) :
    b'.AcyclicForward :=
  fun i hi => h i (Relation.TransGen.mono hle _ _ hi)

private theorem write (c : Code) (n : Nat) (h : b.AcyclicForward) :
    (b.write c n).AcyclicForward := by
  apply h.of_forward
  intro i j hf
  rwa [Forward, edge_write, labels_write] at hf

private theorem moveTo (id : BlockId) (h : b.AcyclicForward) : (b.moveTo id).AcyclicForward := h

private theorem resume (m : Option BlockId) (h : b.AcyclicForward) :
    (b.resume m).AcyclicForward := by
  cases m with
  | none => exact h
  | some id => exact h.moveTo id

private theorem add (label : String) (h : b.AcyclicForward) : (b.add label).AcyclicForward := by
  apply h.of_forward
  intro i j hf
  refine ⟨(edge_add label i j).1 hf.1, ?_⟩
  intro hl
  exact hf.2 ((extends_add b label).getElem?_labels hl)

/-- To close the current block is safe if it leads to blocks that are not begun and to headers. -/
private theorem close {t : Terminator} (h : b.AcyclicForward) (ho : b.isOpen)
    (ht : ∀ id ∈ t.successors, b.Blank id.index ∨ b.labels[id.index]? = some "loop.header") :
    (b.close t).AcyclicForward := by
  have hnew : ∀ i j, (b.close t).Forward i j → b.Forward i j ∨ b.Blank j := by
    intro i j hf
    rw [Forward, edge_close t ho, labels_close] at hf
    obtain ⟨he | ⟨_, hj⟩, hl⟩ := hf
    · exact .inl ⟨he, hl⟩
    · exact .inr ((ht ⟨j⟩ hj).resolve_right hl)
  -- a block that is not begun is not the one closed here
  have hsink : ∀ i j, b.Blank i → ¬(b.close t).Forward i j := by
    intro i j hi hf
    rcases (edge_close t ho i j).1 hf.1 with he | ⟨hc, _⟩
    · exact hi.not_edge j he
    · rw [hi.notCurrent] at hc
      cases hc
  intro i hi
  rcases transGen_or_of_sinks hnew hsink hi with hi' | hblank
  · exact h i hi'
  · obtain ⟨j, hf, _⟩ := Relation.TransGen.head'_iff.1 hi
    exact hsink i j hblank hf

private theorem closeOpen {t : Terminator} (h : b.AcyclicForward)
    (ht : ∀ id ∈ t.successors, b.Blank id.index ∨ b.labels[id.index]? = some "loop.header") :
    (b.closeOpen t).AcyclicForward := by
  unfold Builder.closeOpen
  split
  · next ho => exact h.close ho ht
  · exact h

private theorem add_close_jump (label : String) (h : b.AcyclicForward) (ho : b.isOpen) :
    ((b.add label).close (.jump ⟨b.blocks.length⟩)).AcyclicForward := by
  apply (h.add label).close (isOpen_add ho)
  intro id hid
  cases List.mem_singleton.1 hid
  exact .inl (blank_add label ho)

private theorem proceed (label : String) (h : b.AcyclicForward) (ho : b.isOpen) :
    (b.proceed label).AcyclicForward :=
  (h.add_close_jump label ho).moveTo _

private theorem split (x : Operand) (thn els : String) (h : b.AcyclicForward) (ho : b.isOpen) :
    (b.split x thn els).AcyclicForward := by
  have hopen : (b.add thn).isOpen := isOpen_add ho
  have hthn := (blank_add thn ho).of_extends (extends_add _ els)
  have hels := blank_add els hopen
  apply moveTo
  apply ((h.add thn).add els).close (isOpen_add hopen)
  intro id hid
  simp only [Terminator.successors, List.mem_cons, List.not_mem_nil, or_false] at hid
  rcases hid with rfl | rfl
  · exact .inl hthn
  · exact .inl (by simpa using hels)

/-- The block where the arms meet is not begun, also when the second arm leads to it. -/
private theorem joins {m m' : Option BlockId} (h : b.AcyclicForward) (hj : b.Joins m b' m')
    (hm : b.Awaits m) : b'.AcyclicForward := by
  cases hj with
  | closed _ => exact h
  | first ho => exact h.add_close_jump "merge" ho
  | @again merge ho =>
    apply h.close ho
    intro id hid
    cases List.mem_singleton.1 hid
    exact .inl (hm merge rfl)

end AcyclicForward

private theorem acyclicForward_start (n : Nat) : (start n).AcyclicForward := by
  intro i hi
  obtain ⟨j, ⟨⟨block, t, hb, ht, _⟩, _⟩, _⟩ := Relation.TransGen.head'_iff.1 hi
  cases List.mem_singleton.1 (List.mem_of_getElem? hb)
  cases ht

end Builder

end Target

variable {τ : Type} {f : Frame}

namespace Stmt

/-- The header of a loop keeps its label while the body of the loop is emitted. -/
private theorem EmittedAll.label_header {body : List (Stmt τ)} {b b₁ : Builder} {x : Operand}
    {c : Code} {n : Nat} (hbody : EmittedAll f body
      (((b.proceed "loop.header").write c n).split x "loop.body" "loop.exit") b₁) :
    b₁.labels[b.blocks.length]? = some "loop.header" := by
  apply hbody.extends.getElem?_labels
  have hlen : b.labels.length = b.blocks.length := List.length_map _
  simp [← hlen]

mutual

private theorem Emitted.acyclicForward {st : Stmt τ} {b b' : Builder} :
    st.Emitted f b b' → b.isOpen →
    b.AcyclicForward → b'.AcyclicForward
  | .effect .., _, hb => hb.write _ _
  | .bareRet .., ho, hb => hb.close ho (by simp [Terminator.successors])
  | .voidRet .., ho, hb | .ret .., ho, hb =>
    (hb.write _ _).close (by simpa) (by simp [Terminator.successors])
  | @Emitted.branch _ _ _ _ _ _ b b₁ b₁' b₂ b₂' m₁ m₂ x c n _ hthn j₁ hels j₂, ho, hb => by
    have hsplit := (hb.write c n).split x "then" "else" (by simpa)
    have hthen := (hthn.acyclicForward hsplit).joins j₁ (by simp [Builder.Awaits])
    have helse := hels.acyclicForward (hthen.moveTo _)
    exact (helse.joins j₂ ((hthn.awaits_else j₁).of_extends hels.extends)).resume m₂
  | @Emitted.loop _ _ _ _ _ b b₁ x c n _ hbody, ho, hb => by
    have hheader := (hb.proceed "loop.header" ho).write c n
    have hsplit := hheader.split x "loop.body" "loop.exit"
      (by simpa using Builder.isOpen_proceed _ ho)
    refine ((hbody.acyclicForward hsplit).closeOpen ?_).moveTo _
    intro id hid
    cases List.mem_singleton.1 hid
    exact .inr hbody.label_header

private theorem EmittedAll.acyclicForward {sts : List (Stmt τ)} {b b' : Builder} :
    EmittedAll f sts b b' → b.AcyclicForward → b'.AcyclicForward
  | .nil _, hb => hb
  | .dead _, hb => hb
  | .cons ho hst hsts, hb => hsts.acyclicForward (hst.acyclicForward ho hb)

end

end Stmt

namespace Target.Builder

variable {b : Builder} {body : Body}

private theorem labelled_of_finish (hf : b.finish = .ok body.blocks) {id : BlockId} {label : String}
    (hl : b.labels[id.index]? = some label) : body.Labelled id label := by
  simp only [labels, List.getElem?_map, Option.map_eq_some_iff] at hl
  obtain ⟨block, hb, rfl⟩ := hl
  obtain ⟨t, _, hdone⟩ := (finish_eq_ok_iff.1 hf).2 id.index block hb
  exact ⟨_, List.mem_of_getElem? hdone, rfl, rfl⟩

/-- A walk that enters no header leads forward in the builder. -/
private theorem transGen_forward_of_walk (hf : b.finish = .ok body.blocks) {a c : BlockId}
    {rest : List BlockId} (hw : (a :: (rest ++ [c])).IsChain body.Edge)
    (hno : ∀ id ∈ rest ++ [c], ¬body.Labelled id "loop.header") :
    Relation.TransGen b.Forward a.index c.index := by
  have hstep : ∀ a id, body.Edge a id → ¬body.Labelled id "loop.header" →
      b.Forward a.index id.index :=
    fun a id he hid => ⟨(edge_finish hf).1 he, fun hl => hid (labelled_of_finish hf hl)⟩
  induction rest generalizing a with
  | nil =>
    rw [List.nil_append, List.isChain_cons_cons] at hw
    exact .single (hstep a c hw.1 (hno c (by simp)))
  | cons id rest ih =>
    rw [List.cons_append, List.isChain_cons_cons] at hw
    refine .head (hstep a id hw.1 (hno id (by simp))) (ih hw.2 ?_)
    intro next hnext
    exact hno next (List.mem_cons_of_mem _ hnext)

/-- Every cycle of the finished blocks passes through the header of a loop. -/
private theorem AcyclicForward.exists_header (h : b.AcyclicForward)
    (hf : b.finish = .ok body.blocks) {a : BlockId} {rest : List BlockId}
    (hc : body.IsCycle a rest) :
    ∃ id ∈ a :: rest, body.Labelled id "loop.header" := by
  by_contra hno
  apply h a.index
  apply transGen_forward_of_walk hf hc
  intro id hid hl
  exact hno ⟨id, by simpa [or_comm] using hid, hl⟩

end Target.Builder

namespace Func.Builds

variable {s : Scope} {w : Width} {f : Func τ} {b : Builder} {body : Body}

theorem exists_header (h : f.Builds s w b body) {a : BlockId} {rest : List BlockId}
    (hc : body.IsCycle a rest) : ∃ id ∈ a :: rest, body.Labelled id "loop.header" := by
  have hforward := (h.emitted.acyclicForward (Builder.acyclicForward_start _)).closeOpen
    (t := f.signature.lastTerminator) (by simp [Signature.successors_lastTerminator])
  exact hforward.exists_header h.finish hc

/-- Only a live loop has a header. -/
theorem acyclic (h : f.Builds s w b body) (hf : ∀ st ∈ Stmt.liveAll f.body, st.isLoop = false) :
    body.Acyclic := by
  intro a rest hc
  obtain ⟨id, _, block, hmem, _, hl⟩ := h.exists_header hc
  have hheader : "loop.header" ∈ body.labels := List.mem_map.2 ⟨block, hmem, hl⟩
  have hcount := h.laysOut.header
  rw [List.countP_eq_zero.2 (by simpa using hf)] at hcount
  exact List.count_eq_zero.1 hcount hheader

end Func.Builds

/-- In every emitted body, each cycle passes through the header of a loop. If no loop of the function is
live, then there is no cycle, and no walk through the body comes to a block twice. -/
theorem Program.emit_cycles {s : Scope} {w : Width} {p : Program τ} {m : Module}
    (h : (p.emit s w).outcome = .ok m) :
    List.Forall₂
      (fun f g => ∃ body, g.body? = some body ∧
        (∀ a rest, body.IsCycle a rest → ∃ id ∈ a :: rest, body.Labelled id "loop.header") ∧
        ((∀ st ∈ Stmt.liveAll f.body, st.isLoop = false) →
          body.Acyclic ∧ ∀ walk : List BlockId, walk.IsChain body.Edge → walk.Nodup))
      (p.functions.filter (!·.isExternal)) m.definitions := by
  refine (forall₂_builds_of_emit h).imp ?_
  intro f g hf
  obtain ⟨b, body, hbody, hb⟩ := hf
  refine ⟨body, hbody, fun a rest => hb.exists_header, ?_⟩
  intro hloops
  have hacyclic := hb.acyclic hloops
  exact ⟨hacyclic, fun walk => hacyclic.nodup⟩

theorem emit_cycles_winding :
    ∃ m, (winding.emit (Scope.empty (.single "m")) .w64).outcome = .ok m ∧
      winding.functions.map (fun f => (Stmt.liveAll f.body).countP Stmt.isLoop) = [1, 0] ∧
      List.Forall₂
        (fun f g => ∃ body, g.body? = some body ∧
          (∀ a rest, body.IsCycle a rest → ∃ id ∈ a :: rest, body.Labelled id "loop.header") ∧
          ((∀ st ∈ Stmt.liveAll f.body, st.isLoop = false) →
            body.Acyclic ∧ ∀ walk : List BlockId, walk.IsChain body.Edge → walk.Nodup))
        (winding.functions.filter (!·.isExternal)) m.definitions := by
  obtain ⟨m, hm⟩ := Outcome.exists_eq_ok
    (x := (winding.emit (Scope.empty (.single "m")) .w64).outcome) (by decide +kernel)
  exact ⟨m, hm, by decide +kernel, Program.emit_cycles hm⟩

end BlockCompiler
