import BlockCompiler.Proofs.Code
import Mathlib.Data.List.Count

/-!
# The layout of a body

Which blocks a body consists of can be read off its statements. Each live branch and each live loop
adds its blocks, and dead statements add none. The end of a body is marked as unreachable in one block
at most, and only where something should have been returned before.
-/

namespace BlockCompiler

open Target

variable {τ : Type} {f : Frame}

namespace Stmt

def isBranch : Stmt τ → Bool
  | branch .. => true
  | loop .. | effect .. | ret .. => false

def isLoop : Stmt τ → Bool
  | loop .. => true
  | branch .. | effect .. | ret .. => false

/-- Whether the statement is a branch with an arm that does not close. There is a block then in which
the code goes on after the arms. -/
def rejoins : Stmt τ → Bool
  | branch _ _ thn els => !(closesAll thn && closesAll els)
  | loop .. | effect .. | ret .. => false

/-- The labels of the blocks that a statement adds, apart from those that the statements in it add. -/
def labels (st : Stmt τ) : List String :=
  match st with
  | branch .. => ["then", "else"] ++ if st.rejoins then ["merge"] else []
  | loop .. => ["loop.header", "loop.body", "loop.exit"]
  | effect .. | ret .. => []

end Stmt

namespace Target.Builder

variable {b b' : Builder}

/-- The labels of the blocks, in order. -/
def labels (b : Builder) : List String :=
  b.blocks.map (·.label)

/-- How the blocks end, as far as they are closed. -/
def terminators (b : Builder) : List (Option Terminator) :=
  b.blocks.map (·.terminator?)

@[simp] theorem labels_write (b : Builder) (c : Code) (n : Nat) : (b.write c n).labels = b.labels := by
  apply List.ext_getElem?
  intro i
  simp only [labels, List.getElem?_map, getElem?_blocks_write, Option.map_map]
  rfl

@[simp] theorem labels_add (b : Builder) (label : String) :
    (b.add label).labels = b.labels ++ [label] := by
  simp [labels]

@[simp] theorem labels_close (b : Builder) (t : Terminator) : (b.close t).labels = b.labels := by
  apply List.ext_getElem?
  intro i
  simp only [labels, List.getElem?_map, getElem?_blocks_close, Option.map_map]
  congr 1
  funext block
  cases b.isCurrent i <;> simp

@[simp] theorem labels_moveTo (b : Builder) (id : BlockId) : (b.moveTo id).labels = b.labels := rfl

@[simp] theorem labels_closeOpen (b : Builder) (t : Terminator) :
    (b.closeOpen t).labels = b.labels := by
  unfold closeOpen
  split <;> simp

@[simp] theorem labels_resume (b : Builder) (merge? : Option BlockId) :
    (b.resume merge?).labels = b.labels := by
  cases merge? <;> rfl

@[simp] theorem labels_proceed (b : Builder) (label : String) :
    (b.proceed label).labels = b.labels ++ [label] := by
  simp [proceed]

@[simp] theorem labels_split (b : Builder) (x : Operand) (thn els : String) :
    (b.split x thn els).labels = b.labels ++ [thn, els] := by
  simp [split]

/-- The first arm that reaches its end adds the block where the arms meet. -/
private theorem Joins.labels_eq {m m' : Option BlockId} (h : b.Joins m b' m') :
    b'.labels = b.labels ++ if m.isNone && b.isOpen then ["merge"] else [] := by
  cases h with
  | closed hf => simp [hf]
  | first ho => simp [ho]
  | again ho => simp

/-- To close an open builder sets the end of its current block. -/
private theorem terminators_close {id : BlockId} (t : Terminator) (hc : b.current? = some id) :
    (b.close t).terminators = b.terminators.set id.index (some t) := by
  apply List.ext_getElem?
  intro i
  simp only [terminators, List.getElem?_map, getElem?_blocks_close, Option.map_map, List.getElem?_set,
    List.length_map, isCurrent, hc, Option.some.injEq]
  by_cases hi : id.index = i
  · subst hi
    by_cases hlt : id.index < b.blocks.length
    · simp [hlt]
    · simp [hlt]
  · have hne : id ≠ ⟨i⟩ := fun he => hi (by rw [he])
    simp [hi, hne, Function.comp_def]

/-- What can be told of blocks alone is the same when they are finished. -/
theorem map_of_finish {α : Type} {g : OpenBlock → α} {g' : Block → α} {blocks : List Block}
    (hg : ∀ (i : Nat) (block : OpenBlock) (t : Terminator), block.terminator? = some t →
      g' ⟨⟨i⟩, block.label, block.instrs, t⟩ = g block)
    (h : b.finish = .ok blocks) : blocks.map g' = b.blocks.map g := by
  obtain ⟨hlen, hall⟩ := finish_eq_ok_iff.1 h
  apply List.ext_getElem (by simpa using hlen.symm)
  intro i hi hi'
  rw [List.length_map] at hi hi'
  obtain ⟨t, ht, hdone⟩ := hall i _ (List.getElem?_eq_getElem hi')
  rw [List.getElem_map, List.getElem_map, ← hg i _ t ht, (List.getElem?_eq_some_iff.1 hdone).2]

end Target.Builder

namespace Stmt

/-- Of the two arms of a branch, the first that reaches its end adds the block where they meet. -/
private theorem count_merge (label : String) (t : τ) (test : Expr τ) {thn els : List (Stmt τ)}
    {b₁ b₁' b₂ b₂' : Builder} {m₁ m₂ : Option BlockId} (j₁ : b₁.Joins none b₁' m₁)
    (j₂ : b₂.Joins m₁ b₂' m₂) (hthn : b₁.isOpen = !closesAll thn) (hels : b₂.isOpen = !closesAll els) :
    b₁'.labels.count label + b₂'.labels.count label =
      b₁.labels.count label + b₂.labels.count label +
        (if (branch t test thn els).rejoins then ["merge"] else []).count label := by
  have hm : m₁.isNone = closesAll thn := by
    rw [← Option.not_isSome, j₁.isSome_eq, hthn]
    simp
  rw [j₁.labels_eq, j₂.labels_eq, hthn, hels, hm, rejoins]
  cases closesAll thn <;> cases closesAll els <;> simp [List.count_append] <;> omega

mutual

/-- Emission adds the blocks of the live statements, and no others. -/
private theorem Emitted.count_labels (label : String) {st : Stmt τ} {b b' : Builder} :
    st.Emitted f b b' →
    b.isOpen → b'.labels.count label = b.labels.count label + (st.live.flatMap labels).count label
  | .effect .., _ | .bareRet .., _ | .voidRet .., _ | .ret .., _ => by
    simp [live, labels]
  | @Emitted.branch _ _ t test thn els b b₁ b₁' b₂ b₂' m₁ m₂ x c n _ hthn j₁ hels j₂, ho => by
    have hsplit : ((b.write c n).split x "then" "else").isOpen :=
      Builder.isOpen_split x _ _ (by simpa)
    have helse := (hthn.blank_else j₁ ho).isOpen_moveTo
    have hcount := hthn.count_labels label hsplit
    have hcount' := hels.count_labels label helse
    have hmerge := count_merge label t test j₁ j₂ (hthn.isOpen_eq hsplit) (hels.isOpen_eq helse)
    simp only [Builder.labels_split, Builder.labels_write, Builder.labels_moveTo,
      List.count_append] at hcount hcount'
    simp only [Builder.labels_resume, live, labels, List.flatMap_cons, List.flatMap_append,
      List.count_append]
    omega
  | .loop _ _ hbody, ho => by
    have hopen := Builder.isOpen_proceed "loop.header" ho
    have hcount := hbody.count_labels label (Builder.isOpen_split _ _ _ (by simpa))
    simp only [Builder.labels_split, Builder.labels_write, Builder.labels_proceed,
      List.count_append] at hcount
    simp only [Builder.labels_moveTo, Builder.labels_closeOpen, live, labels, List.flatMap_cons,
      List.count_append, hcount]
    rw [show ["loop.header", "loop.body", "loop.exit"] = ["loop.header"] ++ ["loop.body", "loop.exit"]
      from rfl, List.count_append]
    omega

private theorem EmittedAll.count_labels (label : String) {sts : List (Stmt τ)} {b b' : Builder} :
    EmittedAll f sts b b' → b.isOpen →
    b'.labels.count label = b.labels.count label + ((liveAll sts).flatMap labels).count label
  | .nil _, _ => by
    simp [liveAll]
  | .dead hf, ho => by
    simp [ho] at hf
  | @EmittedAll.cons _ _ st sts _ b₁ _ _ hst hsts, ho => by
    have hopen := hst.isOpen_eq ho
    rw [liveAll, List.flatMap_append, List.count_append, ← Nat.add_assoc, ← hst.count_labels label ho]
    cases hc : st.closes with
    | true =>
      rw [hc] at hopen
      rw [hsts.eq_of_closed hopen]
      simp
    | false =>
      rw [hc] at hopen
      exact hsts.count_labels label hopen

end

/-- A label that a statement gives to one block, and only if `P`. -/
private theorem count_flatMap_labels {label : String} {P : Stmt τ → Bool}
    (h : ∀ st : Stmt τ, st.labels.count label = if P st then 1 else 0) (sts : List (Stmt τ)) :
    (sts.flatMap labels).count label = sts.countP P := by
  induction sts with
  | nil => rfl
  | cons st sts ih => rw [List.flatMap_cons, List.count_append, List.countP_cons, ih, h, Nat.add_comm]

private theorem length_flatMap_labels (sts : List (Stmt τ)) :
    (sts.flatMap labels).length =
      2 * sts.countP isBranch + sts.countP rejoins + 3 * sts.countP isLoop := by
  have hst : ∀ st : Stmt τ, st.labels.length =
      2 * (if st.isBranch then 1 else 0) + (if st.rejoins then 1 else 0) +
        3 * (if st.isLoop then 1 else 0) := by
    intro st
    cases st with
    | branch t test thn els =>
      cases hr : (branch t test thn els).rejoins <;> simp [labels, isBranch, isLoop, hr]
    | loop | effect | ret => simp [labels, isBranch, isLoop, rejoins]
  induction sts with
  | nil => rfl
  | cons st sts ih =>
    simp only [List.flatMap_cons, List.length_append, List.countP_cons, ih, hst]
    omega

private theorem count_labels_branch {label : String} (hb : label = "then" ∨ label = "else")
    (st : Stmt τ) :
    st.labels.count label = if st.isBranch then 1 else 0 := by
  cases st with
  | branch t test thn els =>
    cases hr : (branch t test thn els).rejoins <;> rcases hb with rfl | rfl <;>
      simp [labels, isBranch, hr]
  | loop | effect | ret => rcases hb with rfl | rfl <;> simp [labels, isBranch]

private theorem count_labels_merge (st : Stmt τ) :
    st.labels.count "merge" = if st.rejoins then 1 else 0 := by
  cases st with
  | branch t test thn els =>
    cases hr : (branch t test thn els).rejoins <;> simp [labels, hr]
  | loop | effect | ret => simp [labels, rejoins]

private theorem count_labels_loop {label : String}
    (hl : label = "loop.header" ∨ label = "loop.body" ∨ label = "loop.exit") (st : Stmt τ) :
    st.labels.count label = if st.isLoop then 1 else 0 := by
  cases st with
  | branch t test thn els =>
    cases hr : (branch t test thn els).rejoins <;> rcases hl with rfl | rfl | rfl <;>
      simp [labels, isLoop, hr]
  | loop | effect | ret => rcases hl with rfl | rfl | rfl <;> simp [labels, isLoop]

mutual

/-- No statement marks the end of a block as unreachable. -/
private theorem Emitted.reachable {st : Stmt τ} {b b' : Builder} : st.Emitted f b b' →
    b.AllCode (fun _ => True) (· ≠ .unreachable) → b'.AllCode (fun _ => True) (· ≠ .unreachable)
  | .effect .., hb => hb.write _ fun _ _ => trivial
  | .bareRet .., hb => hb.close nofun
  | .voidRet .., hb | .ret .., hb => (hb.write _ fun _ _ => trivial).close nofun
  | @Emitted.branch _ _ _ _ _ _ _ _ _ _ _ _ m₂ _ _ n _ hthn j₁ hels j₂, hb => by
    have hthen := hthn.reachable
      ((hb.write n fun _ _ => trivial).split "then" "else" fun _ _ => nofun)
    have helse := hels.reachable ((hthen.joins j₁ fun _ => nofun).moveTo _)
    exact (helse.joins j₂ fun _ => nofun).resume m₂
  | @Emitted.loop _ _ _ _ _ _ _ _ _ n _ hbody, hb => by
    have hheader := hb.proceed "loop.header" fun _ => nofun
    have hround := hbody.reachable
      ((hheader.write n fun _ _ => trivial).split "loop.body" "loop.exit" fun _ _ => nofun)
    exact (hround.closeOpen (t := .jump _) nofun).moveTo _

private theorem EmittedAll.reachable {sts : List (Stmt τ)} {b b' : Builder} :
    EmittedAll f sts b b' →
    b.AllCode (fun _ => True) (· ≠ .unreachable) → b'.AllCode (fun _ => True) (· ≠ .unreachable)
  | .nil _, hb => hb
  | .dead _, hb => hb
  | .cons _ hst hsts, hb => hsts.reachable (hst.reachable hb)

end

end Stmt

namespace Target

/-- The labels of the blocks of a body, in order. -/
def Body.labels (body : Body) : List String :=
  body.blocks.map (·.label)

/-- The terminators of the blocks of a body, in order. -/
def Body.terminators (body : Body) : List Terminator :=
  body.blocks.map (·.terminator)

namespace Builder

variable {b : Builder} {body : Body}

private theorem labels_of_finish (h : b.finish = .ok body.blocks) : body.labels = b.labels :=
  map_of_finish (fun _ _ _ _ => rfl) h

private theorem terminators_of_finish (h : b.finish = .ok body.blocks) :
    body.terminators.map some = b.terminators := by
  rw [Body.terminators, List.map_map]
  exact map_of_finish (fun _ _ _ ht => ht.symm) h

/-- A terminator that is not there so far ends one block at most. -/
private theorem count_terminators_closeOpen {t t' : Terminator} (h : some t' ∉ b.terminators) :
    (b.closeOpen t).terminators.count (some t') = if b.isOpen ∧ t = t' then 1 else 0 := by
  have hzero := List.count_eq_zero.2 h
  cases ho : b.isOpen with
  | false => simp [closeOpen, ho, hzero]
  | true =>
    obtain ⟨id, block, hc, hb, _⟩ := isOpen_iff_exists.1 ho
    have hlt : id.index < b.terminators.length := by
      simpa [terminators] using (List.getElem?_eq_some_iff.1 hb).1
    rw [closeOpen, if_pos ho, terminators_close t hc, List.count_set hlt, hzero]
    simp

end Builder

end Target

namespace Func

/-- The blocks of the body are an entry block and those that the live branches and loops of the
function add: two for each branch, a third where an arm of it does not close, and three for each loop.
A block ends as unreachable just if the function returns something and its body does not close. -/
structure LaysOut (f : Func τ) (body : Body) : Prop where
  blocks : body.blocks.length = 1 + 2 * (Stmt.liveAll f.body).countP Stmt.isBranch +
    (Stmt.liveAll f.body).countP Stmt.rejoins + 3 * (Stmt.liveAll f.body).countP Stmt.isLoop
  thn : body.labels.count "then" = (Stmt.liveAll f.body).countP Stmt.isBranch
  els : body.labels.count "else" = (Stmt.liveAll f.body).countP Stmt.isBranch
  merge : body.labels.count "merge" = (Stmt.liveAll f.body).countP Stmt.rejoins
  header : body.labels.count "loop.header" = (Stmt.liveAll f.body).countP Stmt.isLoop
  round : body.labels.count "loop.body" = (Stmt.liveAll f.body).countP Stmt.isLoop
  exit : body.labels.count "loop.exit" = (Stmt.liveAll f.body).countP Stmt.isLoop
  unreachable : body.terminators.count .unreachable =
    if f.signature.result ≠ .void ∧ Stmt.closesAll f.body = false then 1 else 0

namespace Builds

variable {s : Scope} {w : Width} {f : Func τ} {b : Builder} {body : Body}

/-- The labels of a body are those of its live statements, and one for the entry block. -/
private theorem labels_perm (h : f.Builds s w b body) :
    body.labels.Perm ("entry" :: (Stmt.liveAll f.body).flatMap Stmt.labels) := by
  rw [Builder.labels_of_finish h.finish, Builder.labels_closeOpen, List.perm_iff_count]
  intro label
  rw [h.emitted.count_labels label (Builder.isOpen_start _), List.count_cons, Nat.add_comm]
  simp [Builder.labels, Builder.start, List.count_cons]

private theorem count_labels (h : f.Builds s w b body) {label : String} (hne : label ≠ "entry")
    {P : Stmt τ → Bool} (hP : ∀ st : Stmt τ, st.labels.count label = if P st then 1 else 0) :
    body.labels.count label = (Stmt.liveAll f.body).countP P := by
  rw [h.labels_perm.count_eq, List.count_cons_of_ne hne.symm, Stmt.count_flatMap_labels hP]

private theorem count_unreachable (h : f.Builds s w b body) :
    body.terminators.count .unreachable =
      if f.signature.result ≠ .void ∧ Stmt.closesAll f.body = false then 1 else 0 := by
  have hnot : some Terminator.unreachable ∉ b.terminators := by
    intro hmem
    obtain ⟨block, hb, ht⟩ := List.mem_map.1 hmem
    obtain ⟨i, hi⟩ := List.mem_iff_getElem?.1 hb
    exact (h.emitted.reachable (Builder.allCode_start _)).terminators i block hi _ ht rfl
  have hlast : f.signature.lastTerminator = .unreachable ↔ f.signature.result ≠ .void := by
    unfold Signature.lastTerminator
    split <;> simp [*]
  rw [← List.count_map_of_injective _ some fun _ _ => Option.some.inj,
    Builder.terminators_of_finish h.finish, Builder.count_terminators_closeOpen hnot,
    h.emitted.isOpen_eq (Builder.isOpen_start _)]
  simp only [Bool.not_eq_true', hlast, and_comm]

theorem laysOut (h : f.Builds s w b body) : f.LaysOut body where
  blocks := by
    have hlen := h.labels_perm.length_eq
    rw [Body.labels, List.length_map, List.length_cons, Stmt.length_flatMap_labels] at hlen
    omega
  thn := h.count_labels (by decide) (Stmt.count_labels_branch (.inl rfl))
  els := h.count_labels (by decide) (Stmt.count_labels_branch (.inr rfl))
  merge := h.count_labels (by decide) Stmt.count_labels_merge
  header := h.count_labels (by decide) (Stmt.count_labels_loop (.inl rfl))
  round := h.count_labels (by decide) (Stmt.count_labels_loop (.inr (.inl rfl)))
  exit := h.count_labels (by decide) (Stmt.count_labels_loop (.inr (.inr rfl)))
  unreachable := h.count_unreachable

end Builds

end Func

/-- The blocks of every emitted body can be counted in the function: those of each label, and those that
end as unreachable. -/
theorem Program.emit_laysOut {s : Scope} {w : Width} {p : Program τ} {m : Module}
    (h : (p.emit s w).outcome = .ok m) :
    List.Forall₂ (fun f g => ∃ body, g.body? = some body ∧ f.LaysOut body)
      (p.functions.filter (!·.isExternal)) m.definitions := by
  refine (forall₂_builds_of_emit h).imp ?_
  intro f g hf
  obtain ⟨b, body, hbody, hb⟩ := hf
  exact ⟨body, hbody, hb.laysOut⟩

/-- A program of two functions, with loops that are dead and a branch of which both arms close. The
second function ends without a value. -/
def winding : Program Unit :=
  let test : Expr Unit := .ascribed () .bool (.var () "a")
  let one : Expr Unit := .ascribed () .int (.lit () (.int 1))
  ⟨.single "m",
    [.function () ⟨"f", false, ⟨[⟨.bool, "a"⟩], some .int⟩,
      [.loop () test [.branch () test [.ret () (some one), .loop () test []] []],
       .branch () test [.ret () (some one)] [.branch () test [.ret () (some one)] [.ret () (some one)]],
       .loop () test []]⟩,
     .function () ⟨"g", false, ⟨[⟨.bool, "a"⟩], some .int⟩, [.branch () test [] [.ret () (some one)]]⟩]⟩

theorem emit_laysOut_winding :
    ∃ m, (winding.emit (Scope.empty (.single "m")) .w64).outcome = .ok m ∧
      m.functions.map (·.blocks.length) = [11, 4] ∧
      List.Forall₂ (fun f g => ∃ body, g.body? = some body ∧ f.LaysOut body)
        (winding.functions.filter (!·.isExternal)) m.definitions := by
  obtain ⟨m, hm, hblocks⟩ := Outcome.exists_of_map_eq_ok
    (x := (winding.emit (Scope.empty (.single "m")) .w64).outcome)
    (g := fun m => m.functions.map (·.blocks.length)) (b := [11, 4]) (by decide +kernel)
  exact ⟨m, hm, hblocks, Program.emit_laysOut hm⟩

end BlockCompiler
