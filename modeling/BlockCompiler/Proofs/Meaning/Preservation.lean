import BlockCompiler.Proofs.Meaning.Passes
import BlockCompiler.Proofs.Meaning.Statements

/-!
# Compilation preserves meaning

The code of a function makes the same calls as the function and ends in the same way, for all
arguments and in every world.
-/

namespace BlockCompiler

open Target Invocation

variable {τ : Type} {P : Type}

namespace Target.Builder

private theorem standsAt_start (n : Nat) : (start n).StandsAt ⟨0⟩ :=
  ⟨rfl, "entry", rfl⟩

end Target.Builder

private theorem lookup_zip {α β : Type} [BEq α] [LawfulBEq α] {l : List α} {l' : List β} {a : α}
    {b : β} (hl : l.Nodup) (h : (a, b) ∈ l.zip l') : (l.zip l').lookup a = some b := by
  induction l generalizing l' with
  | nil => simp at h
  | cons c l ih =>
    cases l' with
    | nil => simp at h
    | cons d l' =>
      obtain ⟨hc, hl⟩ := List.nodup_cons.1 hl
      rw [List.zip_cons_cons, List.lookup_cons]
      rcases List.mem_cons.1 h with he | hmem
      · cases he
        simp
      · have hne : a ≠ c := by
          intro he
          subst he
          exact hc (List.of_mem_zip hmem).1
        rw [beq_false_of_ne hne]
        exact ih hl hmem

/-- On entry, each register of a parameter holds its argument. -/
private theorem Frame.holds_enter (f : Frame) (args : List (Value f.width P)) :
    f.Holds args (Memory.enter f.args args) := by
  intro r v hr
  have hnodup : f.args.Nodup := by
    rw [Frame.args, List.Nodup, List.pairwise_map]
    refine List.nodup_range.imp ?_
    intro i j hne heq
    exact hne (Reg.mk.inj heq)
  exact lookup_zip hnodup hr

namespace Invocation

variable {f : Frame} {x : Invocation f P}

private theorem ready_start :
    x.Ready (.start f.signature.params.length) (Memory.enter f.args x.args) where
  holds := f.holds_enter x.args
  reserved r length hr := by
    simp [Builder.start, Builder.isCurrent, Builder.entry] at hr

variable [DecidableEq P]

/-- The end of a body returns or is not to be reached. -/
private theorem runAt_end {b : Builder} {m : Memory f.width P} (hm : x.Ready b m) (ho : b.isOpen)
    (hb : x.builder = b.closeOpen f.signature.lastTerminator) (k : Nat)
    (calls : History f.width P) : x.runAt b k m calls = some (calls, f.signature.atEnd) := by
  have hclose : b.closeOpen f.signature.lastTerminator = b.close f.signature.lastTerminator := by
    simp [Builder.closeOpen, ho]
  have hw : (b.close f.signature.lastTerminator).Within x.builder := by
    rw [hb, hclose]
    exact (Builder.Extends.refl _).within
  obtain ⟨m', _, _, hrun⟩ := runAt_leaves hm ho (Builder.leaves_close b _) hw
  rw [hrun]
  unfold Signature.lastTerminator Signature.atEnd
  split <;> rfl

end Invocation

namespace Func.Compiles

variable [Located τ] {s : Scope} {w : Width} {f : Func τ} {resolved typed : List (Stmt τ)}
  {b : Builder} {blocks : List Block} (h : f.Compiles s w resolved typed b blocks)

include h

/-- The call of a function by its finished code. -/
def invocation (world : World w P) (args : List (Value w P))
    (hargs : args.length = f.signature.params.length) : Invocation (f.frame s w) P :=
  ⟨world, args, b.closeOpen f.signature.lastTerminator, blocks, hargs, h.params, h.finish⟩

private theorem within_start :
    (Builder.start f.signature.params.length).Within (b.closeOpen f.signature.lastTerminator) :=
  (h.emitted.extends.trans (Builder.extends_closeOpen b _)).within

/-- The first block is the one that was begun first. -/
private theorem exists_head : ∃ entry, blocks.head? = some entry ∧ entry.id = ⟨0⟩ := by
  obtain ⟨_, _, hblock, _⟩ := h.within_start 0 _ rfl
  obtain ⟨_, _, hdone⟩ := (Builder.finish_eq_ok_iff.1 h.finish).2 _ _ hblock
  rw [List.head?_eq_getElem?]
  exact ⟨_, hdone, rfl⟩

variable {world : World w P} {args : List (Value w P)}
  (hargs : args.length = f.signature.params.length)

private theorem spans :
    (h.invocation world args hargs).Spans (.start f.signature.params.length) b :=
  ⟨(Builder.extends_closeOpen b _).within, Builder.isOpen_start _, Nat.le_refl _⟩

variable [DecidableEq P]

/-- A run of the body starts at the start of the first block. -/
private theorem ends_iff {calls : History w P} {ending : Ending w P} :
    Body.Ends world ⟨(f.frame s w).args, blocks⟩ args calls ending ↔
      ∃ k, (h.invocation world args hargs).runAt (.start f.signature.params.length) k
        (Memory.enter (f.frame s w).args args) [] = some (calls, ending) := by
  obtain ⟨entry, hentry, hid⟩ := h.exists_head
  have hrun := fun k m calls => run_standsAt (x := h.invocation world args hargs)
    (Builder.standsAt_start f.signature.params.length) h.within_start k m calls
  constructor
  · intro he
    obtain ⟨_, n, hhead, he⟩ := he
    cases hentry.symm.trans hhead
    rw [hid] at he
    cases n with
    | zero => cases he
    | succ k => exact ⟨k, (hrun k _ []).symm.trans he⟩
  · intro he
    obtain ⟨k, he⟩ := he
    refine ⟨entry, k + 1, hentry, ?_⟩
    rw [hid]
    exact (hrun k _ []).trans he

private theorem runsAll_iff {h₀ : History w P} {flow : Flow w P} :
    Stmt.RunsAll (h.invocation world args hargs).activation typed h₀ flow ↔
      Stmt.RunsAll ⟨world, s, f.signature, args⟩ f.body h₀ flow :=
  Stmt.runsAll_iff_of_passes h.resolve h.samePlain

include hargs

private theorem ends_of_source {calls : History w P} {ending : Ending w P}
    (he : f.Ends world s args calls ending) :
    Body.Ends world ⟨(f.frame s w).args, blocks⟩ args calls ending := by
  rw [h.ends_iff hargs]
  have hready := ready_start (x := h.invocation world args hargs)
  cases he with
  | ended hr =>
    rw [← h.runsAll_iff hargs] at hr
    exact h.emitted.follows h.wellTyped (h.spans hargs) hready hr
  | reached hr =>
    rw [← h.runsAll_iff hargs] at hr
    obtain ⟨ho, m, d, hm, hrun⟩ := h.emitted.follows h.wellTyped (h.spans hargs) hready hr
    exact ⟨0 + d, (hrun 0).trans (runAt_end hm ho rfl 0 _)⟩

private theorem source_of_ends {calls : History w P} {ending : Ending w P}
    (he : Body.Ends world ⟨(f.frame s w).args, blocks⟩ args calls ending) :
    f.Ends world s args calls ending := by
  obtain ⟨k, hk⟩ := (h.ends_iff hargs).1 he
  rcases h.emitted.reflects h.wellTyped (h.spans hargs) ready_start hk with
    hr | ⟨h₁, m, n, hr, ho, hm, _, hrun⟩
  · exact .ended ((h.runsAll_iff hargs).1 hr)
  · rw [runAt_end hm ho rfl] at hrun
    cases hrun
    exact .reached ((h.runsAll_iff hargs).1 hr)

end Func.Compiles

/-- The code of `g` makes the calls that `f` makes and ends as `f` does, for all arguments and in
every world. -/
def Func.ImplementedBy (s : Scope) (w : Width) (f : Func τ) (g : Function) : Prop :=
  ∃ body, g.body? = some body ∧
    ∀ (P : Type) [DecidableEq P] (world : World w P) (args : List (Value w P)),
      args.length = f.signature.params.length →
      ∀ calls ending, body.Ends world args calls ending ↔ f.Ends world s args calls ending

theorem Func.CompilesTo.implementedBy [Located τ] {s : Scope} {w : Width} {path : Path} {f : Func τ}
    {g : Function} (h : f.CompilesTo s w path g) : f.ImplementedBy s w g := by
  obtain ⟨resolved, typed, b, blocks, h, rfl⟩ := h
  refine ⟨⟨(f.frame s w).args, blocks⟩, rfl, ?_⟩
  intro P _ world args hargs calls ending
  exact ⟨h.source_of_ends hargs, h.ends_of_source hargs⟩

/-- Compilation preserves meaning: the definitions of a module are the functions of the program that
are not external, in their order and under their link names, and each behaves as its source does. -/
theorem compile_preserves_meaning [Located τ] {lib : Library} {w : Width} {p : Program τ}
    {r : Compilation} (h : (compile lib w p).outcome = .ok r) :
    List.Forall₂ (fun f g => g.name = (p.module.child f.name).linkName ∧ f.ImplementedBy r.scope w g)
      (p.functions.filter (!·.isExternal)) r.module.definitions := by
  obtain ⟨resolved, typed, h⟩ := compile_eq_ok_iff.1 h
  refine h.definitions.imp ?_
  intro f g hfg
  refine ⟨?_, hfg.implementedBy⟩
  obtain ⟨_, _, _, _, _, rfl⟩ := hfg
  rfl

/-- A program that waits for something outside and may trap. -/
def waiting : Program Unit :=
  ⟨.single "m",
    [.function () ⟨"more", true, ⟨[⟨.int, "n"⟩], some .bool⟩, []⟩,
     .function () ⟨"wait", false, ⟨[⟨.any, "x"⟩], some .int⟩,
      [.loop () (.bareCall () "more" [.var () "x"])
        [.branch () (.binary () (.compare .eq) (.var () "x") (.lit () (.str "stop")))
          [.ret () (some (.binary () (.arith .rem) (.lit () (.int 1)) (.lit () (.int 0))))] []],
       .ret () (some (.var () "x"))]⟩]⟩

theorem compile_preserves_meaning_waiting :
    ∃ r, (compile Library.empty .w64 waiting).outcome = .ok r ∧
      List.Forall₂
        (fun f g => g.name = ((Path.single "m").child f.name).linkName ∧ f.ImplementedBy r.scope .w64 g)
        (waiting.functions.filter (!·.isExternal)) r.module.definitions := by
  obtain ⟨r, hr⟩ := Outcome.exists_eq_ok
    (x := (compile Library.empty .w64 waiting).outcome) (by decide +kernel)
  exact ⟨r, hr, compile_preserves_meaning hr⟩

end BlockCompiler
