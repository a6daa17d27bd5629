import BlockCompiler.Proofs.Meaning.Points

/-!
# Code for statements does what they do

The code of a statement, run from the point where its emission began, follows the runs of the
statement: where a run goes on to the next statement, the code reaches the point where emission ended,
and where a run ends, the code ends alike. Conversely, whenever the code ends, there is a run that it
follows. Here loops are unrolled by induction on the number of blocks that the code runs through.
-/

namespace BlockCompiler

open Target Invocation

variable {τ : Type} {f : Frame} {P : Type} [DecidableEq P]

namespace Invocation

variable {x : Invocation f P} {b b' : Builder} {m : Memory f.width P} {h₀ : History f.width P}

variable (x) in
/-- After a test: control passes to one of two blocks if it has yielded a truth value. -/
def Decides (here : Nat → Option (History f.width P × Ending f.width P)) (thn els : BlockId)
    (v? : Option (Value f.width P)) (h₁ : History f.width P) : Prop :=
  ∃ m', x.Settled m' ∧
    ((∃ v, v? = some (.bool v) ∧ ∀ k, here k = run x.world x.blocks k (if v then thn else els) m' h₁) ∨
      (∀ v, v? ≠ some (.bool v)) ∧ ∀ k, here k = none)

section Segments

variable {e : Expr τ} {ty : Ty} {c : Code} {n : Nat} (hm : x.Ready b m) (ho : b.isOpen)
  (hn : f.signature.params.length ≤ b.nextReg)

include hm ho hn

private theorem advance_effect (h : e.EmitsEffect f b.nextReg c n)
    (ht : e.HasType f.scope f.signature ty) (he : (b.write c n).Within x.builder) :
    Advance (e.eval x.activation) h₀ (fun k => x.runAt b k m h₀) fun _ h₁ => ∃ m',
      x.Ready (b.write c n) m' ∧ ∀ k, x.runAt b k m h₀ = x.runAt (b.write c n) k m' h₁ := by
  have hrel := h.rel x.world x.length_args (b.isCurrent 0) x.params ht hn m hm.holds
    (hm.reserved_code ho he)
  refine (advance_write hm ho he hn hrel h₀).imp ?_
  intro _ _ hq
  obtain ⟨m', _, hm', hrun⟩ := hq
  exact ⟨m', hm', hrun⟩

private theorem advance_value {y : Operand} (h : e.Emits f b.nextReg y c n)
    (ht : e.HasType f.scope f.signature ty) (he : (b.write c n).Within x.builder) :
    Advance (e.eval x.activation) h₀ (fun k => x.runAt b k m h₀) fun v? h₁ => ∃ m',
      (∃ v, v? = some v ∧ m'.read y = some v) ∧ x.Ready (b.write c n) m' ∧
        ∀ k, x.runAt b k m h₀ = x.runAt (b.write c n) k m' h₁ :=
  advance_write (Q := fun v? m' => ∃ v, v? = some v ∧ m'.read y = some v) hm ho he hn
    (h.rel x.world x.length_args (b.isCurrent 0) ht hn m hm.holds (hm.reserved_code ho he)) h₀

/-- A test followed by a branch leads to the block for its outcome. -/
private theorem advance_test {y : Operand} {thn els : String} (h : e.Emits f b.nextReg y c n)
    (ht : e.HasType f.scope f.signature ty) (he : ((b.write c n).split y thn els).Within x.builder) :
    Advance (e.eval x.activation) h₀ (fun k => x.runAt b k m h₀)
      (x.Decides (fun k => x.runAt b k m h₀) ⟨b.blocks.length⟩ ⟨b.blocks.length + 1⟩) := by
  have hopen : (b.write c n).isOpen := by simpa
  have hw : (b.write c n).Within x.builder :=
    (Builder.extends_split y thn els hopen).within.trans he
  refine (advance_value hm ho hn h ht hw).imp ?_
  intro v? h₁ hq
  obtain ⟨m₁, ⟨v, rfl, hv⟩, hm₁, hrun⟩ := hq
  obtain ⟨m₂, hm₂, hregs, hrun₂⟩ := runAt_leaves hm₁ hopen (Builder.leaves_split _ y thn els) he
  have hread : m₂.read y = some v := (Memory.read_congr hregs y).trans hv
  rw [Builder.length_blocks_write] at hrun₂
  refine ⟨m₂, hm₂, ?_⟩
  cases v with
  | bool v =>
    refine .inl ⟨v, rfl, ?_⟩
    intro k
    exact (hrun k).trans ((hrun₂ k h₁).trans (complete_branch _ _ _ hread))
  | int | ptr =>
    refine .inr ⟨by simp, ?_⟩
    intro k
    exact (hrun k).trans ((hrun₂ k h₁).trans (complete_branch_eq_none _ _ _ (by simp [hread])))

/-- The code of a `return` returns what the statement does. -/
private theorem advance_ret {y y' : Operand} {c' : Code} {n' : Nat} (h : e.Emits f b.nextReg y c n)
    (hx : Coerces f.width ty f.signature.result n y y' c' n')
    (ht : e.HasType f.scope f.signature ty)
    (fits : ty = f.signature.result ∨ ty = .any ∨ f.signature.result = .any)
    (he : ((b.write (c ++ c') n').close (.ret (some y'))).Within x.builder) :
    Advance (e.evalReturn x.activation) h₀ (fun k => x.runAt b k m h₀) fun v? h₁ =>
      ∀ k, x.runAt b k m h₀ = some (h₁, .returned v?) := by
  have hopen : (b.write (c ++ c') n').isOpen := by simpa
  have hw := (Builder.extends_close (.ret (some y')) hopen).within.trans he
  have hrel := h.rel_evalReturn x.world x.length_args (b.isCurrent 0) hx ht fits hn m hm.holds
    (hm.reserved_code ho hw)
  refine (advance_write (Q := fun v? m' => ∃ v, v? = some v ∧ m'.read y' = some v) hm ho hw hn hrel
    h₀).imp ?_
  intro v? h₁ hq k
  obtain ⟨m₁, ⟨v, rfl, hv⟩, hm₁, hrun⟩ := hq
  obtain ⟨m₂, _, hregs, hrun₂⟩ := runAt_leaves hm₁ hopen (Builder.leaves_close _ _) he
  rw [hrun, hrun₂, complete_ret _ ((Memory.read_congr hregs y').trans hv)]

/-- The same where a call is returned that yields nothing. -/
private theorem advance_voidRet (h : e.EmitsEffect f b.nextReg c n)
    (ht : e.HasType f.scope f.signature .void)
    (he : ((b.write c n).close (.ret none)).Within x.builder) :
    Advance (e.evalReturn x.activation) h₀ (fun k => x.runAt b k m h₀) fun v? h₁ =>
      ∀ k, x.runAt b k m h₀ = some (h₁, .returned v?) := by
  have hopen : (b.write c n).isOpen := by simpa
  have hw := (Builder.extends_close (.ret none) hopen).within.trans he
  have hrel := h.rel_evalReturn x.world x.length_args (b.isCurrent 0) x.params ht hn m hm.holds
    (hm.reserved_code ho hw)
  refine (advance_write (Q := fun v? _ => v? = none) hm ho hw hn hrel h₀).imp ?_
  intro v? h₁ hq k
  obtain ⟨m₁, rfl, hm₁, hrun⟩ := hq
  obtain ⟨m₂, _, _, hrun₂⟩ := runAt_leaves hm₁ hopen (Builder.leaves_close _ _) he
  rw [hrun, hrun₂]
  rfl

end Segments

private theorem Decides.of_bool {here : Nat → Option (History f.width P × Ending f.width P)}
    {thn els : BlockId} {v : Bool} {h₁ : History f.width P}
    (h : x.Decides here thn els (some (.bool v)) h₁) :
    ∃ m', x.Settled m' ∧ ∀ k, here k = run x.world x.blocks k (if v then thn else els) m' h₁ := by
  obtain ⟨m', hm', ⟨v', hv, hrun⟩ | ⟨hne, _⟩⟩ := h
  · cases hv
    exact ⟨m', hm', hrun⟩
  · exact absurd rfl (hne v)

/-- If the run ends, the test has yielded a truth value. -/
private theorem Decides.of_run {here : Nat → Option (History f.width P × Ending f.width P)}
    {thn els : BlockId} {v? : Option (Value f.width P)} {h₁ : History f.width P} {n : Nat}
    {r : History f.width P × Ending f.width P} (h : x.Decides here thn els v? h₁)
    (hr : here n = some r) :
    ∃ m' v, x.Settled m' ∧ v? = some (.bool v) ∧
      run x.world x.blocks n (if v then thn else els) m' h₁ = some r := by
  obtain ⟨m', hm', ⟨v, hv, hrun⟩ | ⟨_, hrun⟩⟩ := h
  · exact ⟨m', v, hm', hv, (hrun n).symm.trans hr⟩
  · rw [hrun n] at hr
    cases hr

/-- Jumping to another block. -/
private theorem runAt_jump {id : BlockId} (hm : x.Ready b m) (ho : b.isOpen)
    (hl : b.Leaves (.jump id) b') (he : b'.Within x.builder) :
    ∃ m', x.Settled m' ∧ ∀ k calls, x.runAt b k m calls = run x.world x.blocks k id m' calls := by
  obtain ⟨m', hm', _, hrun⟩ := runAt_leaves hm ho hl he
  exact ⟨m', hm', hrun⟩

variable (x) in
/-- From `b` with memory `m`, the code goes on to the point of `b'`, which is in another block. -/
def Passes (b : Builder) (m : Memory f.width P) (b' : Builder) : Prop :=
  b'.isOpen ∧ ∃ m', x.Ready b' m' ∧ ∀ calls, x.runAt b 0 m calls = none ∧
    ∀ k, x.runAt b (k + 1) m calls = x.runAt b' k m' calls

/-- An arm that reaches its end goes on where the arms meet. -/
private theorem passes_join {b₁ : Builder} {m₁ m₂ : Option BlockId} (hm : x.Ready b m)
    (ho : b.isOpen) (hj : b.Joins m₁ b₁ m₂) (he : b₁.Within x.builder)
    (hb : ∀ id, m₂ = some id → b'.Begins id) (hw : b'.Within x.builder) : x.Passes b m b' := by
  have hjump : ∃ id m', m₂ = some id ∧ x.Settled m' ∧
      ∀ k calls, x.runAt b k m calls = run x.world x.blocks k id m' calls := by
    cases hj with
    | closed hf => simp [ho] at hf
    | first _ =>
      obtain ⟨m', hm', hrun⟩ := runAt_jump hm ho (Builder.leaves_close (b.add "merge") _).of_add he
      exact ⟨_, m', rfl, hm', hrun⟩
    | again _ =>
      obtain ⟨m', hm', hrun⟩ := runAt_jump hm ho (Builder.leaves_close b _) he
      exact ⟨_, m', rfl, hm', hrun⟩
  obtain ⟨id, m', hid, hm', hrun⟩ := hjump
  have hbegins := hb id hid
  refine ⟨hbegins.isOpen, m', hm'.ready hbegins.isCurrent_zero, ?_⟩
  intro calls
  refine ⟨(hrun 0 calls).trans rfl, ?_⟩
  intro k
  rw [hrun, run_standsAt hbegins.toStandsAt hw]

section Follows

variable (x) in
/-- A run of the source is followed by code: `here` runs it, and `b'` stands behind it. -/
def Follows (here : Nat → Option (History f.width P × Ending f.width P)) (b' : Builder) :
    Flow f.width P → Prop
  | .next h₁ => b'.isOpen ∧ ∃ m' d, x.Ready b' m' ∧ ∀ k, here (k + d) = x.runAt b' k m' h₁
  | .ended h₁ ending => ∃ k, here k = some (h₁, ending)

variable {here here' : Nat → Option (History f.width P × Ending f.width P)} {flow : Flow f.width P}

private theorem Follows.shift (d : Nat) (hf : x.Follows here' b' flow)
    (h : ∀ k, here (k + d) = here' k) :
    x.Follows here b' flow := by
  cases flow with
  | next h₁ =>
    obtain ⟨ho, m', d', hm', hrun⟩ := hf
    refine ⟨ho, m', d' + d, hm', ?_⟩
    intro k
    rw [← Nat.add_assoc, h, hrun]
  | ended h₁ ending =>
    obtain ⟨k, hk⟩ := hf
    exact ⟨k + d, (h k).trans hk⟩

private theorem Follows.passes {b₁ : Builder} (hf : x.Follows here b₁ flow)
    (h : ∀ m, x.Ready b₁ m → b₁.isOpen → x.Passes b₁ m b') : x.Follows here b' flow := by
  cases flow with
  | next h₁ =>
    obtain ⟨ho₁, m₁, d, hm₁, hrun⟩ := hf
    obtain ⟨ho, m', hm', hrun'⟩ := h m₁ hm₁ ho₁
    refine ⟨ho, m', d + 1, hm', ?_⟩
    intro k
    have hassoc : k + (d + 1) = k + 1 + d := by omega
    rw [hassoc, hrun, (hrun' h₁).2]
  | ended h₁ ending => exact hf

end Follows

section Reflects

variable (x) in
/-- Code that ends in `r` within `n` blocks, up to the point of `b'` or before, reflects a run of the
source. -/
def Reflects (runs : Flow f.width P → Prop) (n : Nat) (b' : Builder)
    (r : History f.width P × Ending f.width P) : Prop :=
  runs (.ended r.1 r.2) ∨
    ∃ h₁ m' k, runs (.next h₁) ∧ b'.isOpen ∧ x.Ready b' m' ∧ k ≤ n ∧ x.runAt b' k m' h₁ = some r

variable {runs runs' : Flow f.width P → Prop} {n n' : Nat} {r : History f.width P × Ending f.width P}

private theorem Reflects.imp (h : x.Reflects runs n b' r) (hruns : ∀ flow, runs flow → runs' flow)
    (hn : n ≤ n') : x.Reflects runs' n' b' r := by
  rcases h with h | ⟨h₁, m', k, h, ho, hm', hk, hrun⟩
  · exact .inl (hruns _ h)
  · exact .inr ⟨h₁, m', k, hruns _ h, ho, hm', by omega, hrun⟩

private theorem Reflects.passes {b₁ : Builder} (h : x.Reflects runs n b₁ r)
    (hp : ∀ m, x.Ready b₁ m → b₁.isOpen → x.Passes b₁ m b') : x.Reflects runs n b' r := by
  rcases h with h | ⟨h₁, m₁, k, h, ho₁, hm₁, hk, hrun⟩
  · exact .inl h
  · obtain ⟨ho, m', hm', hrun'⟩ := hp m₁ hm₁ ho₁
    cases k with
    | zero =>
      rw [(hrun' h₁).1] at hrun
      cases hrun
    | succ k =>
      rw [(hrun' h₁).2] at hrun
      exact .inr ⟨h₁, m', k, h, ho, hm', by omega, hrun⟩

end Reflects

variable (x) in
/-- The code from `b` to `b'` is part of the finished code. -/
structure Spans (b b' : Builder) : Prop where
  within : b'.Within x.builder
  isOpen : b.isOpen
  nextReg : f.signature.params.length ≤ b.nextReg

variable (x) in
/-- The code of a branch from `b` to `b'`: its blocks, and the points at the start and at the end of
its arms. -/
structure IsBranch (test : Expr τ) (thn els : BlockId) (b b₀ b₁ c₀ c₁ b' : Builder) : Prop where
  decides : ∀ {m h₀}, x.Ready b m →
    Advance (test.eval x.activation) h₀ (fun k => x.runAt b k m h₀)
      (x.Decides (fun k => x.runAt b k m h₀) thn els)
  enterThen : ∀ {m}, x.Settled m →
    x.Ready b₀ m ∧ ∀ k calls, run x.world x.blocks (k + 1) thn m calls = x.runAt b₀ k m calls
  enterElse : ∀ {m}, x.Settled m →
    x.Ready c₀ m ∧ ∀ k calls, run x.world x.blocks (k + 1) els m calls = x.runAt c₀ k m calls
  thenSpans : x.Spans b₀ b₁
  elseSpans : x.Spans c₀ c₁
  thenPasses : ∀ m, x.Ready b₁ m → b₁.isOpen → x.Passes b₁ m b'
  elsePasses : ∀ m, x.Ready c₁ m → c₁.isOpen → x.Passes c₁ m b'

variable (x) in
/-- The code of a loop: its blocks, the point `b₀` at the start of its body, the point `b₁` at the
end of its body, and the point `b'` behind it. -/
structure IsLoop (test : Expr τ) (header body exit : BlockId) (b₀ b₁ b' : Builder) : Prop where
  decides : ∀ {m h₀}, x.Settled m →
    Advance (test.eval x.activation) h₀ (fun k => run x.world x.blocks (k + 1) header m h₀)
      (x.Decides (fun k => run x.world x.blocks (k + 1) header m h₀) body exit)
  enter : ∀ {m}, x.Settled m →
    x.Ready b₀ m ∧ ∀ k calls, run x.world x.blocks (k + 1) body m calls = x.runAt b₀ k m calls
  spans : x.Spans b₀ b₁
  again : ∀ {m}, x.Ready b₁ m → b₁.isOpen → ∃ m', x.Settled m' ∧
    ∀ k calls, x.runAt b₁ k m calls = run x.world x.blocks k header m' calls
  isOpen : b'.isOpen
  leave : ∀ {m}, x.Settled m →
    x.Ready b' m ∧ ∀ k calls, run x.world x.blocks (k + 1) exit m calls = x.runAt b' k m calls

end Invocation

namespace Stmt

/-- The rounds of a loop. -/
inductive Rounds {w : Width} (a : Activation w P) (test : Expr τ) (body : List (Stmt τ)) :
    History w P → Flow w P → Prop where
  | exit {h₀ h₁ : History w P} (h : test.eval a h₀ = .ok (some (.bool false), h₁)) :
      Rounds a test body h₀ (.next h₁)
  | again {h₀ h₁ h₂ : History w P} {flow : Flow w P}
      (h : test.eval a h₀ = .ok (some (.bool true), h₁)) (round : RunsAll a body h₁ (.next h₂))
      (rest : Rounds a test body h₂ flow) : Rounds a test body h₀ flow
  | ended {h₀ h₁ h₂ : History w P} {ending : Ending w P}
      (h : test.eval a h₀ = .ok (some (.bool true), h₁))
      (round : RunsAll a body h₁ (.ended h₂ ending)) : Rounds a test body h₀ (.ended h₂ ending)
  | traps {h₀ h₁ : History w P} (h : test.eval a h₀ = .error (.trapped h₁)) :
      Rounds a test body h₀ (.ended h₁ .trapped)

private theorem Runs.rounds {w : Width} {a : Activation w P} {st : Stmt τ} {t : τ} {test : Expr τ}
    {body : List (Stmt τ)} {h₀ : History w P} {flow : Flow w P} :
    st.Runs a h₀ flow → st = .loop t test body → Rounds a test body h₀ flow
  | .loopExit _ h, rfl => .exit h
  | .loopAgain _ h round again, rfl => .again h round (again.rounds rfl)
  | .loopEnded _ h round, rfl => .ended h round
  | .loopTraps _ h, rfl => .traps h

end Stmt

namespace Invocation

variable {x : Invocation f P} {test : Expr τ} {body : List (Stmt τ)} {header bodyBlock exit : BlockId}
  {b₀ b₁ b' : Builder}

private theorem IsLoop.follows (hl : x.IsLoop test header bodyBlock exit b₀ b₁ b')
    (hbody : ∀ {m h₀ flow}, x.Ready b₀ m → Stmt.RunsAll x.activation body h₀ flow →
      x.Follows (fun k => x.runAt b₀ k m h₀) b₁ flow)
    {h₀ : History f.width P} {flow : Flow f.width P}
    (hr : Stmt.Rounds x.activation test body h₀ flow) (m : Memory f.width P) (hm : x.Settled m) :
    x.Follows (fun k => run x.world x.blocks k header m h₀) b' flow := by
  induction hr generalizing m with
  | @exit h₀ h₁ h =>
    obtain ⟨m₁, hm₁, hrun⟩ := ((hl.decides hm).of_ok h).of_bool
    obtain ⟨hready, hexit⟩ := hl.leave hm₁
    refine ⟨hl.isOpen, m₁, 2, hready, ?_⟩
    intro k
    exact (hrun (k + 1)).trans (hexit k h₁)
  | @again h₀ h₁ h₂ flow h round _ ih =>
    obtain ⟨m₁, hm₁, hrun⟩ := ((hl.decides hm).of_ok h).of_bool
    obtain ⟨hready, henter⟩ := hl.enter hm₁
    obtain ⟨ho₁, m₂, d, hm₂, hround⟩ := hbody hready round
    obtain ⟨m₃, hm₃, hagain⟩ := hl.again hm₂ ho₁
    refine (ih m₃ hm₃).shift (d + 2) ?_
    intro k
    exact (hrun (k + d + 1)).trans ((henter (k + d) h₁).trans ((hround k).trans (hagain k h₂)))
  | @ended h₀ h₁ h₂ ending h round =>
    obtain ⟨m₁, hm₁, hrun⟩ := ((hl.decides hm).of_ok h).of_bool
    obtain ⟨hready, henter⟩ := hl.enter hm₁
    obtain ⟨k, hk⟩ := hbody hready round
    exact ⟨k + 2, (hrun (k + 1)).trans ((henter k h₁).trans hk)⟩
  | @traps h₀ h₁ h => exact ⟨1, (hl.decides hm).of_trapped h 0⟩

private theorem IsLoop.reflects {t : τ} (hl : x.IsLoop test header bodyBlock exit b₀ b₁ b')
    (hbody : ∀ {m h₀ n r}, x.Ready b₀ m → x.runAt b₀ n m h₀ = some r →
      x.Reflects (Stmt.RunsAll x.activation body h₀) n b₁ r)
    {r : History f.width P × Ending f.width P} (n : Nat) (h₀ : History f.width P)
    (m : Memory f.width P) (hm : x.Settled m)
    (hr : run x.world x.blocks n header m h₀ = some r) :
    x.Reflects (Stmt.Runs x.activation (.loop t test body) h₀) n b' r := by
  -- every round passes the header, so what is left of the run gets shorter
  induction n using Nat.strongRecOn generalizing h₀ m with
  | ind n ih =>
    cases n with
    | zero => cases hr
    | succ n =>
      rcases (hl.decides hm).of_run hr with ⟨v?, h₁, hv, hdec⟩ | ⟨h₁, hv, rfl⟩
      · obtain ⟨m₁, v, hm₁, rfl, hrun⟩ := hdec.of_run hr
        cases n with
        | zero => cases hrun
        | succ n =>
          cases v with
          | false =>
            obtain ⟨hready, hexit⟩ := hl.leave hm₁
            exact .inr ⟨h₁, m₁, n, .loopExit t hv, hl.isOpen, hready, by omega,
              (hexit n h₁).symm.trans hrun⟩
          | true =>
            obtain ⟨hready, henter⟩ := hl.enter hm₁
            rcases hbody hready ((henter n h₁).symm.trans hrun) with
              hround | ⟨h₂, m₂, k, hround, ho₁, hm₂, hk, hrun₂⟩
            · exact .inl (.loopEnded t hv hround)
            · obtain ⟨m₃, hm₃, hagain⟩ := hl.again hm₂ ho₁
              have hrest := ih k (by omega) h₂ m₃ hm₃ ((hagain k h₂).symm.trans hrun₂)
              exact hrest.imp (fun flow hflow => .loopAgain t hv hround hflow) (by omega)
      · exact .inl (.loopTraps t hv)

private theorem IsBranch.follows {thn els : List (Stmt τ)} {t : τ} {thenBlock elseBlock : BlockId}
    {b c₀ c₁ : Builder} (hb : x.IsBranch test thenBlock elseBlock b b₀ b₁ c₀ c₁ b')
    (hthn : ∀ {m h₀ flow}, x.Ready b₀ m → Stmt.RunsAll x.activation thn h₀ flow →
      x.Follows (fun k => x.runAt b₀ k m h₀) b₁ flow)
    (hels : ∀ {m h₀ flow}, x.Ready c₀ m → Stmt.RunsAll x.activation els h₀ flow →
      x.Follows (fun k => x.runAt c₀ k m h₀) c₁ flow)
    {h₀ : History f.width P} {flow : Flow f.width P} {m : Memory f.width P} (hm : x.Ready b m)
    (hr : Stmt.Runs x.activation (.branch t test thn els) h₀ flow) :
    x.Follows (fun k => x.runAt b k m h₀) b' flow := by
  cases hr with
  | branchThen _ h arm =>
    obtain ⟨m₁, hm₁, hrun⟩ := ((hb.decides hm).of_ok h).of_bool
    obtain ⟨hready, henter⟩ := hb.enterThen hm₁
    refine ((hthn hready arm).passes hb.thenPasses).shift 1 ?_
    intro k
    exact (hrun (k + 1)).trans (henter k _)
  | branchElse _ h arm =>
    obtain ⟨m₁, hm₁, hrun⟩ := ((hb.decides hm).of_ok h).of_bool
    obtain ⟨hready, henter⟩ := hb.enterElse hm₁
    refine ((hels hready arm).passes hb.elsePasses).shift 1 ?_
    intro k
    exact (hrun (k + 1)).trans (henter k _)
  | branchTraps _ h => exact ⟨0, (hb.decides hm).of_trapped h 0⟩

private theorem IsBranch.reflects {thn els : List (Stmt τ)} {t : τ} {thenBlock elseBlock : BlockId}
    {b c₀ c₁ : Builder} (hb : x.IsBranch test thenBlock elseBlock b b₀ b₁ c₀ c₁ b')
    (hthn : ∀ {m h₀ n r}, x.Ready b₀ m → x.runAt b₀ n m h₀ = some r →
      x.Reflects (Stmt.RunsAll x.activation thn h₀) n b₁ r)
    (hels : ∀ {m h₀ n r}, x.Ready c₀ m → x.runAt c₀ n m h₀ = some r →
      x.Reflects (Stmt.RunsAll x.activation els h₀) n c₁ r)
    {n : Nat} {h₀ : History f.width P} {r : History f.width P × Ending f.width P}
    {m : Memory f.width P} (hm : x.Ready b m) (hr : x.runAt b n m h₀ = some r) :
    x.Reflects (Stmt.Runs x.activation (.branch t test thn els) h₀) n b' r := by
  rcases (hb.decides hm).of_run hr with ⟨v?, h₁, hv, hdec⟩ | ⟨h₁, hv, rfl⟩
  · obtain ⟨m₁, v, hm₁, rfl, hrun⟩ := hdec.of_run hr
    cases n with
    | zero => cases hrun
    | succ n =>
      cases v with
      | true =>
        obtain ⟨hready, henter⟩ := hb.enterThen hm₁
        have harm := (hthn hready ((henter n h₁).symm.trans hrun)).passes hb.thenPasses
        exact harm.imp (fun _ hflow => .branchThen t hv hflow) (by omega)
      | false =>
        obtain ⟨hready, henter⟩ := hb.enterElse hm₁
        have harm := (hels hready ((henter n h₁).symm.trans hrun)).passes hb.elsePasses
        exact harm.imp (fun _ hflow => .branchElse t hv hflow) (by omega)
  · exact .inl (.branchTraps t hv)

section Emission

variable {b : Builder} {y : Operand} {c : Code} {n : Nat}

private theorem isBranch_of_emitted {thn els : List (Stmt τ)} {b₁' b₂ b₂' : Builder}
    {m₁ m₂ : Option BlockId} (h : test.Emits f b.nextReg y c n)
    (hthn : Stmt.EmittedAll f thn ((b.write c n).split y "then" "else") b₁)
    (j₁ : b₁.Joins none b₁' m₁) (hels : Stmt.EmittedAll f els (b₁'.moveTo ⟨b.blocks.length + 1⟩) b₂)
    (j₂ : b₂.Joins m₁ b₂' m₂) (ht : test.HasType f.scope f.signature .bool)
    (hs : x.Spans b (b₂'.resume m₂)) :
    x.IsBranch test ⟨b.blocks.length⟩ ⟨b.blocks.length + 1⟩ b ((b.write c n).split y "then" "else") b₁
      (b₁'.moveTo ⟨b.blocks.length + 1⟩) b₂ (b₂'.resume m₂) := by
  obtain ⟨hw, ho, hn⟩ := hs
  have hopen : (b.write c n).isOpen := by simpa
  -- every step on the way to the end of the branch is part of the finished code
  have hw₂' := (Builder.within_resume b₂' m₂).trans hw
  have hw₂ := j₂.extends.within.trans hw₂'
  have hwe := hels.extends.within.trans hw₂
  have hw₁' := (Builder.within_moveTo b₁' _).trans hwe
  have hw₁ := j₁.extends.within.trans hw₁'
  have hws := hthn.extends.within.trans hw₁
  have hns : f.signature.params.length ≤ ((b.write c n).split y "then" "else").nextReg := by
    simpa using Nat.le_trans hn h.le
  have hne := Nat.le_trans hns (hthn.extends.trans j₁.extends).nextReg_le
  have hawaits := j₂.awaits ((hthn.awaits_else j₁).of_extends hels.extends)
  have hmerge : ∀ id, m₂ = some id → (b₂'.resume m₂).Begins id := by
    intro id hid
    subst hid
    exact (hawaits id rfl).begins
  have hthen := Builder.begins_split y "then" "else" hopen
  rw [Builder.length_blocks_write] at hthen
  have helse := (hthn.blank_else j₁ ho).begins (b := b₁')
  refine ⟨fun hm => advance_test hm ho hn h ht hws, fun hm => hm.begins hthen hws,
    fun hm => hm.begins helse hwe, ⟨hw₁, hthen.isOpen, hns⟩, ⟨hw₂, helse.isOpen, hne⟩,
    fun m hm ho₁ => ?_, fun m hm ho₂ => passes_join hm ho₂ j₂ hw₂' hmerge hw⟩
  · refine passes_join hm ho₁ j₁ hw₁' ?_ hw
    intro id hid
    subst hid
    exact hmerge id j₂.eq_some

omit [DecidableEq P] in
/-- The header of a loop is part of the finished code. -/
private theorem within_header (h : test.Emits f b.nextReg y c n)
    (hbody : Stmt.EmittedAll f body
      (((b.proceed "loop.header").write c n).split y "loop.body" "loop.exit") b₁) (ho : b.isOpen)
    (hw : ((b₁.closeOpen (.jump ⟨b.blocks.length⟩)).moveTo ⟨b.blocks.length + 2⟩).Within x.builder) :
    (b.proceed "loop.header").Within x.builder := by
  have hheader := Builder.isOpen_proceed "loop.header" ho
  have hle : (b.proceed "loop.header").nextReg ≤ n := by simpa using h.le
  have hext := ((Builder.extends_write c hheader hle).trans (Builder.extends_split y "loop.body"
    "loop.exit" (by simpa))).trans
    (hbody.extends.trans (Builder.extends_closeOpen b₁ (.jump ⟨b.blocks.length⟩)))
  exact hext.within.trans ((Builder.within_moveTo _ _).trans hw)

private theorem isLoop_of_emitted (h : test.Emits f b.nextReg y c n)
    (hbody : Stmt.EmittedAll f body
      (((b.proceed "loop.header").write c n).split y "loop.body" "loop.exit") b₁)
    (ht : test.HasType f.scope f.signature .bool)
    (hs : x.Spans b
      ((b₁.closeOpen (.jump ⟨b.blocks.length⟩)).moveTo ⟨b.blocks.length + 2⟩)) :
    x.IsLoop test ⟨b.blocks.length⟩ ⟨b.blocks.length + 1⟩ ⟨b.blocks.length + 2⟩
      (((b.proceed "loop.header").write c n).split y "loop.body" "loop.exit") b₁
      ((b₁.closeOpen (.jump ⟨b.blocks.length⟩)).moveTo ⟨b.blocks.length + 2⟩) := by
  obtain ⟨hw, ho, hn⟩ := hs
  have hwc := (Builder.within_moveTo (b₁.closeOpen (.jump ⟨b.blocks.length⟩)) ⟨_⟩).trans hw
  have hw₁ := (Builder.extends_closeOpen b₁ _).within.trans hwc
  have hws := hbody.extends.within.trans hw₁
  have hheader := Builder.isOpen_proceed "loop.header" ho
  have hopen : ((b.proceed "loop.header").write c n).isOpen := by simpa
  have hwh := within_header h hbody ho hw
  have hns : f.signature.params.length ≤ n := Nat.le_trans hn h.le
  have hbegins := Builder.begins_proceed "loop.header" ho
  have hround := Builder.begins_split y "loop.body" "loop.exit" hopen
  rw [Builder.length_blocks_write, Builder.length_blocks_proceed] at hround
  have hexit : Builder.Begins _ ⟨b.blocks.length + 2⟩ := (hbody.blank_exit ho).begins
  refine ⟨fun {m h₀} hm => ?_, fun hm => hm.begins hround hws, ⟨hw₁, hround.isOpen, by simpa⟩,
    fun {m} hm ho₁ => ?_, hexit.isOpen, fun hm => hm.begins hexit hw⟩
  · obtain ⟨hready, hrun⟩ := hm.begins hbegins hwh
    simp only [hrun]
    have hadv : Advance _ h₀ _ _ := advance_test hready hheader (by simpa) (by simpa using h) ht hws
    rwa [Builder.length_blocks_proceed] at hadv
  · refine runAt_jump hm ho₁ ?_ hwc
    rw [Builder.closeOpen, if_pos ho₁]
    exact Builder.leaves_close b₁ _

/-- A loop begins with a jump to its header. -/
private theorem Spans.runAt_header {m : Memory f.width P} (h : test.Emits f b.nextReg y c n)
    (hbody : Stmt.EmittedAll f body
      (((b.proceed "loop.header").write c n).split y "loop.body" "loop.exit") b₁)
    (hs : x.Spans b ((b₁.closeOpen (.jump ⟨b.blocks.length⟩)).moveTo ⟨b.blocks.length + 2⟩))
    (hm : x.Ready b m) :
    ∃ m', x.Settled m' ∧
      ∀ k calls, x.runAt b k m calls = run x.world x.blocks k ⟨b.blocks.length⟩ m' calls :=
  runAt_jump hm hs.isOpen (Builder.leaves_proceed b "loop.header")
    (within_header h hbody hs.isOpen hs.within)

end Emission

end Invocation

namespace Stmt

variable {x : Invocation f P}

mutual

/-- The code of a statement follows its runs. -/
private theorem Emitted.follows {st : Stmt τ} {b b' : Builder} : st.Emitted f b b' →
    st.WellTyped f.scope f.signature → x.Spans b b' →
    ∀ {m : Memory f.width P} {h₀ : History f.width P} {flow : Flow f.width P}, x.Ready b m →
      st.Runs x.activation h₀ flow → x.Follows (fun k => x.runAt b k m h₀) b' flow
  | .effect t h, ht, ⟨hw, ho, hn⟩, m, h₀, flow, hm, hr => by
    cases ht with
    | effect _ ht =>
      cases hr with
      | effect _ he =>
        obtain ⟨m', hm', hrun⟩ := (advance_effect hm ho hn h ht hw).of_ok he
        exact ⟨by simpa, m', 0, hm', hrun⟩
      | effectTraps _ he => exact ⟨0, (advance_effect hm ho hn h ht hw).of_trapped he 0⟩
  | .bareRet t b, _, ⟨hw, ho, _⟩, m, h₀, flow, hm, hr => by
    cases hr
    obtain ⟨m', _, _, hrun⟩ := runAt_leaves hm ho (Builder.leaves_close b _) hw
    exact ⟨0, hrun 0 h₀⟩
  | .voidRet t ha h, ht, ⟨hw, ho, hn⟩, m, h₀, flow, hm, hr => by
    cases ht with
    | ret _ ht _ _ =>
      cases ht.eq_of_ascribedType? ha
      cases hr with
      | ret _ he => exact ⟨0, (advance_voidRet hm ho hn h ht hw).of_ok he 0⟩
      | retTraps _ he => exact ⟨0, (advance_voidRet hm ho hn h ht hw).of_trapped he 0⟩
  | .ret t ha _ h hc, ht, ⟨hw, ho, hn⟩, m, h₀, flow, hm, hr => by
    cases ht with
    | ret _ ht fits _ =>
      cases ht.eq_of_ascribedType? ha
      cases hr with
      | ret _ he => exact ⟨0, (advance_ret hm ho hn h hc ht fits hw).of_ok he 0⟩
      | retTraps _ he => exact ⟨0, (advance_ret hm ho hn h hc ht fits hw).of_trapped he 0⟩
  | .branch t h hthn j₁ hels j₂, ht, hs, m, h₀, flow, hm, hr => by
    cases ht with
    | branch _ ht htthn htels =>
      have hb := isBranch_of_emitted h hthn j₁ hels j₂ ht hs
      exact hb.follows (hthn.follows htthn hb.thenSpans) (hels.follows htels hb.elseSpans) hm hr
  | @Emitted.loop _ _ _ _ _ b b₁ _ _ _ h hbody, ht, hs, m, h₀, flow, hm, hr => by
    cases ht with
    | loop _ ht htbody =>
      have hl := isLoop_of_emitted h hbody ht hs
      obtain ⟨m₁, hm₁, hrun⟩ := hs.runAt_header h hbody hm
      refine (hl.follows (hbody.follows htbody hl.spans) (hr.rounds rfl) m₁ hm₁).shift 0 ?_
      intro k
      exact hrun k h₀

theorem EmittedAll.follows {sts : List (Stmt τ)} {b b' : Builder} : EmittedAll f sts b b' →
    AllWellTyped f.scope f.signature sts → x.Spans b b' →
    ∀ {m : Memory f.width P} {h₀ : History f.width P} {flow : Flow f.width P}, x.Ready b m →
      RunsAll x.activation sts h₀ flow → x.Follows (fun k => x.runAt b k m h₀) b' flow
  | .nil b, _, hs, m, h₀, flow, hm, hr => by
    cases hr
    exact ⟨hs.isOpen, m, 0, hm, fun _ => rfl⟩
  | .dead hf, _, hs, m, h₀, flow, hm, hr => by
    simp [hs.isOpen] at hf
  | .cons _ hst hsts, ht, ⟨hw, ho, hn⟩, m, h₀, flow, hm, hr => by
    cases ht with
    | cons ht hts =>
      have hs : x.Spans _ _ := ⟨hsts.extends.within.trans hw, ho, hn⟩
      cases hr with
      | ended h => exact hst.follows ht hs hm h
      | cons h rest =>
        obtain ⟨ho₁, m₁, d, hm₁, hrun⟩ := hst.follows ht hs hm h
        have hn₁ := Nat.le_trans hn (hst.extends ho).nextReg_le
        exact (hsts.follows hts ⟨hw, ho₁, hn₁⟩ hm₁ rest).shift d hrun

end

mutual

/-- When the code of a statement ends, it has followed a run of the statement. -/
private theorem Emitted.reflects {st : Stmt τ} {b b' : Builder} : st.Emitted f b b' →
    st.WellTyped f.scope f.signature → x.Spans b b' →
    ∀ {m : Memory f.width P} {h₀ : History f.width P} {n : Nat}
      {r : History f.width P × Ending f.width P}, x.Ready b m → x.runAt b n m h₀ = some r →
      x.Reflects (st.Runs x.activation h₀) n b' r
  | .effect t h, ht, ⟨hw, ho, hn⟩, m, h₀, n, r, hm, hr => by
    cases ht with
    | effect _ ht =>
      rcases (advance_effect hm ho hn h ht hw).of_run hr with ⟨_, h₁, he, m', hm', hrun⟩ | ⟨h₁, he, rfl⟩
      · exact .inr ⟨h₁, m', n, .effect t he, by simpa, hm', Nat.le_refl n, (hrun n).symm.trans hr⟩
      · exact .inl (.effectTraps t he)
  | .bareRet t b, _, ⟨hw, ho, _⟩, m, h₀, n, r, hm, hr => by
    obtain ⟨m', _, _, hrun⟩ := runAt_leaves hm ho (Builder.leaves_close b _) hw
    cases (hrun n h₀).symm.trans hr
    exact .inl (.bareRet t h₀)
  | .voidRet t ha h, ht, ⟨hw, ho, hn⟩, m, h₀, n, r, hm, hr => by
    cases ht with
    | ret _ ht _ _ =>
      cases ht.eq_of_ascribedType? ha
      rcases (advance_voidRet hm ho hn h ht hw).of_run hr with ⟨_, h₁, he, hrun⟩ | ⟨h₁, he, rfl⟩
      · cases (hrun n).symm.trans hr
        exact .inl (.ret t he)
      · exact .inl (.retTraps t he)
  | .ret t ha _ h hc, ht, ⟨hw, ho, hn⟩, m, h₀, n, r, hm, hr => by
    cases ht with
    | ret _ ht fits _ =>
      cases ht.eq_of_ascribedType? ha
      rcases (advance_ret hm ho hn h hc ht fits hw).of_run hr with ⟨_, h₁, he, hrun⟩ | ⟨h₁, he, rfl⟩
      · cases (hrun n).symm.trans hr
        exact .inl (.ret t he)
      · exact .inl (.retTraps t he)
  | .branch t h hthn j₁ hels j₂, ht, hs, m, h₀, n, r, hm, hr => by
    cases ht with
    | branch _ ht htthn htels =>
      have hb := isBranch_of_emitted h hthn j₁ hels j₂ ht hs
      exact hb.reflects (hthn.reflects htthn hb.thenSpans) (hels.reflects htels hb.elseSpans) hm hr
  | .loop t h hbody, ht, hs, m, h₀, n, r, hm, hr => by
    cases ht with
    | loop _ ht htbody =>
      have hl := isLoop_of_emitted h hbody ht hs
      obtain ⟨m₁, hm₁, hrun⟩ := hs.runAt_header h hbody hm
      exact hl.reflects (hbody.reflects htbody hl.spans) n h₀ m₁ hm₁ ((hrun n h₀).symm.trans hr)

theorem EmittedAll.reflects {sts : List (Stmt τ)} {b b' : Builder} : EmittedAll f sts b b' →
    AllWellTyped f.scope f.signature sts → x.Spans b b' →
    ∀ {m : Memory f.width P} {h₀ : History f.width P} {n : Nat}
      {r : History f.width P × Ending f.width P}, x.Ready b m → x.runAt b n m h₀ = some r →
      x.Reflects (RunsAll x.activation sts h₀) n b' r
  | .nil b, _, hs, m, h₀, n, r, hm, hr =>
    .inr ⟨h₀, m, n, .nil h₀, hs.isOpen, hm, Nat.le_refl n, hr⟩
  | .dead hf, _, hs, m, h₀, n, r, hm, hr => by
    simp [hs.isOpen] at hf
  | .cons _ hst hsts, ht, ⟨hw, ho, hn⟩, m, h₀, n, r, hm, hr => by
    cases ht with
    | cons ht hts =>
      rcases hst.reflects ht ⟨hsts.extends.within.trans hw, ho, hn⟩ hm hr with
        h | ⟨h₁, m₁, k, h, ho₁, hm₁, hk, hrun⟩
      · exact .inl (.ended h)
      · have hn₁ := Nat.le_trans hn (hst.extends ho).nextReg_le
        exact (hsts.reflects hts ⟨hw, ho₁, hn₁⟩ hm₁ hrun).imp (fun _ hflow => .cons h hflow) hk

end

end Stmt

end BlockCompiler
