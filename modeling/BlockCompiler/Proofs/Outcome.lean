import BlockCompiler.Trace.Traced
import Mathlib.Data.List.Forall2

/-!
# Computations that may fail

A computation that may fail succeeds just when its steps do, one after the other. Over a list, it
succeeds just when it does on every element, and the results are then paired with the elements. To put
its error another way is to do so in each of its steps.
-/

namespace BlockCompiler

variable {ε ε' α β : Type}

section Paired

variable {R : α → β → Prop} {l : List α} {l' : List β}

theorem exists_right_of_forall₂ (h : List.Forall₂ R l l') {a : α} (ha : a ∈ l) :
    ∃ b ∈ l', R a b := by
  induction h with
  | nil => cases ha
  | @cons _ b _ _ hab _ ih =>
    rcases List.mem_cons.1 ha with rfl | ha
    · exact ⟨b, List.mem_cons_self, hab⟩
    · obtain ⟨b', hb', hr⟩ := ih ha
      exact ⟨b', List.mem_cons_of_mem b hb', hr⟩

theorem exists_left_of_forall₂ (h : List.Forall₂ R l l') {b : β} (hb : b ∈ l') : ∃ a ∈ l, R a b :=
  exists_right_of_forall₂ h.flip hb

theorem exists_forall₂ : (∃ l', List.Forall₂ R l l') ↔ ∀ a ∈ l, ∃ b, R a b := by
  constructor
  · intro h a ha
    obtain ⟨l', h⟩ := h
    obtain ⟨b, _, hab⟩ := exists_right_of_forall₂ h ha
    exact ⟨b, hab⟩
  · intro h
    induction l with
    | nil => exact ⟨[], .nil⟩
    | cons a l ih =>
      obtain ⟨⟨b, hab⟩, hl⟩ := List.forall_mem_cons.1 h
      obtain ⟨l', hl'⟩ := ih hl
      exact ⟨b :: l', .cons hab hl'⟩

theorem forall₂_comp {γ : Type} {S : β → γ → Prop} {l'' : List γ} (h : List.Forall₂ R l l')
    (h' : List.Forall₂ S l' l'') : List.Forall₂ (fun a c => ∃ b, R a b ∧ S b c) l l'' := by
  induction h generalizing l'' with
  | nil =>
    cases h'
    exact .nil
  | @cons a b _ _ hab _ ih =>
    cases h' with
    | cons hbc h' => exact .cons ⟨b, hab, hbc⟩ (ih h')

theorem forall₂_imp_of_mem {S : α → β → Prop} (h : List.Forall₂ R l l')
    (hS : ∀ a ∈ l, ∀ b, R a b → S a b) : List.Forall₂ S l l' := by
  have hmem := (List.forall₂_and_left _ _).2 ⟨fun a (ha : a ∈ l) => ha, h⟩
  exact hmem.imp fun a b hab => hS a hab.1 b hab.2

end Paired

namespace Outcome

theorem bind_eq_ok {x : Except ε α} {g : α → Except ε β} {b : β} :
    x >>= g = .ok b ↔ ∃ a, x = .ok a ∧ g a = .ok b := by
  cases x <;> simp [bind, Except.bind]

theorem bind_eq_error {x : Except ε α} {g : α → Except ε β} {e : ε} :
    x >>= g = .error e ↔ x = .error e ∨ ∃ a, x = .ok a ∧ g a = .error e := by
  cases x <;> simp [bind, Except.bind]

theorem ok_bind {x : Except ε α} {a : α} (g : α → Except ε β) (h : x = .ok a) :
    x >>= g = g a := by
  rw [h]
  rfl

theorem exists_eq_ok {x : Except ε α} (h : x.isOk) : ∃ a, x = .ok a := by
  cases x with
  | error e => cases h
  | ok a => exact ⟨a, rfl⟩

theorem exists_of_map_eq_ok {x : Except ε α} {g : α → β} {b : β} (h : x.map g = .ok b) :
    ∃ a, x = .ok a ∧ g a = b := by
  cases x with
  | ok a => exact ⟨a, rfl, Except.ok.inj h⟩
  | error e => cases h

theorem eq_error_of_map {x : Except ε α} {g : α → β} {e : ε} (h : x.map g = .error e) :
    x = .error e := by
  cases x with
  | error e' =>
    cases h
    rfl
  | ok a => cases h

private theorem pure_eq_ok {a b : α} : (pure a : Except ε α) = .ok b ↔ a = b := by
  simp [pure, Except.pure]

private theorem mapError_ok (g : ε → ε') (a : α) : (Except.ok a).mapError g = .ok a := rfl

theorem mapError_error (g : ε → ε') (e : ε) :
    (Except.error e : Except ε α).mapError g = .error (g e) := rfl

theorem mapError_eq_ok {x : Except ε α} {g : ε → ε'} {a : α} :
    x.mapError g = .ok a ↔ x = .ok a := by
  cases x <;> simp [mapError_ok, mapError_error]

theorem mapError_eq_error {x : Except ε α} {g : ε → ε'} {e : ε'} :
    x.mapError g = .error e ↔ ∃ e', x = .error e' ∧ g e' = e := by
  cases x <;> simp [mapError_ok, mapError_error]

section MapError

variable (h : ε → ε')

theorem mapError_bind (x : Except ε α) (c : α → Except ε β) :
    (x >>= c).mapError h = x.mapError h >>= fun a => (c a).mapError h := by
  cases x <;> rfl

theorem mapError_map (k : α → β) (x : Except ε α) :
    (k <$> x).mapError h = k <$> x.mapError h := by
  cases x <;> rfl

theorem mapError_mapError {ε'' : Type} (k : ε' → ε'') (x : Except ε α) :
    (x.mapError h).mapError k = x.mapError fun e => k (h e) := by
  cases x <;> rfl

end MapError

theorem mapM_eq_ok {g : α → Except ε β} {l : List α} {l' : List β} :
    l.mapM g = .ok l' ↔ List.Forall₂ (fun a b => g a = .ok b) l l' := by
  induction l generalizing l' with
  | nil =>
    rw [List.mapM_nil, pure_eq_ok, List.forall₂_nil_left_iff]
    exact eq_comm
  | cons a l ih =>
    simp only [List.mapM_cons, bind_eq_ok, pure_eq_ok, ih, List.forall₂_cons_left_iff]
    constructor
    · intro h
      obtain ⟨b, hb, bs, hbs, rfl⟩ := h
      exact ⟨b, bs, hb, hbs, rfl⟩
    · intro h
      obtain ⟨b, bs, hb, hbs, rfl⟩ := h
      exact ⟨b, hb, bs, hbs, rfl⟩

/-- Over a list, the first element that fails decides the error. -/
theorem mapM_eq_error {g : α → Except ε β} {l : List α} {e : ε} :
    l.mapM g = .error e ↔ ∃ (i : Nat) (a : α), l[i]? = some a ∧ g a = .error e ∧
      ∀ j < i, ∀ a', l[j]? = some a' → ∃ b, g a' = .ok b := by
  induction l with
  | nil => simp [List.mapM_nil, pure, Except.pure]
  | cons a l ih =>
    simp only [List.mapM_cons, bind_eq_error, ih]
    constructor
    · rintro (h | ⟨b, hb, h⟩)
      · exact ⟨0, a, rfl, h, by simp⟩
      · rcases h with ⟨i, a', hi, he, hbefore⟩ | ⟨_, _, h⟩
        · refine ⟨i + 1, a', hi, he, ?_⟩
          intro j hj a'' ha''
          cases j with
          | zero =>
            cases ha''
            exact ⟨b, hb⟩
          | succ j => exact hbefore j (Nat.lt_of_succ_lt_succ hj) a'' ha''
        · cases h
    · rintro ⟨i, a', hi, he, hbefore⟩
      cases i with
      | zero =>
        cases hi
        exact .inl he
      | succ i =>
        obtain ⟨b, hb⟩ := hbefore 0 (Nat.succ_pos i) a rfl
        refine .inr ⟨b, hb, .inl ⟨i, a', hi, he, ?_⟩⟩
        intro j hj a'' ha''
        exact hbefore (j + 1) (Nat.succ_lt_succ hj) a'' ha''

theorem exists_mapM_eq_ok {g : α → Except ε β} {l : List α} :
    (∃ l', l.mapM g = .ok l') ↔ ∀ a ∈ l, ∃ b, g a = .ok b := by
  simp only [mapM_eq_ok]
  exact exists_forall₂

end Outcome

namespace Traced

theorem bind_eq_ok {x : Traced ε α} {g : α → Traced ε β} {b : β} :
    (x >>= g).outcome = .ok b ↔ ∃ a, x.outcome = .ok a ∧ (g a).outcome = .ok b := by
  rw [outcome_bind, Outcome.bind_eq_ok]

theorem bind_eq_error {x : Traced ε α} {g : α → Traced ε β} {e : ε} :
    (x >>= g).outcome = .error e ↔
      x.outcome = .error e ∨ ∃ a, x.outcome = .ok a ∧ (g a).outcome = .error e := by
  rw [outcome_bind, Outcome.bind_eq_error]

theorem outcome_bind_of_ok {x : Traced ε α} {a : α} (g : α → Traced ε β) (h : x.outcome = .ok a) :
    (x >>= g).outcome = (g a).outcome := by
  rw [outcome_bind, Outcome.ok_bind _ h]

theorem mapM_eq_ok {g : α → Traced ε β} {l : List α} {l' : List β} :
    (l.mapM g).outcome = .ok l' ↔ List.Forall₂ (fun a b => (g a).outcome = .ok b) l l' := by
  induction l generalizing l' with
  | nil =>
    rw [List.mapM_nil, outcome_pure, List.forall₂_nil_left_iff, Except.ok.injEq]
    exact eq_comm
  | cons a l ih =>
    simp only [List.mapM_cons, bind_eq_ok, outcome_pure, ih, List.forall₂_cons_left_iff,
      Except.ok.injEq]
    constructor
    · intro h
      obtain ⟨b, hb, bs, hbs, rfl⟩ := h
      exact ⟨b, bs, hb, hbs, rfl⟩
    · intro h
      obtain ⟨b, bs, hb, hbs, rfl⟩ := h
      exact ⟨b, hb, bs, hbs, rfl⟩

/-- Over a list, the first element that fails decides the error. -/
theorem exists_of_mapM_eq_error {g : α → Traced ε β} {l : List α} {e : ε}
    (h : (l.mapM g).outcome = .error e) : ∃ a ∈ l, (g a).outcome = .error e := by
  induction l with
  | nil => cases h
  | cons a l ih =>
    simp only [List.mapM_cons, bind_eq_error, outcome_pure, reduceCtorEq, and_false, exists_false,
      or_false] at h
    rcases h with h | ⟨_, _, h⟩
    · exact ⟨a, List.mem_cons_self, h⟩
    · obtain ⟨a', ha', h⟩ := ih h
      exact ⟨a', List.mem_cons_of_mem a ha', h⟩

theorem forM_cons (g : α → Traced ε PUnit) (a : α) (l : List α) :
    (a :: l).forM g = g a >>= fun _ => l.forM g := rfl

/-- Of the steps that are taken one by one, the first that fails decides the error. -/
theorem forM_eq_error {g : α → Traced ε PUnit} {l : List α} {e : ε} :
    (l.forM g).outcome = .error e ↔ ∃ before a after, l = before ++ a :: after ∧
      (∀ a' ∈ before, (g a').outcome = .ok ()) ∧ (g a).outcome = .error e := by
  induction l with
  | nil =>
    have hnil : ([] : List α).forM g = pure () := rfl
    simp [hnil]
  | cons a l ih =>
    simp only [forM_cons, bind_eq_error, ih]
    constructor
    · rintro (h | ⟨⟨⟩, ha, before, a', after, rfl, hbefore, h⟩)
      · exact ⟨[], a, l, rfl, List.forall_mem_nil _, h⟩
      · exact ⟨a :: before, a', after, rfl, List.forall_mem_cons.2 ⟨ha, hbefore⟩, h⟩
    · rintro ⟨before, a', after, hl, hbefore, h⟩
      cases before with
      | nil =>
        cases hl
        exact .inl h
      | cons b before =>
        cases hl
        obtain ⟨hb, hbefore⟩ := List.forall_mem_cons.1 hbefore
        exact .inr ⟨(), hb, before, a', after, rfl, hbefore, h⟩

theorem forM_eq_ok {g : α → Traced ε PUnit} {l : List α} :
    (l.forM g).outcome = .ok () ↔ ∀ a ∈ l, (g a).outcome = .ok () := by
  induction l with
  | nil =>
    have hnil : ([] : List α).forM g = pure () := rfl
    simp [hnil]
  | cons a l ih =>
    rw [forM_cons, bind_eq_ok, List.forall_mem_cons, ih]
    constructor
    · intro h
      obtain ⟨⟨⟩, ha, hl⟩ := h
      exact ⟨ha, hl⟩
    · intro h
      exact ⟨(), h.1, h.2⟩

section MapError

variable {ε'' γ : Type} (h : ε → ε')

@[simp] theorem mapError_pure (a : α) : (pure a : Traced ε α).mapError h = pure a := rfl

@[simp] theorem mapError_report (event : Event) :
    (report event : Traced ε Unit).mapError h = report event := rfl

@[simp] theorem mapError_lift (x : Except ε α) :
    (liftM x : Traced ε α).mapError h = liftM (x.mapError h) := rfl

theorem lift_map (k : α → β) (x : Except ε α) :
    (liftM (k <$> x) : Traced ε β) = k <$> (liftM x : Traced ε α) := by
  cases x <;> rfl

@[simp] theorem mapError_bind (x : Traced ε α) (c : α → Traced ε β) :
    (x >>= c).mapError h = x.mapError h >>= fun a => (c a).mapError h := by
  cases x with
  | mk log outcome => cases outcome <;> rfl

@[simp] theorem mapError_map (k : α → β) (x : Traced ε α) :
    (k <$> x).mapError h = k <$> x.mapError h := by
  cases x with
  | mk log outcome => cases outcome <;> rfl

theorem mapError_mapError (k : ε' → ε'') (x : Traced ε α) :
    (x.mapError h).mapError k = x.mapError fun e => k (h e) := by
  rw [mapError, mapError, mapError, Outcome.mapError_mapError]

@[simp] theorem mapError_mapM (step : α → Traced ε β) (l : List α) :
    (l.mapM step).mapError h = l.mapM fun a => (step a).mapError h := by
  induction l with
  | nil => simp
  | cons a l ih => simp [ih]

variable {h}

theorem forM_map {step : α → Traced ε PUnit} {step' : γ → Traced ε' PUnit} {k : α → γ}
    (hstep : ∀ a, step' (k a) = (step a).mapError h) (l : List α) :
    (l.map k).forM step' = (l.forM step).mapError h := by
  induction l with
  | nil => rfl
  | cons a l ih =>
    rw [List.map_cons, forM_cons, forM_cons, hstep, ih, mapError_bind]

end MapError

end Traced

end BlockCompiler
