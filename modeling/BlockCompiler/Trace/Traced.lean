import BlockCompiler.Trace.Event

/-!
# Traced computations

A step of the compiler yields a value or an error, and the events it reported on the way. Events
reported before an error are kept. Looking at the outcome alone turns a traced computation into an
ordinary one that may fail, bind by bind.
-/

namespace BlockCompiler

@[ext]
structure Traced (ε α : Type) where
  log : List Event
  outcome : Except ε α

namespace Traced

variable {ε ε' α β : Type}

/-- Reports one event. -/
def report (event : Event) : Traced ε Unit :=
  ⟨[event], .ok ()⟩

def ofExcept (outcome : Except ε α) : Traced ε α :=
  ⟨[], outcome⟩

protected def bind (x : Traced ε α) (f : α → Traced ε β) : Traced ε β :=
  match x.outcome with
  | .error e => ⟨x.log, .error e⟩
  | .ok a =>
    let y := f a
    ⟨x.log ++ y.log, y.outcome⟩

instance : Monad (Traced ε) where
  pure a := ofExcept (.ok a)
  bind := Traced.bind

instance : MonadLift (Except ε) (Traced ε) where
  monadLift := ofExcept

/-- The same computation with its error put another way. -/
def mapError (f : ε → ε') (x : Traced ε α) : Traced ε' α :=
  ⟨x.log, x.outcome.mapError f⟩

@[simp] theorem outcome_pure (a : α) : (pure a : Traced ε α).outcome = .ok a := rfl

@[simp] theorem log_pure (a : α) : (pure a : Traced ε α).log = [] := rfl

@[simp] theorem outcome_ofExcept (x : Except ε α) : (ofExcept x).outcome = x := rfl

@[simp] theorem log_ofExcept (x : Except ε α) : (ofExcept x).log = [] := rfl

@[simp] theorem outcome_report (event : Event) :
    (report event : Traced ε Unit).outcome = .ok () := rfl

@[simp] theorem log_report (event : Event) : (report event : Traced ε Unit).log = [event] := rfl

@[simp] theorem outcome_bind (x : Traced ε α) (f : α → Traced ε β) :
    (x >>= f).outcome = x.outcome >>= fun a => (f a).outcome := by
  cases x with
  | mk log outcome => cases outcome <;> rfl

theorem log_bind_of_ok {x : Traced ε α} {a : α} (f : α → Traced ε β) (h : x.outcome = .ok a) :
    (x >>= f).log = x.log ++ (f a).log := by
  simp only [bind, Traced.bind, h]

theorem log_bind_of_error {x : Traced ε α} {e : ε} (f : α → Traced ε β)
    (h : x.outcome = .error e) : (x >>= f).log = x.log := by
  simp only [bind, Traced.bind, h]

@[simp] theorem outcome_mapError (f : ε → ε') (x : Traced ε α) :
    (x.mapError f).outcome = x.outcome.mapError f := rfl

@[simp] theorem log_mapError (f : ε → ε') (x : Traced ε α) : (x.mapError f).log = x.log := rfl

instance : LawfulMonad (Traced ε) := LawfulMonad.mk' _
  (fun x => by
    cases x with
    | mk log outcome => cases outcome <;> simp [Functor.map, Traced.bind, ofExcept])
  (fun a f => by simp [pure, bind, Traced.bind, ofExcept])
  (fun x f g => by
    cases x with
    | mk log outcome =>
      cases outcome with
      | error e => rfl
      | ok a =>
        apply Traced.ext
        · cases h : (f a).outcome <;> simp [bind, Traced.bind, h]
        · simp)

end Traced

end BlockCompiler
