import BlockSteps.Event

/-!
# Computations that report

A `Traced ε α` is a computation that has already been run: the events it reported and how it came
out.  Events reported before a failure are kept, which is the reason for this type; an outcome with
the events inside its success would lose them.

The outcome of a sequence of computations does not depend on the events (`outcome_bind`), so
everything about results can be stated and proved with the events left aside.
-/

namespace BlockSteps

/-- A computation that reports events and comes out with an error or a value. -/
structure Traced (ε : Type) (α : Type) where
  /-- What was reported, in order. -/
  events : List Event
  /-- How it came out. -/
  outcome : Except ε α

namespace Traced

variable {ε α β : Type}

/-- Report nothing and come out as given. -/
def ofExcept (outcome : Except ε α) : Traced ε α := ⟨[], outcome⟩

/-- Report one event. -/
def report (e : Event) : Traced ε Unit := ⟨[e], .ok ()⟩

/-- Go on with a value, after the events that led to it. -/
def andThen (x : Traced ε α) (f : α → Traced ε β) : Traced ε β :=
  match x.outcome with
  | .error e => ⟨x.events, .error e⟩
  | .ok a => ⟨x.events ++ (f a).events, (f a).outcome⟩

instance : Monad (Traced ε) where
  pure a := ⟨[], .ok a⟩
  bind := andThen

instance : MonadExcept ε (Traced ε) where
  throw e := ⟨[], .error e⟩
  tryCatch x handle :=
    match x.outcome with
    | .error e => ⟨x.events ++ (handle e).events, (handle e).outcome⟩
    | .ok _ => x

instance : MonadLift (Except ε) (Traced ε) := ⟨ofExcept⟩

/-- The same computation with its errors renamed. -/
def mapError {δ : Type} (f : ε → δ) (x : Traced ε α) : Traced δ α :=
  ⟨x.events, x.outcome.mapError f⟩

@[simp] theorem outcome_pure (a : α) : (pure a : Traced ε α).outcome = .ok a := rfl

@[simp] theorem events_pure (a : α) : (pure a : Traced ε α).events = [] := rfl

@[simp] theorem outcome_throw (e : ε) : (throw e : Traced ε α).outcome = .error e := rfl

@[simp] theorem outcome_ofExcept (x : Except ε α) : (ofExcept x).outcome = x := rfl

@[simp] theorem events_ofExcept (x : Except ε α) : (ofExcept x).events = [] := rfl

@[simp] theorem outcome_lift (x : Except ε α) : (liftM x : Traced ε α).outcome = x := rfl

@[simp] theorem outcome_report (e : Event) : (report e : Traced ε Unit).outcome = .ok () := rfl

@[simp] theorem events_report (e : Event) : (report e : Traced ε Unit).events = [e] := rfl

/-- The outcome of a sequence is the sequence of the outcomes. -/
theorem outcome_bind (x : Traced ε α) (f : α → Traced ε β) :
    (x >>= f).outcome = x.outcome >>= fun a => (f a).outcome := by
  show (andThen x f).outcome = _
  unfold andThen
  cases h : x.outcome with
  | error e => rfl
  | ok a => rfl

/-- After a success the events of the next computation follow. -/
theorem events_bind_ok {x : Traced ε α} {a : α} (h : x.outcome = .ok a) (f : α → Traced ε β) :
    (x >>= f).events = x.events ++ (f a).events := by
  show (andThen x f).events = _
  unfold andThen
  rw [h]

/-- After a failure nothing more is reported. -/
theorem events_bind_error {x : Traced ε α} {e : ε} (h : x.outcome = .error e)
    (f : α → Traced ε β) : (x >>= f).events = x.events := by
  show (andThen x f).events = _
  unfold andThen
  rw [h]

end Traced

/-! ## Outcomes in sequence -/

section Outcomes

variable {ε α β : Type}

@[simp] theorem ok_bind (a : α) (f : α → Except ε β) : (Except.ok a >>= f) = f a := rfl

@[simp] theorem error_bind (e : ε) (f : α → Except ε β) :
    (Except.error e >>= f) = Except.error e := rfl

/-- A sequence succeeds exactly if its first part does and then its second. -/
theorem bind_eq_ok_iff {x : Except ε α} {f : α → Except ε β} {b : β} :
    (x >>= f) = .ok b ↔ ∃ a, x = .ok a ∧ f a = .ok b := by
  cases x with
  | error e => simp
  | ok a => simp

/-- A sequence fails exactly if its first part does, or its second after the first. -/
theorem bind_eq_error_iff {x : Except ε α} {f : α → Except ε β} {e : ε} :
    (x >>= f) = .error e ↔ x = .error e ∨ ∃ a, x = .ok a ∧ f a = .error e := by
  cases x with
  | error e' => simp
  | ok a => simp

/-- A result that is there is what came out; errors need not be compared for it. -/
theorem eq_ok_of_toOption {x : Except ε α} {a : α} (h : x.toOption = some a) : x = .ok a := by
  cases x with
  | error e => cases h
  | ok b => exact congrArg _ (Option.some.inj h)

end Outcomes

end BlockSteps
