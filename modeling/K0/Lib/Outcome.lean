import Mathlib.Logic.Basic

set_option relaxedAutoImplicit false
set_option autoImplicit false

/-!
# Computations that fail or panic

A computation of type `Outcome.Fallible ε α` returns a value, fails with an error that its caller
can handle, or panics, which ends the program. The three cases are `pure a`, `throw e` and `none`.

## Main definitions

* `Outcome.Fallible`: the monad.
* `Outcome.orPanic`, `Outcome.orError`: what a missing value means.
* `Outcome.lift`: a computation that does not panic.
* `Outcome.mapError`, `Outcome.toOption`, `Outcome.accept`: convert an error, or give up on it.

## Main results

* `Outcome.bind_eq_pure`, `Outcome.except_bind_eq_ok`: a sequence succeeds when its parts do.
* `Outcome.bind_eq_lift`: a sequence does not panic if its parts do not.
-/

namespace Outcome

variable {ε α β : Type}

/-- A computation that may fail with an error, or panic. -/
abbrev Fallible (ε α : Type) : Type := ExceptT ε Option α

/-- Panic where a value is missing. -/
def orPanic (o : Option α) : Fallible ε α := o.map .ok

/-- Fail where a value is missing. -/
def orError (e : ε) : Option α → Fallible ε α
  | none => throw e
  | some a => pure a

/-- A computation that does not panic. -/
def lift (x : Except ε α) : Fallible ε α := some x

/-- Convert the error of a computation. -/
def mapError {ε' : Type} (f : ε → ε') (x : Fallible ε α) : Fallible ε' α :=
  Option.map (Except.mapError f) x

/-- Give up on an error as on a panic. -/
def toOption (x : Fallible ε α) : Option α :=
  match x with
  | some (.ok a) => some a
  | _ => none

/-- The value of a computation that returns its state beside a result; give up on an error. -/
def accept {σ : Type} : Option (Except ε α × σ) → Option (α × σ)
  | some (.ok a, s) => some (a, s)
  | _ => none

/-- A sequence succeeds exactly when its first part does and then its second part. -/
lemma bind_eq_pure {x : Fallible ε α} {f : α → Fallible ε β} {b : β} :
    x >>= f = pure b ↔ ∃ a, x = pure a ∧ f a = pure b := by
  cases x with
  | none => exact ⟨fun h => (nomatch h), fun ⟨_, h, _⟩ => (nomatch h)⟩
  | some r =>
    cases r with
    | error e => exact ⟨fun h => (nomatch h), fun ⟨_, h, _⟩ => (nomatch h)⟩
    | ok a =>
      constructor
      · intro h
        exact ⟨a, rfl, h⟩
      · rintro ⟨a', h, hf⟩
        obtain rfl : a = a' := Except.ok.inj (Option.some.inj h)
        exact hf

/-- A value that may be missing is there. -/
lemma orPanic_eq_pure {o : Option α} {a : α} :
    (orPanic o : Fallible ε α) = pure a ↔ o = some a := by
  cases o with
  | none => exact ⟨fun h => (nomatch h), fun h => nomatch h⟩
  | some b =>
    constructor
    · intro h
      exact congrArg some (Except.ok.inj (Option.some.inj h))
    · rintro ⟨⟩
      rfl

/-- A value that may be missing is there. -/
lemma orError_eq_pure {e : ε} {o : Option α} {a : α} :
    (orError e o : Fallible ε α) = pure a ↔ o = some a := by
  cases o with
  | none => exact ⟨fun h => (nomatch h), fun h => nomatch h⟩
  | some b =>
    constructor
    · intro h
      exact congrArg some (Except.ok.inj (Option.some.inj h))
    · rintro ⟨⟩
      rfl

/-- Converting the error keeps the values. -/
lemma mapError_eq_pure {ε' : Type} {f : ε → ε'} {x : Fallible ε α} {a : α} :
    mapError f x = pure a ↔ x = pure a := by
  rcases x with _ | (e | b)
  · exact ⟨fun h => (nomatch h), fun h => nomatch h⟩
  · exact ⟨fun h => (nomatch h), fun h => nomatch h⟩
  · constructor
    · intro h
      exact congrArg (fun v => some (Except.ok v)) (Except.ok.inj (Option.some.inj h))
    · intro h
      exact congrArg (fun v => some (Except.ok v)) (Except.ok.inj (Option.some.inj h))

/-- An error is not a value. -/
lemma throw_ne_pure {e : ε} {a : α} : (throw e : Fallible ε α) ≠ pure a := nofun

/-- Two values are equal when they succeed equally. -/
lemma pure_inj {a b : α} : (pure a : Fallible ε α) = pure b ↔ a = b :=
  ⟨fun h => Except.ok.inj (Option.some.inj h), fun h => h ▸ rfl⟩

/-- What is left after giving up on errors is a value. -/
lemma toOption_eq_some {x : Fallible ε α} {a : α} : toOption x = some a ↔ x = pure a := by
  rcases x with _ | (e | b)
  · exact ⟨fun h => (nomatch h), fun h => nomatch h⟩
  · exact ⟨fun h => (nomatch h), fun h => nomatch h⟩
  · constructor
    · intro h
      exact congrArg (fun v => some (Except.ok v)) (Option.some.inj h)
    · intro h
      exact congrArg some (Except.ok.inj (Option.some.inj h))

/-- What is accepted is a value. -/
lemma accept_eq_some {σ : Type} {x : Option (Except ε α × σ)} {a : α} {s : σ} :
    accept x = some (a, s) ↔ x = some (.ok a, s) := by
  rcases x with _ | ⟨e | b, s'⟩
  · exact ⟨fun h => (nomatch h), fun h => nomatch h⟩
  · exact ⟨fun h => (nomatch h), fun h => nomatch h⟩
  · simp [accept]

/-- A sequence does not panic if its first part does not, nor its second part on the value of the
first. -/
lemma bind_eq_lift {x : Fallible ε α} {x' : Except ε α} {f : α → Fallible ε β} {f' : α → Except ε β}
    (hx : x = lift x') (hf : ∀ a, x' = .ok a → f a = lift (f' a)) :
    x >>= f = lift (x' >>= f') := by
  subst hx
  cases x' with
  | error e => rfl
  | ok a => exact hf a rfl

/-- A value that is there goes on to the second part. -/
lemma pure_bind_eq {x : Fallible ε α} {a : α} {f : α → Fallible ε β} (hx : x = pure a) :
    x >>= f = f a := by
  subst hx
  rfl

/-- Converting the error of a sequence converts the errors of its parts. -/
lemma mapError_bind {ε' : Type} (f : ε → ε') (x : Fallible ε α) (k : α → Fallible ε β) :
    mapError f (x >>= k) = mapError f x >>= fun a => mapError f (k a) := by
  rcases x with _ | (e | a)
  · rfl
  · rfl
  · rfl

/-- A computation without panics, followed by a function of its value. -/
lemma lift_bind_pure (x : Except ε α) (f : α → β) :
    (lift x >>= fun a => (pure (f a) : Fallible ε β)) = lift (x.map f) := by
  cases x <;> rfl

/-- A sequence of computations without panics succeeds when its parts do. -/
lemma except_bind_eq_ok {x : Except ε α} {f : α → Except ε β} {b : β} :
    x >>= f = .ok b ↔ ∃ a, x = .ok a ∧ f a = .ok b := by
  cases x with
  | error e => exact ⟨fun h => (nomatch h), fun ⟨_, h, _⟩ => (nomatch h)⟩
  | ok a =>
    constructor
    · intro h
      exact ⟨a, rfl, h⟩
    · rintro ⟨a', h, hf⟩
      obtain rfl := Except.ok.inj h
      exact hf

end Outcome
