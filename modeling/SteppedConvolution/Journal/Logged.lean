import SteppedConvolution.Fault.Basic
import SteppedConvolution.Journal.Event

/-! # Logged computations

A computation that may note events and may fail. The events of a computation
that fails are kept up to the failure.
-/

namespace SteppedConvolution

variable {K : Type} [Scalar K] {α β : Type}

/-- The events of a computation and its outcome. -/
structure Logged (K : Type) [Scalar K] (α : Type) where
  events : List (Event K)
  outcome : Except (Fault K) α

namespace Logged

/-- Succeed without events. -/
def value (a : α) : Logged K α := ⟨[], .ok a⟩

/-- Fail without events. -/
def fail (f : Fault K) : Logged K α := ⟨[], .error f⟩

/-- Note an event. -/
def note (e : Event K) : Logged K Unit := ⟨[e], .ok ()⟩

/-- Note an event under a condition. -/
def noteIf (condition : Bool) (e : Event K) : Logged K Unit :=
  if condition then note e else value ()

/-- A computation without events. -/
def ofExcept (r : Except (Fault K) α) : Logged K α := ⟨[], r⟩

/-- Run one computation after another; a failure ends both. -/
def andThen (a : Logged K α) (f : α → Logged K β) : Logged K β :=
  match a.outcome with
  | .error e => ⟨a.events, .error e⟩
  | .ok v => ⟨a.events ++ (f v).events, (f v).outcome⟩

instance : Monad (Logged K) where
  pure := value
  bind := andThen

instance : MonadLift (Except (Fault K)) (Logged K) where
  monadLift := ofExcept

@[simp] theorem pure_eq (a : α) : (pure a : Logged K α) = ⟨[], .ok a⟩ := rfl

@[simp] theorem bind_ok (es : List (Event K)) (a : α) (f : α → Logged K β) :
    ((⟨es, .ok a⟩ : Logged K α) >>= f) = ⟨es ++ (f a).events, (f a).outcome⟩ := rfl

@[simp] theorem bind_error (es : List (Event K)) (e : Fault K) (f : α → Logged K β) :
    ((⟨es, .error e⟩ : Logged K α) >>= f) = ⟨es, .error e⟩ := rfl

end Logged

end SteppedConvolution
