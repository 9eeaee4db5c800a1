import CacheCoherence.Parking

/-!
# Backlog — the requests of a node that wait

Woken requests are tried again one after another. Trying one may park it again
and may wake others into the queue that is being worked off, so the length of
that queue is no measure of what is left to do; the load, which counts the parked
requests too, never grows by waking.
-/

namespace CacheCoherence

/-- How the handling of a request ends. -/
inductive Ending where
  /-- The request cannot proceed and is parked. -/
  | parked
  /-- The request is answered, dropped or on its way. -/
  | taken
deriving DecidableEq, Repr

/-- All requests of a node that could not proceed: parked ones, and woken ones
that are still to be tried again. -/
structure Backlog (α : Type) where
  parked : ParkingBuffer α := .empty
  /-- Woken requests, in the order in which they are tried. -/
  retries : List (Parked α) := []
deriving DecidableEq, Repr

namespace Backlog

variable {α : Type}

/-- Parks a request. -/
def park (b : Backlog α) (e : Parked α) : Backlog α := { b with parked := b.parked.park e }

/-- Moves every request that `event` releases to the end of the retries. -/
def wake (b : Backlog α) (event : WakeEvent) : Backlog α :=
  let (woken, parked) := b.parked.wake event
  { parked, retries := b.retries ++ woken }

/-- How many requests are parked or to be tried again. -/
def load (b : Backlog α) : Nat := b.parked.size + b.retries.length

/-- Whether no request is parked or to be tried again. -/
def isEmpty (b : Backlog α) : Bool := b.parked.isEmpty && b.retries.isEmpty

@[simp] theorem load_park (b : Backlog α) (e : Parked α) : (b.park e).load = b.load + 1 := by
  simp only [load, park, ParkingBuffer.size_park]
  omega

@[simp] theorem load_wake (b : Backlog α) (event : WakeEvent) : (b.wake event).load = b.load := by
  have := b.parked.length_wake_add_size event
  simp only [load, wake, List.length_append]
  omega

/-- The backlog `b'` is `b`, or what a wakeup makes of it. -/
def Stirred (b b' : Backlog α) : Prop := b' = b ∨ ∃ event, b' = b.wake event

theorem Stirred.refl (b : Backlog α) : b.Stirred b := .inl rfl

theorem Stirred.wake (b : Backlog α) (event : WakeEvent) : b.Stirred (b.wake event) :=
  .inr ⟨event, rfl⟩

/-- A wakeup moves requests about and adds none. -/
theorem Stirred.load {b b' : Backlog α} (h : b.Stirred b') : b'.load = b.load := by
  rcases h with rfl | ⟨event, rfl⟩
  · rfl
  · exact load_wake b event

end Backlog

end CacheCoherence
