/-!
# Delay line — items that become ready a fixed time after they enter

Lookup latency, hit latency and travel time are all the same device: an item
that enters at cycle `now` may leave from cycle `now + latency` on, and items
leave in the order in which they entered.
-/

namespace CacheCoherence

/-- Items on their way, oldest first, each with the cycle at which it is ready. -/
structure DelayLine (α : Type) where
  latency : Nat
  items : List (Nat × α) := []
deriving DecidableEq, Repr

namespace DelayLine

variable {α : Type}

/-- Puts `x` on the line at cycle `now`. -/
def push (d : DelayLine α) (now : Nat) (x : α) : DelayLine α :=
  { d with items := d.items ++ [(now + d.latency, x)] }

/-- The oldest item, if it is ready at `now`, and the line without it. -/
def pop? (d : DelayLine α) (now : Nat) : Option (α × DelayLine α) :=
  match d.items with
  | (ready, x) :: rest => if ready ≤ now then some (x, { d with items := rest }) else none
  | [] => none

/-- What leaves the line by cycle `now`: the items in front of the first one
that is not ready. -/
def arrived (d : DelayLine α) (now : Nat) : List α :=
  (d.items.takeWhile fun i => i.1 ≤ now).map (·.2)

/-- What is still on the line after cycle `now`. -/
def remaining (d : DelayLine α) (now : Nat) : DelayLine α :=
  { d with items := d.items.dropWhile fun i => i.1 ≤ now }

/-- How many items are on the line. -/
def size (d : DelayLine α) : Nat := d.items.length

/-- Whether nothing is on the line. -/
def isEmpty (d : DelayLine α) : Bool := d.items.isEmpty

/-- The items on the line, oldest first. -/
def toList (d : DelayLine α) : List α := d.items.map (·.2)

@[simp] theorem toList_push (d : DelayLine α) (now : Nat) (x : α) :
    (d.push now x).toList = d.toList ++ [x] := by
  simp [toList, push]

/-- Nothing is lost or reordered: what has left, followed by what remains, is
what was on the line. -/
theorem arrived_append_remaining (d : DelayLine α) (now : Nat) :
    d.arrived now ++ (d.remaining now).toList = d.toList := by
  simp only [arrived, toList, remaining]
  rw [← List.map_append, List.takeWhile_append_dropWhile]

/-- Popping once takes the head of what arrives. -/
theorem pop?_eq (d : DelayLine α) (now : Nat) :
    (d.pop? now).map (·.1) = (d.arrived now).head? := by
  rcases d with ⟨latency, _ | ⟨⟨ready, x⟩, rest⟩⟩
  · rfl
  · by_cases h : ready ≤ now <;> simp [pop?, arrived, h]

end DelayLine

end CacheCoherence
