/-!
# Recency — which way of a set was used longest ago

Every set keeps its ways in order of use, most recent first. Using a way moves
it to the front; the way at the back is the next victim. Choosing a victim
changes nothing, so a caller may look at it first and decide later.
-/

namespace CacheCoherence

/-- The order of use of every set, most recently used way first. -/
structure Recency where
  orders : Array (List Nat)
deriving DecidableEq, Repr

namespace Recency

/-- At the start way 0 counts as most recent and the last way as least. -/
def initial (sets ways : Nat) : Recency :=
  { orders := Array.replicate sets (List.range ways) }

/-- The order of use of `set`. -/
def order (r : Recency) (set : Nat) : List Nat := r.orders[set]?.getD []

/-- Marks `way` as the most recently used of `set`; a way that the set has not
seen yet joins it. -/
def touch (r : Recency) (set way : Nat) : Recency :=
  { orders := r.orders.modify set fun order => way :: order.erase way }

/-- The least recently used way of `set`. -/
def victim (r : Recency) (set : Nat) : Nat := (r.order set).getLast?.getD 0

theorem order_touch_self (r : Recency) {set : Nat} (way : Nat) (h : set < r.orders.size) :
    (r.touch set way).order set = way :: (r.order set).erase way := by
  simp [order, touch, Array.getElem_modify, h]

theorem order_touch_ne (r : Recency) {set other : Nat} (way : Nat) (h : set ≠ other) :
    (r.touch set way).order other = r.order other := by
  simp [order, touch, Array.getElem?_modify, h]

end Recency

/-! ## Replacement policies -/

/-- How a table picks the way to replace. -/
inductive Replacement where
  /-- The way used longest ago. -/
  | leastRecent (r : Recency)
  /-- Always the same way. -/
  | pinned (way : Nat)
deriving DecidableEq, Repr

namespace Replacement

/-- Takes note that `way` of `set` was used. -/
def touch : Replacement → Nat → Nat → Replacement
  | leastRecent r, set, way => leastRecent (r.touch set way)
  | pinned w, _, _ => pinned w

/-- The way of `set` to replace next. -/
def victim : Replacement → Nat → Nat
  | leastRecent r, set => r.victim set
  | pinned w, _ => w

end Replacement

end CacheCoherence
