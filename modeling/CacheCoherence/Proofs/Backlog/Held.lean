import CacheCoherence.Backlog
import Mathlib.Algebra.Order.Group.Multiset

/-!
# Held requests — parking and waking lose none

Which requests a node holds back, in whatever queue, is a matter of counting them:
parking adds one, and waking moves them about.
-/

namespace CacheCoherence

variable {α : Type}

namespace ParkingBuffer

theorem coe_toList_park (b : ParkingBuffer α) (e : Parked α) :
    ((b.park e).toList : Multiset (Parked α)) = e ::ₘ b.toList :=
  Multiset.coe_eq_coe.2 (b.perm_toList_park e)

theorem coe_toList_wake (b : ParkingBuffer α) (event : WakeEvent) :
    ((b.wake event).1 : Multiset (Parked α)) + (b.wake event).2.toList = b.toList :=
  Multiset.coe_eq_coe.2 (b.perm_toList_wake event)

end ParkingBuffer

namespace Backlog

/-- The requests that are held back. -/
def items (b : Backlog α) : Multiset α :=
  Multiset.map Parked.item
    ((b.parked.toList : Multiset (Parked α)) + (b.retries : Multiset (Parked α)))

/-- Where nothing is held back, there are no requests. -/
theorem items_of_isEmpty {b : Backlog α} (h : b.isEmpty = true) : b.items = 0 := by
  simp only [isEmpty, ParkingBuffer.isEmpty, Bool.and_eq_true, beq_iff_eq,
    ParkingBuffer.size_eq_length_toList, List.length_eq_zero_iff, List.isEmpty_iff] at h
  rw [items, h.1, h.2]
  rfl

theorem items_park (b : Backlog α) (e : Parked α) : (b.park e).items = e.item ::ₘ b.items := by
  show Multiset.map _ (((b.parked.park e).toList : Multiset (Parked α))
    + (b.retries : Multiset (Parked α))) = _
  rw [ParkingBuffer.coe_toList_park, Multiset.cons_add, Multiset.map_cons, items]

theorem items_wake (b : Backlog α) (event : WakeEvent) : (b.wake event).items = b.items := by
  show Multiset.map _ (((b.parked.wake event).2.toList : Multiset (Parked α))
    + ((b.retries ++ (b.parked.wake event).1 : List (Parked α)) : Multiset (Parked α))) = _
  rw [items, ← ParkingBuffer.coe_toList_wake b.parked event, ← Multiset.coe_add]
  congr 1
  rw [add_comm (b.retries : Multiset (Parked α)), ← add_assoc,
    add_comm ((b.parked.wake event).1 : Multiset (Parked α))]

/-- The first retry is held back besides the others. -/
theorem items_cons {b : Backlog α} {e : Parked α} {rest : List (Parked α)}
    (h : b.retries = e :: rest) :
    b.items = e.item ::ₘ ({ b with retries := rest } : Backlog α).items := by
  rw [items, items, h, ← Multiset.cons_coe, Multiset.add_cons, Multiset.map_cons]

end Backlog

end CacheCoherence
