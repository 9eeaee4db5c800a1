import CacheCoherence.Traffic.CreditLink
import CacheCoherence.Traffic.DelayLine

/-!
# Outlet — from the inside of a node to the interconnect

A packet that a node produces first spends the node's latency on a delay line
and is then offered to the credit link. Both keep order, so packets leave in the
order in which they were posted.
-/

namespace CacheCoherence

/-- The way out of a node. -/
structure Outlet where
  /-- Packets on their way to the link. -/
  delay : DelayLine Packet
  link : CreditLink
deriving DecidableEq, Repr

namespace Outlet

/-- An outlet without packets whose link holds all of its credits. -/
def create (owner : NodeId) (latency credits : Nat) : Outlet :=
  { delay := { latency }, link := .full owner credits }

/-- Takes a packet produced at cycle `now`. -/
def post (o : Outlet) (now : Nat) (p : Packet) : Outlet := { o with delay := o.delay.push now p }

/-- Offers every packet that is ready at `now` to the link. Gives the packets
that left the node. -/
def flush (o : Outlet) (now : Nat) : Outlet × List Packet :=
  let (link, sent) := o.link.offerAll (o.delay.arrived now)
  ({ delay := o.delay.remaining now, link }, sent)

/-- The packets that have not left yet, oldest first. -/
def toList (o : Outlet) : List Packet := o.link.buffer ++ o.delay.toList

/-- Whether no packet is on its way to the link or waits for a credit. -/
def isEmpty (o : Outlet) : Bool := o.delay.isEmpty && o.link.buffered == 0

@[simp] theorem toList_post (o : Outlet) (now : Nat) (p : Packet) :
    (o.post now p).toList = o.toList ++ [p] := by
  simp [toList, post]

/-- Flushing loses nothing and overtakes nothing: what leaves, followed by what
stays, is what there was. -/
theorem flush_order (o : Outlet) (now : Nat) :
    (o.flush now).2 ++ (o.flush now).1.toList = o.toList := by
  simp only [flush, toList]
  rw [← List.append_assoc, CreditLink.offerAll_order, List.append_assoc,
    DelayLine.arrived_append_remaining]

end Outlet

end CacheCoherence
