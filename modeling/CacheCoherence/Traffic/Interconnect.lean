import CacheCoherence.Packet
import CacheCoherence.Traffic.DelayLine

/-!
# Interconnect — fixed-latency delivery

Every packet is delivered a fixed number of cycles, at least one, after it was
sent. One latency for all keeps delivery in send order, so packets between two
nodes never overtake each other.
-/

namespace CacheCoherence

/-- Packets on their way between nodes. -/
structure Interconnect where
  /-- The cycle with which packets sent from now on are stamped. -/
  now : Nat := 0
  inFlight : DelayLine Packet
  /-- Packets sent so far. -/
  sent : Nat := 0
deriving DecidableEq, Repr

namespace Interconnect

/-- An empty interconnect; a latency of zero counts as one. -/
def ofLatency (latency : Nat) : Interconnect :=
  { inFlight := { latency := max latency 1 } }

/-- Puts a packet on its way. -/
def send (n : Interconnect) (p : Packet) : Interconnect :=
  { n with inFlight := n.inFlight.push n.now p, sent := n.sent + 1 }

/-- Puts packets on their way, in order. -/
def sendAll (n : Interconnect) (ps : List Packet) : Interconnect := ps.foldl send n

/-- The oldest packet that has arrived by `now`, if there is one. -/
def deliver? (n : Interconnect) (now : Nat) : Option (Packet × Interconnect) :=
  (n.inFlight.pop? now).map fun (p, rest) => (p, { n with inFlight := rest })

/-- The packets that have arrived by `now`, oldest first. -/
def arrived (n : Interconnect) (now : Nat) : List Packet := n.inFlight.arrived now

/-- What is still on its way after cycle `now`. -/
def remaining (n : Interconnect) (now : Nat) : Interconnect :=
  { n with inFlight := n.inFlight.remaining now }

@[simp] theorem sendAll_nil (n : Interconnect) : n.sendAll [] = n := rfl

theorem sendAll_append (n : Interconnect) (ps qs : List Packet) :
    n.sendAll (ps ++ qs) = (n.sendAll ps).sendAll qs :=
  List.foldl_append

end Interconnect

end CacheCoherence
