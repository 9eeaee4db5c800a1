import CacheCoherence.Proofs.Hierarchy.Picture
import CacheCoherence.Proofs.Memory.Posts
import CacheCoherence.Proofs.PrivateCache.Posts
import CacheCoherence.Proofs.SharedBank.Posts

/-!
# Ports — nodes as the interconnect sees them

To the interconnect all nodes are ports. What has left a node and is not handled yet is on the
interconnect or waits at the port of another node.
-/

namespace CacheCoherence

/-- A processor is its cache to the interconnect. -/
def Processor.port (q : Processor) : Port := q.cache.port

namespace Hierarchy

/-- All nodes, in the order of their ids. -/
def ports (h : Hierarchy) : List Port :=
  h.processors.map (·.port) ++ h.banks.map (·.port) ++ h.memories.map (·.port)

/-- The packets that have left a node and are not handled yet. -/
def undispatched (h : Hierarchy) : List Packet :=
  h.net.inFlight.toList ++ h.ports.flatMap (·.inbound)

theorem ids_ports (h : Hierarchy) : h.ports.map (·.id) = h.ids := by
  simp only [ports, ids, List.map_append, List.map_map]
  rfl

end Hierarchy

namespace Station

variable {σ ε : Type} {S : Station σ ε} {P : Plan} {s : Scene} {ns : List σ}

/-- A node of a station as the interconnect sees it. -/
def port (S : Station σ ε) (n : σ) : Port :=
  { id := S.id n, inbound := (S.inbound n).filterMap S.packet?, outlet := S.outlet n }

/-- What is queued at nodes waits at their ports. -/
theorem queues_eq_ports (S : Station σ ε) (ns : List σ) :
    S.queues ns = (((ns.map S.port).flatMap (·.inbound) : List Packet) : Multiset Packet) := by
  induction ns with
  | nil => rfl
  | cons n ns ih =>
    rw [queues_cons, ih, List.map_cons, List.flatMap_cons, ← Multiset.coe_add]
    rfl

/-- What is about to leave nodes is at their ports. -/
theorem outs_eq_ports (S : Station σ ε) (ns : List σ) :
    S.outs ns = (((ns.map S.port).flatMap (·.outlet.toList) : List Packet) : Multiset Packet) := by
  induction ns with
  | nil => rfl
  | cons n ns ih =>
    rw [outs_cons, ih, List.map_cons, List.flatMap_cons, ← Multiset.coe_add]
    rfl

end Station

theorem Processor.port_station (P : Plan) : (station P).port = Processor.port := rfl

theorem SharedBank.port_station (P : Plan) : (station P).port = SharedBank.port := by
  funext b
  show Port.mk b.id (b.inbound.filterMap some) b.outlet = b.port
  rw [List.filterMap_some]
  rfl

theorem MemoryNode.port_station (P : Plan) : (station P).port = MemoryNode.port := by
  funext m
  show Port.mk m.id (m.inbound.filterMap some) m.outlet = m.port
  rw [List.filterMap_some]
  rfl

namespace Hierarchy.Depicts

variable {P : Plan} {h : Hierarchy} {s : Scene} {n : Port}

/-- The packets on their way in a scene are those that are not handled yet. -/
theorem transit_eq (hd : h.Depicts P s 0) : s.transit = (h.undispatched : Multiset Packet) := by
  rw [hd.transit, Multiset.zero_add, queued, Station.queues_eq_ports, Station.queues_eq_ports,
    Station.queues_eq_ports, Multiset.coe_add, Multiset.coe_add, inFlight, Multiset.coe_add,
    Processor.port_station, SharedBank.port_station, MemoryNode.port_station, undispatched, ports,
    List.flatMap_append, List.flatMap_append]

/-- The packets that are about to leave in a scene are those that are posted at a port. -/
theorem outgoing_eq (hd : h.Depicts P s 0) :
    s.outgoing = ((h.ports.flatMap (·.outlet.toList) : List Packet) : Multiset Packet) := by
  rw [hd.outgoing, posted, Station.outs_eq_ports, Station.outs_eq_ports, Station.outs_eq_ports,
    Multiset.coe_add, Multiset.coe_add, Processor.port_station, SharedBank.port_station,
    MemoryNode.port_station, ports, List.flatMap_append, List.flatMap_append]

/-- What plays its part in a scene is known of every port, whatever kind of node it is. -/
theorem port_induction {Q : Port → Prop} (hd : h.Depicts P s 0)
    (hplays : ∀ {σ ε : Type} (S : Station σ ε) (m : σ), S.Plays P m (s.node (S.id m)) →
      Q (S.port m)) (hn : n ∈ h.ports) : Q n := by
  rw [ports, List.mem_append, List.mem_append] at hn
  rcases hn with (hn | hn) | hn
  · obtain ⟨q, hq, rfl⟩ := List.mem_map.1 hn
    exact hplays (Processor.station P) q (hd.processors.plays q hq)
  · obtain ⟨b, hb, rfl⟩ := List.mem_map.1 hn
    rw [← SharedBank.port_station P]
    exact hplays (SharedBank.station P) b (hd.banks.plays b hb)
  · obtain ⟨m, hm, rfl⟩ := List.mem_map.1 hn
    rw [← MemoryNode.port_station P]
    exact hplays (MemoryNode.station P) m (hd.memories.plays m hm)

end Hierarchy.Depicts

end CacheCoherence
