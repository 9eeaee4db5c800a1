import CacheCoherence.Memory.Node
import CacheCoherence.Proofs.Traffic.Passage

/-!
# Posts — what a memory node does to its port

A memory node posts a reply for every line it is asked for, behind the replies that are under
way, however fast the access was.
-/

namespace CacheCoherence.MemoryNode

/-- A memory node as the interconnect sees it. -/
def port (m : MemoryNode) : Port := { id := m.id, inbound := m.inbound, outlet := m.outlet }

/-- The memory node once it has handled all that waited for its tick. -/
def handled (m : MemoryNode) : Work MemoryNode :=
  .through (fun m queue => { m with inbound := queue }) dispatch { m with cycle := m.cycle + 1 }
    m.inbound

variable {m d : MemoryNode}

theorem posts_serve {msg : MemoryMessage} (h : m.serve msg = .ok d) : m.port.Posts d.port := by
  unfold serve at h
  split at h
  · cases h
    exact .post _ ⟨rfl, rfl⟩
  · cases h
    exact .refl _
  · cases h

theorem passes_takeCredit (hn : m.port.Proper) (hf : m.takeCredit.fault = none) :
    m.port.Passes m.takeCredit.node.port m.takeCredit.sent := by
  unfold takeCredit at hf ⊢
  split
  · next link sent harr => exact .creditArrived hn harr
  · next harr =>
    rw [harr] at hf
    cases hf

/-- One packet. -/
theorem passes_dispatch {p : Packet} (hn : m.port.Proper) (hf : (m.dispatch p).fault = none) :
    m.port.Passes (m.dispatch p).node.port (m.dispatch p).sent := by
  unfold dispatch at hf ⊢
  split at hf
  · split at hf
    · next htag =>
      rw [if_pos htag]
      exact passes_takeCredit hn hf
    · cases hf
  · next msg hm =>
    split at hf
    · next htag =>
      rw [if_pos htag]
      exact Work.passes_answer (Port.Passes.returnCredit m.port p.src m.tags.credit)
        (fun _ => posts_serve) hf
    · cases hf
  · cases hf

/-- A memory node in one cycle. -/
def round (m : MemoryNode) : Round where
  before := m.port
  handled := m.handled.node.port
  sent := m.tick.sent
  after := m.tick.node.port

/-- No packet overtakes another in a cycle of a memory node. -/
theorem orderly_round (hn : m.port.Proper) (hf : m.tick.fault = none) : m.round.Orderly := by
  have htick : m.tick = m.handled.andThen release := rfl
  have hhandled := (Work.andThen_fault_eq_none.1 (htick ▸ hf)).1
  let m₀ : MemoryNode := { m with cycle := m.cycle + 1 }
  have hpasses : ({ m.port with inbound := [] } : Port).Passes m.handled.node.port m.handled.sent :=
    Work.through_passes port some (n := m₀)
      (fun m q => by rw [List.filterMap_some]; rfl) (fun _ _ hn he => passes_dispatch hn he) hn
      (List.filterMap_some).symm hhandled
  rw [round, htick, Work.andThen_node hhandled, Work.andThen_sent hhandled]
  exact Round.orderly_of_passes hn hpasses m.handled.node.cycle

end CacheCoherence.MemoryNode
