import CacheCoherence.Hierarchy.Basic

/-!
# A cycle of the hierarchy

A cycle has a fixed order: packets that have arrived are queued at their
destinations, every core that waits for nothing issues its next access, and then
the private caches, the shared banks and the memory nodes tick one after another.
A run goes on until nothing is left to do or the cycle limit is reached.
-/

namespace CacheCoherence

/-- What ends a run before its time. -/
inductive RunError where
  /-- A node met an event that it cannot account for. -/
  | fault (f : Fault)
  /-- A packet is addressed to a node that does not exist. -/
  | unknownNode (n : NodeId)
deriving DecidableEq, Repr

/-- The text shown for a run that ended before its time. -/
def RunError.message : RunError → String
  | fault f => f.message
  | unknownNode n => s!"packet addressed to unknown node {n.label}"

/-- The hierarchy after some work, and what stopped the work, if anything did. -/
structure Outcome where
  hierarchy : Hierarchy
  error : Option RunError := none

/-- Goes on with `next`, unless an error stopped the work. -/
def Outcome.andThen (o : Outcome) (next : Hierarchy → Outcome) : Outcome :=
  match o.error with
  | some _ => o
  | none => next o.hierarchy

namespace Hierarchy

/-- The start of a cycle. -/
def beginCycle (h : Hierarchy) : Hierarchy :=
  { h with cycle := h.cycle + 1, net := { h.net with now := h.cycle + 1 } }

/-- Queues packets at their destinations. -/
def routeAll (h : Hierarchy) : List Packet → Outcome
  | [] => { hierarchy := h }
  | p :: rest =>
      match h.route? p with
      | some h => h.routeAll rest
      | none => { hierarchy := h, error := some (.unknownNode p.dst) }

/-- Queues every packet that has arrived. -/
def deliver (h : Hierarchy) : Outcome :=
  { h with net := h.net.remaining h.cycle }.routeAll (h.net.arrived h.cycle)

/-- Lets every core issue its next access that waits for nothing. -/
def issue (h : Hierarchy) : Hierarchy :=
  { h with processors := h.processors.map (·.issue h.cycle) }

/-- Ticks the private caches. -/
def tickProcessors (h : Hierarchy) : Outcome :=
  let w := Work.forEach (Processor.tick h.cycle) h.processors
  { hierarchy := { h with processors := w.node, net := h.net.sendAll w.sent }
    error := w.fault.map .fault }

/-- Ticks the shared banks. -/
def tickBanks (h : Hierarchy) : Outcome :=
  let w := Work.forEach SharedBank.tick h.banks
  { hierarchy := { h with banks := w.node, net := h.net.sendAll w.sent }
    error := w.fault.map .fault }

/-- Ticks the memory nodes. -/
def tickMemories (h : Hierarchy) : Outcome :=
  let w := Work.forEach MemoryNode.tick h.memories
  { hierarchy := { h with memories := w.node, net := h.net.sendAll w.sent }
    error := w.fault.map .fault }

/-- One cycle. -/
def step (h : Hierarchy) : Outcome :=
  (h.beginCycle.deliver.andThen fun h => h.issue.tickProcessors).andThen tickBanks
    |>.andThen tickMemories

/-- At most `n` cycles. -/
def steps : Nat → Hierarchy → Outcome
  | 0, h => { hierarchy := h }
  | n + 1, h =>
      match h.step with
      | { hierarchy, error := none } => steps n hierarchy
      | stopped => stopped

/-- At most `n` cycles, and none once the hierarchy is drained. -/
def drainWithin : Nat → Hierarchy → Outcome
  | 0, h => { hierarchy := h }
  | n + 1, h =>
      if h.isDrained then { hierarchy := h }
      else
        match h.step with
        | { hierarchy, error := none } => drainWithin n hierarchy
        | stopped => stopped

/-- Runs until the hierarchy is drained or the cycle limit is reached. -/
def run (h : Hierarchy) : Outcome := h.drainWithin (h.maxCycles - h.cycle)

end Hierarchy

end CacheCoherence
