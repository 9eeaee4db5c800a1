import CacheCoherence.Hierarchy.Processor
import CacheCoherence.Memory.Node
import CacheCoherence.SharedBank.Tick
import CacheCoherence.Traffic.Interconnect

/-!
# Hierarchy — all nodes and the interconnect between them

Node ids are dense: processors come first, then shared banks, then memory
controllers. Lines are dealt out over banks and over memory controllers by page.
-/

namespace CacheCoherence

/-- A complete hierarchy. -/
structure Hierarchy where
  processors : List Processor
  banks : List SharedBank
  memories : List MemoryNode
  net : Interconnect
  cycle : Nat := 0
  /-- The cycle at which a run stops. -/
  maxCycles : Nat

/-- A trace names a core that the hierarchy does not have. -/
structure UnknownCore where
  core : UInt64
  cores : Nat
deriving DecidableEq, Repr

/-- The text shown for a core that is not there. -/
def UnknownCore.message (e : UnknownCore) : String :=
  s!"trace names core {e.core} but the system has {e.cores} cores"

/-- The node ids from `first` on. -/
def NodeId.row (first count : Nat) : List NodeId :=
  (List.range' first count).map fun i => { index := UInt32.ofNat i }

namespace Hierarchy

/-- The hierarchy that a configuration describes. -/
def create? (c : Config) : Except ConfigError Hierarchy := do
  c.validate
  let cores := c.topology.cores.toNat
  let banks := c.topology.l2Nodes.toNat
  let pageBits := c.topology.pageOffsetBits.toNat
  let bankIds := NodeId.row cores banks
  let memoryIds := NodeId.row (cores + banks) c.topology.memoryControllers.toNat
  let managers ← (PageMap.ofNodes? bankIds.toArray pageBits).mapError .pageMap
  let memories ← (PageMap.ofNodes? memoryIds.toArray pageBits).mapError .pageMap
  let caches ← (NodeId.row 0 cores).mapM fun id =>
    PrivateCache.create? id c.l1 c.tags (.paged managers)
  let banks ← bankIds.mapM fun id => SharedBank.create? id c.l2 c.tags (.paged memories)
  return {
    processors := caches.map fun cache => { cache }
    banks
    memories := memoryIds.map fun id =>
      .create id (.ofConfig c.memory pageBits) c.tags c.l2.downstreamCredits.toNat
    net := .ofLatency c.topology.linkLatency.toNat
    maxCycles := c.maxCycles.toNat }

/-- Gives every core its accesses of a trace. At the first access of a core that
is not there loading ends. -/
def load (h : Hierarchy) (t : Trace) : Hierarchy × Option UnknownCore :=
  let cores := h.processors.length
  let known := t.entries.takeWhile fun e => e.core.toNat < cores
  let processors := h.processors.mapIdx fun i p => p.enqueue (known.filter fun e => e.core.toNat = i)
  let unknown := t.entries.find? fun e => cores ≤ e.core.toNat
  ({ h with processors }, unknown.map fun e => { core := e.core, cores })

/-- Every access is answered, and nothing is on its way anywhere. -/
def isDrained (h : Hierarchy) : Bool :=
  h.processors.all (·.core.isDone) && h.net.inFlight.isEmpty && h.processors.all (·.cache.isIdle)
    && h.banks.all (·.isIdle) && h.memories.all (·.isIdle)

/-- Queues a packet at its destination, if there is such a node. -/
def route? (h : Hierarchy) (p : Packet) : Option Hierarchy :=
  let dst := p.dst.index.toNat
  let firstBank := h.processors.length
  let firstMemory := firstBank + h.banks.length
  if dst < firstBank then
    some { h with
      processors := h.processors.modify dst fun q => { q with cache := q.cache.receive p } }
  else if dst < firstMemory then
    some { h with banks := h.banks.modify (dst - firstBank) (·.receive p) }
  else if dst < firstMemory + h.memories.length then
    some { h with memories := h.memories.modify (dst - firstMemory) (·.receive p) }
  else none

end Hierarchy

end CacheCoherence
