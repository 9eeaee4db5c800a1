import CacheCoherence.Backlog
import CacheCoherence.Config
import CacheCoherence.Counters
import CacheCoherence.Table.Lines
import CacheCoherence.Table.Mshr
import CacheCoherence.Traffic.Outlet
import CacheCoherence.Work

/-!
# Shared bank — a bank of the shared cache

A shared bank plays the manager side of the protocol for the lines mapped to it.
It tracks who holds a line, arbitrates between clients, fetches lines from memory
and writes dirty ones back. A missing line goes through up to three stages:

    awaitingVictim ──eviction over──▶ awaitingMemory ──data──▶ awaitingClients ──stable──▶ resident

This module holds the state of a bank and the small changes that everything else
is made of; each of them says what it does to the backlog.
-/

namespace CacheCoherence

/-- How far the fetch of a line has got. -/
inductive FillStage where
  /-- The victim in the target way is still being evicted. -/
  | awaitingVictim
  /-- The line has been asked of memory. -/
  | awaitingMemory
  /-- The data is there, and the requester has yet to acknowledge it. -/
  | awaitingClients
deriving DecidableEq, Repr

/-- The name of a stage in listings. -/
def FillStage.name : FillStage → String
  | .awaitingVictim => "AwaitingVictim"
  | .awaitingMemory => "AwaitingMemory"
  | .awaitingClients => "AwaitingClients"

/-- A line that is being fetched. -/
structure ManagerMiss where
  controller : ManagerLine
  /-- A client already returned data newer than memory's. -/
  dirty : Bool := false
  /-- The way reserved for the line, or the victim whose way it will take over. -/
  way : Handle
  /-- The request that missed. -/
  request : CoherenceMessage
  stage : FillStage
deriving DecidableEq, Repr

/-- Whether the line's data has come from memory. -/
def ManagerMiss.haveData (m : ManagerMiss) : Bool := m.stage == .awaitingClients

/-- What a shared bank waits for on a line. -/
inductive ManagerTransaction where
  /-- The line is not resident. -/
  | miss (m : ManagerMiss)
  /-- The line is resident behind `way` and waits for clients. -/
  | resident (way : Handle)
deriving DecidableEq, Repr

/-- Whether the transition took dirty data back from a client. -/
def ManagerTransition.returnsData (t : ManagerTransition) : Bool := t.actions.contains .writeback

/-- One bank of the shared cache. -/
structure SharedBank where
  id : NodeId
  tags : MessageTags
  /-- Which memory controller holds a line. -/
  memories : Route
  table : LineTable ManagerLine
  mshr : Mshr ManagerTransaction
  backlog : Backlog CoherenceMessage := {}
  outlet : Outlet
  /-- Packets that wait for the next tick. -/
  inbound : List Packet := []
  cycle : Nat := 0
  counters : Counters := {}
deriving DecidableEq, Repr

namespace SharedBank

/-- A bank without lines. -/
def create? (id : NodeId) (config : NodeConfig) (tags : MessageTags) (memories : Route) :
    Except ConfigError SharedBank := do
  config.validate
  tags.validate
  let table ← (LineTable.leastRecent? config.cache).mapError .geometry
  return {
    id, tags, memories, table
    mshr := .ofCapacity config.mshrEntries.toNat
    outlet := .create id config.cache.lookupTime.toNat config.downstreamCredits.toNat }

/-- Queues a packet for the next tick. Packets of clients and of memory share one
queue. -/
def receive (c : SharedBank) (p : Packet) : SharedBank := { c with inbound := c.inbound ++ [p] }

/-- Requests that are parked or to be tried again. -/
def load (c : SharedBank) : Nat := c.backlog.load

/-! ## Small changes -/

/-- Looks an event on `line` up in the manager table; a refusal is a fault. -/
def step (c : SharedBank) (line : Addr) (l : ManagerLine) (event : ManagerEvent) :
    Except Fault ManagerTransition :=
  (l.transition event).mapError (.managerViolation c.id line)

/-- Posts a packet. -/
def emit (c : SharedBank) (tag : Tag) (dst : NodeId) (payload : Payload) : SharedBank :=
  { c with
    outlet := c.outlet.post c.cycle { tag, src := c.id, dst, payload }
    counters := { c.counters with messagesSent := c.counters.messagesSent + 1 } }

/-- Posts a message about `line` to the memory controller that holds it. -/
def toMemory (c : SharedBank) (op : MemoryOp) (line : Addr) : SharedBank :=
  c.emit c.tags.memory (c.memories.lookup line) (.memory { op, addr := line, src := c.id })

/-- Carries out one action of a transition on `line`. Data that came back is
noted where the line's entry is kept. -/
def act (c : SharedBank) (line : Addr) : ManagerAction → SharedBank
  | .send op dest forwardTo =>
      c.emit c.tags.coherence dest (.coherence { CoherenceMessage.build op line c.id with forwardTo })
  | .writeback => c
  | .ignore =>
      { c with counters := { c.counters with staleIgnored := c.counters.staleIgnored + 1 } }

/-- Carries out the actions of a transition on `line`, in order. -/
def perform (c : SharedBank) (line : Addr) (actions : List ManagerAction) : SharedBank :=
  actions.foldl (fun c a => c.act line a) c

/-- Applies a transition to the resident line behind `way`. -/
def commit (c : SharedBank) (way : Handle) (line : Addr) (t : ManagerTransition) : SharedBank :=
  let c := c.perform line t.actions
  { c with
    table := c.table.modify way fun e =>
      { e with controller := t.next, dirty := e.dirty || t.returnsData } }

/-- Parks a request. -/
def park (c : SharedBank) (msg : CoherenceMessage) (line : Addr) (reason : StallReason)
    (watch : Addr) : SharedBank :=
  let backlog := c.backlog.park { item := msg, line, reason, watch, since := c.cycle }
  { c with
    backlog
    counters := { c.counters.countStall reason with deepestParking := backlog.parked.deepest } }

/-- Wakes the parked requests that `event` releases. -/
def wake (c : SharedBank) (event : WakeEvent) : SharedBank :=
  { c with backlog := c.backlog.wake event }

/-- Counts a request whose line has to be fetched. -/
def countMiss (c : SharedBank) : SharedBank :=
  { c with counters := { c.counters with misses := c.counters.misses + 1 } }

/-! ## What the small changes do to the backlog -/

@[simp] theorem backlog_toMemory (c : SharedBank) (op : MemoryOp) (line : Addr) :
    (c.toMemory op line).backlog = c.backlog := rfl

@[simp] theorem backlog_act (c : SharedBank) (line : Addr) (a : ManagerAction) :
    (c.act line a).backlog = c.backlog := by
  cases a <;> rfl

@[simp] theorem backlog_perform (c : SharedBank) (line : Addr) (actions : List ManagerAction) :
    (c.perform line actions).backlog = c.backlog := by
  induction actions generalizing c with
  | nil => rfl
  | cons a rest ih =>
    show ((c.act line a).perform line rest).backlog = c.backlog
    rw [ih, backlog_act]

@[simp] theorem backlog_commit (c : SharedBank) (way : Handle) (line : Addr)
    (t : ManagerTransition) : (c.commit way line t).backlog = c.backlog :=
  backlog_perform c line t.actions

@[simp] theorem backlog_wake (c : SharedBank) (event : WakeEvent) :
    (c.wake event).backlog = c.backlog.wake event := rfl

end SharedBank

end CacheCoherence
