import CacheCoherence.Backlog
import CacheCoherence.Config
import CacheCoherence.Counters
import CacheCoherence.Request
import CacheCoherence.Table.Lines
import CacheCoherence.Table.Mshr
import CacheCoherence.Traffic.Outlet
import CacheCoherence.Work

/-!
# Private cache — the cache of one processor

A private cache plays the client side of the protocol. It holds resident lines,
registers of outstanding misses and upgrades, a backlog of blocked requests, and
the way out to the interconnect. This module holds its state and the small
changes that everything else is made of; each of them says what it does to the
backlog, which is what bounds the work of one event.
-/

namespace CacheCoherence

/-- A line that is being fetched. -/
structure ClientMiss where
  /-- The state of the line, which is not resident yet. -/
  state : ClientState
  /-- The way reserved for the line, or the victim whose way it will take over. -/
  way : Handle
  /-- The request that missed. -/
  request : Request
  /-- The victim behind `way` is still being evicted. -/
  awaitsVictim : Bool
deriving DecidableEq, Repr

/-- What a private cache waits for on a line. -/
inductive ClientTransaction where
  /-- The line is not resident. -/
  | miss (m : ClientMiss)
  /-- The line is resident behind `way` and waits for more permission. -/
  | upgrade (way : Handle) (request : Request)
deriving DecidableEq, Repr

/-- The request that opened the transaction. -/
def ClientTransaction.request : ClientTransaction → Request
  | miss m => m.request
  | upgrade _ request => request

/-- What arrives at a private cache. -/
inductive ClientInput where
  | request (r : Request)
  | packet (p : Packet)
deriving DecidableEq, Repr

/-- The cache of one processor. -/
structure PrivateCache where
  id : NodeId
  tags : MessageTags
  /-- Who manages a line. -/
  managers : Route
  table : LineTable ClientState
  mshr : Mshr ClientTransaction
  backlog : Backlog Request := {}
  outlet : Outlet
  /-- Requests that are done, until the hit time has passed. -/
  responses : DelayLine Request
  /-- Events that wait for the next tick. -/
  inbound : List ClientInput := []
  cycle : Nat := 0
  counters : Counters := {}
deriving DecidableEq, Repr

namespace PrivateCache

/-- A cache without lines. -/
def create? (id : NodeId) (config : NodeConfig) (tags : MessageTags) (managers : Route) :
    Except ConfigError PrivateCache := do
  config.validate
  tags.validate
  let table ← (LineTable.leastRecent? config.cache).mapError .geometry
  return {
    id, tags, managers, table
    mshr := .ofCapacity config.mshrEntries.toNat
    outlet := .create id config.cache.lookupTime.toNat config.downstreamCredits.toNat
    responses := { latency := config.cache.hitTime.toNat } }

/-- Queues a request of the processor for the next tick. -/
def request (c : PrivateCache) (r : Request) : PrivateCache :=
  { c with inbound := c.inbound ++ [.request r] }

/-- Queues a packet for the next tick. -/
def receive (c : PrivateCache) (p : Packet) : PrivateCache :=
  { c with inbound := c.inbound ++ [.packet p] }

/-- Requests that are parked or to be tried again. -/
def load (c : PrivateCache) : Nat := c.backlog.load

/-! ## Small changes -/

/-- Looks an event on `line` up in the client table; a refusal is a fault. -/
def step (c : PrivateCache) (line : Addr) (s : ClientState) (event : ClientEvent) :
    Except Fault ClientTransition :=
  (s.transition event).mapError (.clientViolation c.id line)

/-- Posts a message about `line`. -/
def send (c : PrivateCache) (op : Opcode) (line : Addr) (dst : NodeId) : PrivateCache :=
  { c with
    outlet := c.outlet.post c.cycle {
      tag := c.tags.coherence
      src := c.id
      dst
      payload := .coherence (.build op line c.id) }
    counters := { c.counters with messagesSent := c.counters.messagesSent + 1 } }

/-- Carries out one action of a transition on `line`. -/
def act (c : PrivateCache) (line : Addr) : ClientAction → PrivateCache
  | .toManager op => c.send op line (c.managers.lookup line)
  | .toPeer op dest => c.send op line dest

/-- Carries out the actions of a transition on `line`, in order. -/
def perform (c : PrivateCache) (line : Addr) (actions : List ClientAction) : PrivateCache :=
  actions.foldl (fun c a => c.act line a) c

/-- Moves the resident line behind `way` to its next state. -/
def commit (c : PrivateCache) (way : Handle) (next : ClientState) : PrivateCache :=
  { c with
    table := c.table.modify way fun e =>
      { e with
        controller := next
        dirty := next.isDirty
        haveData := e.haveData && !next.isInvalid } }

/-- Sends the response of a request on its way. -/
def respond (c : PrivateCache) (r : Request) : PrivateCache :=
  { c with responses := c.responses.push c.cycle r }

/-- Parks a request. -/
def park (c : PrivateCache) (r : Request) (line : Addr) (reason : StallReason) (watch : Addr) :
    PrivateCache :=
  let backlog := c.backlog.park { item := r, line, reason, watch, since := c.cycle }
  { c with
    backlog
    counters := { c.counters.countStall reason with deepestParking := backlog.parked.deepest } }

/-- Wakes the parked requests that `event` releases. -/
def wake (c : PrivateCache) (event : WakeEvent) : PrivateCache :=
  { c with backlog := c.backlog.wake event }

/-- Counts an access that opens a transaction. -/
def countMiss (c : PrivateCache) : PrivateCache :=
  { c with counters := { c.counters with misses := c.counters.misses + 1 } }

/-! ## What the small changes do to the backlog -/

@[simp] theorem backlog_act (c : PrivateCache) (line : Addr) (a : ClientAction) :
    (c.act line a).backlog = c.backlog := by
  cases a <;> rfl

@[simp] theorem backlog_perform (c : PrivateCache) (line : Addr) (actions : List ClientAction) :
    (c.perform line actions).backlog = c.backlog := by
  induction actions generalizing c with
  | nil => rfl
  | cons a rest ih =>
    show ((c.act line a).perform line rest).backlog = c.backlog
    rw [ih, backlog_act]

@[simp] theorem backlog_commit (c : PrivateCache) (way : Handle) (next : ClientState) :
    (c.commit way next).backlog = c.backlog := rfl

@[simp] theorem backlog_wake (c : PrivateCache) (event : WakeEvent) :
    (c.wake event).backlog = c.backlog.wake event := rfl

end PrivateCache

end CacheCoherence
