import CacheCoherence.Memory.Timing
import CacheCoherence.Traffic.Outlet
import CacheCoherence.Work

/-!
# Memory node — the controller at the end of the hierarchy

A memory node answers reads, absorbs writebacks and returns a credit for every
memory packet. Replies leave in the order of their requests: a fast access
never overtakes a slower one issued before it.
-/

namespace CacheCoherence

/-- What a memory node counts. -/
structure MemoryCounters where
  reads : Nat := 0
  writes : Nat := 0
  /-- Sum of the latencies of reads. -/
  readLatency : UInt64 := 0
  /-- Accesses that found their row open. -/
  rowHits : Nat := 0
deriving DecidableEq, Repr, Inhabited

/-- A memory controller on the interconnect. -/
structure MemoryNode where
  id : NodeId
  tags : MessageTags
  timing : MemoryTiming
  /-- Replies under way and the link. A reply is posted for the cycle at which it is
  ready. -/
  outlet : Outlet
  /-- Packets that wait for the next tick. -/
  inbound : List Packet := []
  cycle : UInt64 := 0
  counters : MemoryCounters := {}

namespace MemoryNode

/-- A memory node with all of its credits. -/
def create (id : NodeId) (timing : MemoryTiming) (tags : MessageTags) (credits : Nat) :
    MemoryNode :=
  { id, tags, timing, outlet := .create id 0 credits }

/-- Queues a packet for the next tick. -/
def receive (m : MemoryNode) (p : Packet) : MemoryNode := { m with inbound := m.inbound ++ [p] }

/-- The reply to a read of `addr` by `requester`. -/
def replyTo (m : MemoryNode) (addr : Addr) (requester : NodeId) : Packet :=
  { tag := m.tags.memory
    src := m.id
    dst := requester
    payload := .memory { op := .reply, addr, src := m.id } }

/-- The cycle before which no further reply may leave. -/
def lastReady (m : MemoryNode) : Nat := (m.outlet.delay.items.getLast?.map (·.1)).getD 0

/-- Prices an access and counts whether it found its row open. -/
def price (m : MemoryNode) (addr : Addr) : AccessPrice × MemoryNode :=
  let (p, timing) := m.timing.access addr
  (p, { m with
    timing
    counters := { m.counters with rowHits := m.counters.rowHits + p.rowHit.toNat } })

/-- Serves a memory message. A read is answered once its latency has passed and
no earlier reply is still under way; a write is done at once. -/
def serve (m : MemoryNode) (msg : MemoryMessage) : Except Fault MemoryNode :=
  match msg.op with
  | .read =>
      let (p, m) := m.price msg.addr
      let ready := max (m.cycle + p.latency).toNat m.lastReady
      .ok { m with
        outlet := m.outlet.post ready (m.replyTo msg.addr msg.src)
        counters := { m.counters with
          reads := m.counters.reads + 1
          readLatency := m.counters.readLatency + p.latency } }
  | .write =>
      let (_, m) := m.price msg.addr
      .ok { m with counters := { m.counters with writes := m.counters.writes + 1 } }
  | .reply => .error (.mismatchedPayload m.id m.tags.memory "memory reply")

/-- Takes a credit back. -/
def takeCredit (m : MemoryNode) : Work MemoryNode :=
  match m.outlet.link.creditArrived? with
  | some (link, sent) => .done { m with outlet := { m.outlet with link } } sent
  | none => .faulted m (.creditOverflow m.id m.outlet.link.maxCredits)

/-- Returns a credit to the sender of a packet. -/
def giveCredit (m : MemoryNode) (peer : NodeId) : Work MemoryNode :=
  let (link, credit) := m.outlet.link.returnCredit peer m.tags.credit
  .done { m with outlet := { m.outlet with link } } [credit]

/-- Handles one packet. -/
def dispatch (m : MemoryNode) (p : Packet) : Work MemoryNode :=
  match p.payload with
  | .credit => if p.tag = m.tags.credit then m.takeCredit else .faulted m (m.tags.refuse m.id p)
  | .memory msg =>
      if p.tag = m.tags.memory then
        (m.giveCredit p.src).andThen fun m => .ofExcept m (m.serve msg)
      else .faulted m (m.tags.refuse m.id p)
  | .coherence _ => .faulted m (m.tags.refuse m.id p)

/-- Offers the replies that are ready to the link. -/
def release (m : MemoryNode) : Work MemoryNode :=
  let (outlet, sent) := m.outlet.flush m.cycle
  .done { m with outlet } sent

/-- One cycle: every queued packet in order, then the replies that are ready. -/
def tick (m : MemoryNode) : Work MemoryNode :=
  let m := { m with cycle := m.cycle + 1 }
  (Work.through (fun m queue => { m with inbound := queue }) dispatch m m.inbound).andThen release

/-- Nothing is queued, under way or waiting for a credit. -/
def isIdle (m : MemoryNode) : Bool :=
  m.inbound.isEmpty && m.outlet.isEmpty

/-- The one-line summary of the node. -/
def describe (m : MemoryNode) : String :=
  "MemoryNode \x7b id: " ++ m.id.describe ++ s!", cycle: {m.cycle}, pending: "
    ++ s!"{m.outlet.delay.size}, credits: {m.outlet.link.credits}, .. \x7d"

end MemoryNode

end CacheCoherence
