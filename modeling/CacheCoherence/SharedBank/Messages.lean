import CacheCoherence.SharedBank.Replacement

/-!
# Replies at a shared bank

Replies are never parked; they are what moves a transaction forward. Memory's
reply lets the bank grant the line to the client that missed, and the clients'
replies bring a line back to a stable state, which ends its transaction or its
eviction.
-/

namespace CacheCoherence.SharedBank

/-- Ends a transaction on `line`: frees its register and wakes what waited for it
or for the line. -/
def conclude (c : SharedBank) (register : Handle) (line : Addr) : SharedBank :=
  let c := { c with mshr := (c.mshr.release register).2 }
  (c.wake .registerReleased).wake (.transactionDone line)

/-- Files a fetched line in the way reserved for it. -/
def completeFill (c : SharedBank) (register : Handle) (line : Addr) (m : ManagerMiss) :
    Except Fault SharedBank :=
  let e := { haveData := true, dirty := m.dirty, evicting := false, controller := m.controller }
  match c.table.install? m.way e with
  | some table => .ok ({ c with table }.conclude register line)
  | none => .error (.lostReservation c.id line)

/-- Applies an event to a line that is being fetched; its data is there from now
on. -/
def advanceMiss (c : SharedBank) (register : Handle) (line : Addr) (m : ManagerMiss)
    (event : ManagerEvent) : Except Fault SharedBank := do
  let t ← c.step line m.controller event
  let m := { m with
    controller := t.next
    dirty := m.dirty || t.returnsData
    stage := .awaitingClients }
  let c := { c with mshr := c.mshr.modify register fun _ => .miss m }.perform line t.actions
  if t.next.isStable then c.completeFill register line m else return c

/-- Handles memory's reply: the request that missed now gets its answer. -/
def handleMemory (c : SharedBank) (msg : MemoryMessage) : Except Fault SharedBank :=
  let line := c.table.lineAddr msg.addr
  match c.mshr.outstanding? line with
  | some (register, .miss m) =>
      if m.stage = .awaitingMemory then
        c.advanceMiss register line m (.request m.request.op m.request.src)
      else .error (.unexpectedMemoryReply c.id line)
  | _ => .error (.unexpectedMemoryReply c.id line)

/-- Handles the reply of a client on a resident line with a transaction. -/
def advanceResident (c : SharedBank) (register : Handle) (line : Addr) (way : Handle)
    (event : ManagerEvent) : Except Fault SharedBank :=
  match c.table.entry? way with
  | none => .error (.lostReservation c.id line)
  | some e => do
      let t ← c.step line e.controller event
      let c := c.commit way line t
      if t.next.isStable then return c.conclude register line else return c

/-- Handles the reply of a client on a resident line without a transaction, which
is a line that is being evicted. -/
def advanceEviction (c : SharedBank) (line : Addr) (way : Handle) (e : LineEntry ManagerLine)
    (event : ManagerEvent) : Except Fault SharedBank := do
  let t ← c.step line e.controller event
  let c := c.commit way line t
  if e.evicting && t.next.isStable then c.finishEviction way line else return c

/-- Handles the reply of a client. -/
def handleReply (c : SharedBank) (msg : CoherenceMessage) : Except Fault SharedBank :=
  let line := c.table.lineAddr msg.addr
  let event := .reply msg.op msg.src
  match c.mshr.outstanding? line with
  | some (register, .miss m) =>
      if m.stage = .awaitingClients then c.advanceMiss register line m event
      else .error (.unexpectedReply c.id msg.op line)
  | some (register, .resident way) => c.advanceResident register line way event
  | none =>
      match c.table.resident? line with
      | some (way, e) => c.advanceEviction line way e event
      | none => .error (.unexpectedReply c.id msg.op line)

end CacheCoherence.SharedBank
