import CacheCoherence.PrivateCache.Replacement

/-!
# Coherence messages at a private cache

A message meets a line that is being fetched, a resident line, or no line at
all. A line that reaches a stable state ends its transaction: the processor gets
its response, and the requests that waited for the line or for a register are
woken. A demand for a line that was dropped silently is acknowledged all the
same.
-/

namespace CacheCoherence.PrivateCache

/-- The state of a line once the access that waited for it is done: a store
leaves the line dirty where the state allows that without a message. -/
def settled (s : ClientState) (r : Request) : ClientState :=
  match r.access, s.onProcessor .store with
  | .write, some t => if t.actions.isEmpty && t.next.isStable then t.next else s
  | _, _ => s

/-- Ends a transaction on `line`: frees its register, answers its request and
wakes what waited for either. -/
def conclude (c : PrivateCache) (register : Handle) (line : Addr) (r : Request) : PrivateCache :=
  let c := { c with mshr := (c.mshr.release register).2 }.respond r
  (c.wake .registerReleased).wake (.transactionDone line)

/-- Files a fetched line in the way reserved for it. -/
def completeFill (c : PrivateCache) (register : Handle) (line : Addr) (m : ClientMiss) :
    Except Fault PrivateCache :=
  let controller := settled m.state m.request
  let e := { haveData := true, dirty := controller.isDirty, evicting := false, controller }
  match c.table.install? m.way e with
  | some table => .ok ({ c with table }.conclude register line m.request)
  | none => .error (.lostReservation c.id line)

/-- Ends an upgrade of the resident line behind `way`, which is now in state `s`. -/
def completeUpgrade (c : PrivateCache) (register way : Handle) (line : Addr) (s : ClientState)
    (r : Request) : PrivateCache :=
  let c := c.commit way (settled s r)
  let table := c.table.modify way fun e => { e with haveData := true }
  { c with table }.conclude register line r

/-- Drops a resident line that was taken away. -/
def drop (c : PrivateCache) (way : Handle) (line : Addr) : PrivateCache :=
  { c with table := (c.table.release way).2 }.wake (.transactionDone line)

/-- Handles a message about a line that is being fetched. -/
def handleMiss (c : PrivateCache) (register : Handle) (line : Addr) (m : ClientMiss)
    (event : ClientEvent) : Except Fault PrivateCache := do
  let t ← c.step line m.state event
  let m := { m with state := t.next }
  let c := { c with mshr := c.mshr.modify register fun _ => .miss m }.perform line t.actions
  if t.next.isStable && !t.next.isInvalid then c.completeFill register line m else return c

/-- Handles a message about a resident line. `upgrade` holds the register of the
line's transaction and its request, if there is one. -/
def handleResident (c : PrivateCache) (line : Addr) (way : Handle) (e : LineEntry ClientState)
    (upgrade : Option (Handle × Request)) (event : ClientEvent) : Except Fault PrivateCache := do
  let t ← c.step line e.controller event
  let c := (c.commit way t.next).perform line t.actions
  if e.evicting then
    if t.next.isInvalid then c.finishEviction way line else return c
  else
    match upgrade with
    | some (register, r) =>
        if t.next.isStable then return c.completeUpgrade register way line t.next r else return c
    | none => if t.next.isInvalid then return c.drop way line else return c

/-- Handles a coherence message. -/
def handle (c : PrivateCache) (msg : CoherenceMessage) : Except Fault PrivateCache :=
  let line := c.table.lineAddr msg.addr
  let event := .message msg.op msg.src msg.forwardTo
  let outstanding := c.mshr.outstanding? line
  match outstanding, c.table.resident? line with
  | some (register, .miss m), _ => c.handleMiss register line m event
  | _, some (way, e) =>
      c.handleResident line way e (outstanding.map fun (h, t) => (h, t.request)) event
  | _, none =>
      if msg.op = .demandI then .ok (c.send .unblockI line msg.src)
      else .error (.unexpectedReply c.id msg.op line)

end CacheCoherence.PrivateCache
