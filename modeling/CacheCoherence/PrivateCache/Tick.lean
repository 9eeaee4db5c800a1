import CacheCoherence.PrivateCache.Admission
import CacheCoherence.PrivateCache.Messages

/-!
# A cycle of a private cache

In one cycle a cache handles everything that arrived, in order of arrival, and
then lets packets and responses leave whose time has come. All that an event
causes, woken requests included, is done before the next event is looked at.
-/

namespace CacheCoherence.PrivateCache

/-- The cache with `rest` as the requests that are still to be tried again. -/
def retrying (c : PrivateCache) (rest : List (Parked Request)) : PrivateCache :=
  { c with backlog := { c.backlog with retries := rest } }

/-- What is left to do after a retry: parking the request again shortens the
queue, and anything else lowers the load. -/
theorem retry_decreases {c d : PrivateCache} {e : Parked Request} {rest : List (Parked Request)}
    (hq : c.backlog.retries = e :: rest) (hp : (c.retrying rest).process e.item false = .ok d) :
    Prod.Lex (· < ·) (· < ·) (d.load, d.backlog.retries.length)
      (c.load, c.backlog.retries.length) := by
  have hc : c.load = (c.retrying rest).load + 1 := by
    simp only [load, Backlog.load, retrying, hq, List.length_cons]
    omega
  rcases load_process hp with h | ⟨h, hr⟩
  · exact Prod.Lex.left _ _ (by omega)
  · rw [show d.load = c.load by omega, hr, hq]
    exact Prod.Lex.right _ (by simp [retrying])

/-- Tries the woken requests again, one after another, until none is left or one
faults. -/
def drain (c : PrivateCache) : Work PrivateCache :=
  match hq : c.backlog.retries with
  | [] => .done c
  | e :: rest =>
      match hp : (c.retrying rest).process e.item false with
      | .error fault => .faulted (c.retrying rest) fault
      | .ok d =>
          have := retry_decreases hq hp
          d.drain
termination_by (c.load, c.backlog.retries.length)
decreasing_by exact this

theorem drain_nil {c : PrivateCache} (hq : c.backlog.retries = []) : c.drain = .done c := by
  unfold drain
  split
  · rfl
  · next hq' => simp [hq] at hq'

theorem drain_cons {c : PrivateCache} {e : Parked Request} {rest : List (Parked Request)}
    (hq : c.backlog.retries = e :: rest) :
    c.drain = (Work.ofExcept (c.retrying rest) ((c.retrying rest).process e.item false)).andThen
      drain := by
  conv => lhs; unfold drain
  split
  · next hq' => simp [hq] at hq'
  · next e' rest' hq' =>
    rw [hq] at hq'
    cases hq'
    split <;> next hp => simp only [hp, Work.ofExcept, Work.andThen_done, Work.andThen_faulted]

/-- Takes a credit back. -/
def takeCredit (c : PrivateCache) : Work PrivateCache :=
  let c := { c with
    counters := { c.counters with creditsReceived := c.counters.creditsReceived + 1 } }
  match c.outlet.link.creditArrived? with
  | some (link, sent) => .done { c with outlet := { c.outlet with link } } sent
  | none => .faulted c (.creditOverflow c.id c.outlet.link.maxCredits)

/-- Returns a credit to the sender of a packet. -/
def giveCredit (c : PrivateCache) (peer : NodeId) : Work PrivateCache :=
  let (link, credit) := c.outlet.link.returnCredit peer c.tags.credit
  .done { c with
    outlet := { c.outlet with link }
    counters := { c.counters with creditsSent := c.counters.creditsSent + 1 } } [credit]

/-- Handles one packet. A private cache consumes coherence messages and credits. -/
def dispatch (c : PrivateCache) (p : Packet) : Work PrivateCache :=
  match p.payload with
  | .credit => if p.tag = c.tags.credit then c.takeCredit else .faulted c (c.tags.refuse c.id p)
  | .coherence msg =>
      if p.tag = c.tags.coherence then
        (c.giveCredit p.src).andThen fun c => .ofExcept c (c.handle msg)
      else .faulted c (c.tags.refuse c.id p)
  | .memory _ => .faulted c (c.tags.refuse c.id p)

/-- Handles one event and everything that it causes. -/
def react (c : PrivateCache) (input : ClientInput) : Work PrivateCache :=
  match input with
  | .request r => (Work.ofExcept (c.countRequest r) ((c.countRequest r).process r true)).andThen drain
  | .packet p => (c.dispatch p).andThen drain

/-- Lets the packets leave that are ready. -/
def flush (c : PrivateCache) : Work PrivateCache :=
  let (outlet, sent) := c.outlet.flush c.cycle
  .done { c with outlet } sent

/-- The start of a cycle: time goes on, and the occupancies are recorded. -/
def beginCycle (c : PrivateCache) : PrivateCache :=
  { c with
    cycle := c.cycle + 1
    counters := c.counters.sample c.table.occupancy c.mshr.occupancy }

/-- The requests whose responses are due. -/
def answered (c : PrivateCache) : List Request := c.responses.arrived c.cycle

/-- The cache without the responses that are due. -/
def collect (c : PrivateCache) : PrivateCache :=
  { c with responses := c.responses.remaining c.cycle }

/-- One cycle, with the requests that are answered in it. A fault keeps back all
responses. -/
def tick (c : PrivateCache) : Work PrivateCache × List Request :=
  let c := c.beginCycle
  let w := (Work.through (fun c queue => { c with inbound := queue }) react c c.inbound).andThen
    flush
  match w.fault with
  | some _ => (w, [])
  | none => ({ w with node := w.node.collect }, w.node.answered)

/-! ## Looking at a cache -/

/-- The state of the line of `a`, whether it is resident or being fetched. -/
def lineState? (c : PrivateCache) (a : Addr) : Option ClientState :=
  let line := c.table.lineAddr a
  match c.mshr.outstanding? line with
  | some (_, .miss m) => some m.state
  | _ => (c.table.resident? line).map (·.2.controller)

/-- Nothing is queued, parked, outstanding or on its way out. -/
def isIdle (c : PrivateCache) : Bool :=
  c.inbound.isEmpty && c.backlog.isEmpty && c.mshr.occupancy == 0 && c.outlet.isEmpty
    && c.responses.isEmpty

/-- The one-line summary of the cache. -/
def describe (c : PrivateCache) : String :=
  "L1Cache \x7b id: " ++ c.id.describe ++ ", protocol: \"MESI\", "
    ++ s!"cycle: {c.cycle}, resident: {c.table.occupancy}, mshr: {c.mshr.occupancy}, "
    ++ s!"stalled: {c.backlog.parked.size}, credits: {c.outlet.link.credits}, .. \x7d"

end CacheCoherence.PrivateCache
