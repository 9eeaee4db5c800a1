import CacheCoherence.SharedBank.Admission
import CacheCoherence.SharedBank.Messages

/-!
# A cycle of a shared bank

In one cycle a bank handles every packet that arrived, in order of arrival, and
then lets the packets leave whose time has come. All that a packet causes, woken
requests included, is done before the next packet is looked at.
-/

namespace CacheCoherence.SharedBank

/-- The bank with `rest` as the requests that are still to be tried again. -/
def retrying (c : SharedBank) (rest : List (Parked CoherenceMessage)) : SharedBank :=
  { c with backlog := { c.backlog with retries := rest } }

/-- What is left to do after a retry: parking the request again shortens the
queue, and anything else lowers the load. -/
theorem retry_decreases {c d : SharedBank} {e : Parked CoherenceMessage}
    {rest : List (Parked CoherenceMessage)} (hq : c.backlog.retries = e :: rest)
    (hp : (c.retrying rest).process e.item false = .ok d) :
    Prod.Lex (· < ·) (· < ·) (d.load, d.backlog.retries.length)
      (c.load, c.backlog.retries.length) := by
  have hc : c.load = (c.retrying rest).load + 1 := by
    simp only [load, Backlog.load, retrying, hq, List.length_cons]
    omega
  rcases load_process hp with h | ⟨h, hr⟩
  · exact Prod.Lex.left _ _ (by omega)
  · rw [show d.load = c.load by omega, hr, hq]
    exact Prod.Lex.right _ (by simp [retrying])

/-- Tries the woken requests again, one after another, until none is left or one
faults. -/
def drain (c : SharedBank) : Work SharedBank :=
  match hq : c.backlog.retries with
  | [] => .done c
  | e :: rest =>
      match hp : (c.retrying rest).process e.item false with
      | .error fault => .faulted (c.retrying rest) fault
      | .ok d =>
          have := retry_decreases hq hp
          d.drain
termination_by (c.load, c.backlog.retries.length)
decreasing_by exact this

theorem drain_nil {c : SharedBank} (hq : c.backlog.retries = []) : c.drain = .done c := by
  unfold drain
  split
  · rfl
  · next hq' => simp [hq] at hq'

theorem drain_cons {c : SharedBank} {e : Parked CoherenceMessage} {rest : List (Parked CoherenceMessage)}
    (hq : c.backlog.retries = e :: rest) :
    c.drain = (Work.ofExcept (c.retrying rest) ((c.retrying rest).process e.item false)).andThen
      drain := by
  conv => lhs; unfold drain
  split
  · next hq' => simp [hq] at hq'
  · next e' rest' hq' =>
    rw [hq] at hq'
    cases hq'
    split <;> next hp => simp only [hp, Work.ofExcept, Work.andThen_done, Work.andThen_faulted]

/-- Takes a credit back. -/
def takeCredit (c : SharedBank) : Work SharedBank :=
  let c := { c with
    counters := { c.counters with creditsReceived := c.counters.creditsReceived + 1 } }
  match c.outlet.link.creditArrived? with
  | some (link, sent) => .done { c with outlet := { c.outlet with link } } sent
  | none => .faulted c (.creditOverflow c.id c.outlet.link.maxCredits)

/-- Returns a credit to the sender of a packet. -/
def giveCredit (c : SharedBank) (peer : NodeId) : Work SharedBank :=
  let (link, credit) := c.outlet.link.returnCredit peer c.tags.credit
  .done { c with
    outlet := { c.outlet with link }
    counters := { c.counters with creditsSent := c.counters.creditsSent + 1 } } [credit]

/-- Handles a coherence message. -/
def handle (c : SharedBank) (msg : CoherenceMessage) : Except Fault SharedBank :=
  match msg.kind with
  | .request => c.process msg true
  | .reply => c.handleReply msg

/-- Handles one packet. A shared bank consumes coherence messages, replies of
memory and credits. -/
def dispatch (c : SharedBank) (p : Packet) : Work SharedBank :=
  match p.payload with
  | .credit => if p.tag = c.tags.credit then c.takeCredit else .faulted c (c.tags.refuse c.id p)
  | .coherence msg =>
      if p.tag = c.tags.coherence then
        (c.giveCredit p.src).andThen fun c => .ofExcept c (c.handle msg)
      else .faulted c (c.tags.refuse c.id p)
  | .memory msg =>
      if p.tag = c.tags.memory ∧ msg.op = .reply then
        (c.giveCredit p.src).andThen fun c => .ofExcept c (c.handleMemory msg)
      else .faulted c (c.tags.refuse c.id p)

/-- Handles one packet and everything that it causes. -/
def react (c : SharedBank) (p : Packet) : Work SharedBank := (c.dispatch p).andThen drain

/-- Lets the packets leave that are ready. -/
def flush (c : SharedBank) : Work SharedBank :=
  let (outlet, sent) := c.outlet.flush c.cycle
  .done { c with outlet } sent

/-- The start of a cycle: time goes on, and the occupancies are recorded. -/
def beginCycle (c : SharedBank) : SharedBank :=
  { c with
    cycle := c.cycle + 1
    counters := c.counters.sample c.table.occupancy c.mshr.occupancy }

/-- One cycle. -/
def tick (c : SharedBank) : Work SharedBank :=
  let c := c.beginCycle
  (Work.through (fun c queue => { c with inbound := queue }) react c c.inbound).andThen flush

/-! ## Looking at a bank -/

/-- The entry of the line of `a`, if it is resident. -/
def entry? (c : SharedBank) (a : Addr) : Option (LineEntry ManagerLine) :=
  (c.table.resident? a).map (·.2)

/-- What is known about the line of `a`, whether it is resident or being fetched. -/
def line? (c : SharedBank) (a : Addr) : Option ManagerLine :=
  match c.mshr.outstanding? (c.table.lineAddr a) with
  | some (_, .miss m) => some m.controller
  | _ => (c.entry? a).map (·.controller)

/-- Nothing is queued, parked, outstanding or on its way out. -/
def isIdle (c : SharedBank) : Bool :=
  c.inbound.isEmpty && c.backlog.isEmpty && c.mshr.occupancy == 0 && c.outlet.isEmpty

/-- The one-line summary of the bank. -/
def describe (c : SharedBank) : String :=
  "L2Cache \x7b id: " ++ c.id.describe ++ ", protocol: \"MESI\", "
    ++ s!"cycle: {c.cycle}, resident: {c.table.occupancy}, mshr: {c.mshr.occupancy}, "
    ++ s!"stalled: {c.backlog.parked.size}, credits: {c.outlet.link.credits}, .. \x7d"

end CacheCoherence.SharedBank
