import CacheCoherence.Proofs.Memory.Posts
import Mathlib.Data.List.Induction

/-!
# Replies — a memory node answers in order and on time

What a memory node is asked for settles what it replies, and when. Accesses are priced in the
order in which they are dispatched, and a reply is due once its own latency has passed and every
earlier reply is due. In that very cycle it is given to the link, where it may have to wait for a
credit. The clock has 64 bits, and a latency with which it would come round is not waited for.
-/

namespace CacheCoherence

/-! ## When replies are due -/

/-- A read that a memory node has dispatched. -/
structure MemoryRead where
  /-- The cycle in which it was dispatched. -/
  cycle : Nat
  addr : Addr
  requester : NodeId
  /-- What the access was priced at. -/
  latency : UInt64
deriving DecidableEq, Repr

/-- The cycle in which the latency of a read has passed. It counts for nothing where it takes the
clock round. -/
def MemoryRead.ready (r : MemoryRead) : Nat :=
  if r.cycle + r.latency.toNat < UInt64.size then r.cycle + r.latency.toNat else r.cycle

theorem MemoryRead.cycle_le_ready (r : MemoryRead) : r.cycle ≤ r.ready := by
  unfold ready
  split
  · exact Nat.le_add_right ..
  · exact Nat.le_refl _

/-- On the clock a latency that takes it round ends in the past. -/
theorem MemoryRead.max_clock (r : MemoryRead) {clock : UInt64} (h : clock.toNat = r.cycle) :
    max (clock + r.latency).toNat r.cycle = r.ready := by
  have hclock := clock.toNat_lt
  have hlatency := r.latency.toNat_lt
  rw [ready, UInt64.toNat_add, h, show UInt64.size = 2 ^ 64 from rfl]
  split <;> omega

/-- The timing model after the accesses that some messages ask for. Beside a message stands the
cycle in which it is dispatched. -/
def MemoryTiming.afterAll (timing : MemoryTiming) (messages : List (Nat × MemoryMessage)) :
    MemoryTiming :=
  messages.foldl (fun timing (_, msg) => (timing.access msg.addr).2) timing

/-- The reads among some messages. Other messages are priced as well. -/
def MemoryTiming.reads (timing : MemoryTiming) : List (Nat × MemoryMessage) → List MemoryRead
  | [] => []
  | (cycle, msg) :: rest =>
      let (price, timing) := timing.access msg.addr
      if msg.op = .read then
        { cycle, addr := msg.addr, requester := msg.src, latency := price.latency }
          :: timing.reads rest
      else timing.reads rest

/-- The cycle by which the latencies of all the reads have passed. -/
def latest (reads : List MemoryRead) : Nat :=
  (reads.map (·.ready)).foldl max 0

/-- The cycle in which the reply to the read at `k` is due. -/
def dueAt (reads : List MemoryRead) (k : Nat) : Nat := latest (reads.take (k + 1))

/-- The reads, each with the cycle in which its reply is due. -/
def scheduled (reads : List MemoryRead) : List (Nat × MemoryRead) :=
  reads.zipIdx.map fun (r, k) => (dueAt reads k, r)

/-- The reads whose replies are due in a cycle of a certain kind. -/
def due (reads : List MemoryRead) (p : Nat → Bool) : List MemoryRead :=
  ((scheduled reads).filter fun s => p s.1).map (·.2)

section Schedule

variable {reads more : List MemoryRead} {r : MemoryRead} {now : Nat}

theorem latest_concat : latest (reads ++ [r]) = max (latest reads) r.ready := by
  simp [latest]

/-- Another read does not change when the replies to those before it are due. -/
theorem scheduled_concat : scheduled (reads ++ [r])
    = scheduled reads ++ [(max (latest reads) r.ready, r)] := by
  rw [scheduled, List.zipIdx_append, List.map_append]
  congr 1
  · refine List.map_congr_left fun ⟨x, k⟩ hk => ?_
    have hlt : k < reads.length := by simpa using List.snd_lt_of_mem_zipIdx hk
    simp only [dueAt]
    rw [List.take_append_of_le_length hlt]
  · simp [dueAt, latest_concat, List.take_of_length_le]

theorem le_latest {s : Nat × MemoryRead} (hs : s ∈ scheduled reads) : s.1 ≤ latest reads := by
  induction reads using List.reverseRecOn with
  | nil => cases hs
  | append_singleton rest r ih =>
    rw [scheduled_concat] at hs
    rw [latest_concat]
    rcases List.mem_append.1 hs with hs | hs
    · exact Nat.le_trans (ih hs) (Nat.le_max_left ..)
    · obtain rfl := List.mem_singleton.1 hs
      exact Nat.le_refl _

/-- Replies fall due in the order of their reads. -/
theorem pairwise_scheduled (reads : List MemoryRead) :
    (scheduled reads).Pairwise fun s s' => s.1 ≤ s'.1 := by
  induction reads using List.reverseRecOn with
  | nil => exact .nil
  | append_singleton rest r ih =>
    rw [scheduled_concat]
    refine List.pairwise_append.2 ⟨ih, List.pairwise_singleton .., fun s hs s' hs' => ?_⟩
    rw [List.mem_singleton.1 hs']
    exact Nat.le_trans (le_latest hs) (Nat.le_max_left ..)

/-- Further reads leave the schedule of those before them, and none of them is due before it is
dispatched. -/
theorem scheduled_append (reads more : List MemoryRead) :
    ∃ later, scheduled (reads ++ more) = scheduled reads ++ later ∧
      ∀ s ∈ later, ∃ r ∈ more, r.cycle ≤ s.1 := by
  induction more using List.reverseRecOn with
  | nil => exact ⟨[], by simp, nofun⟩
  | append_singleton rest r ih =>
    obtain ⟨later, hlater, hbound⟩ := ih
    refine ⟨later ++ [(max (latest (reads ++ rest)) r.ready, r)], ?_, ?_⟩
    · rw [← List.append_assoc, scheduled_concat, hlater, List.append_assoc]
    · intro s hs
      rcases List.mem_append.1 hs with hs | hs
      · obtain ⟨r', hr', hle⟩ := hbound s hs
        exact ⟨r', List.mem_append_left _ hr', hle⟩
      · rw [List.mem_singleton.1 hs]
        exact ⟨r, List.mem_append_right _ (List.mem_singleton_self r),
          Nat.le_trans r.cycle_le_ready (Nat.le_max_right ..)⟩

/-- Reads of later cycles do not change what is due by now. -/
theorem due_append {p : Nat → Bool} (hmore : ∀ r ∈ more, ∀ d, r.cycle ≤ d → p d = false) :
    due (reads ++ more) p = due reads p := by
  obtain ⟨later, hlater, hbound⟩ := scheduled_append reads more
  have hnone : (later.filter fun s => p s.1) = [] := by
    refine List.filter_eq_nil_iff.2 fun s hs => ?_
    obtain ⟨r, hr, hle⟩ := hbound s hs
    simp [hmore r hr s.1 hle]
  rw [due, hlater, List.filter_append, hnone, List.append_nil]
  rfl

/-- As long as a reply is under way, the last one is the last to be due. -/
theorem getLast?_undue (reads : List MemoryRead) (now : Nat) :
    ((scheduled reads).filter fun s => now < s.1).getLast?.map (·.1)
      = if now < latest reads then some (latest reads) else none := by
  induction reads using List.reverseRecOn with
  | nil => simp [scheduled, latest]
  | append_singleton rest r ih =>
    rw [scheduled_concat, latest_concat, List.filter_append]
    by_cases hlt : now < max (latest rest) r.ready
    · simp [hlt]
    · have hrest : ¬now < latest rest := by omega
      rw [if_neg hrest] at ih
      simpa [hlt] using ih

end Schedule

/-- In what falls due in order, what is due by now stands in front. -/
theorem takeWhile_due {α : Type} {l : List (Nat × α)} (hl : l.Pairwise fun s s' => s.1 ≤ s'.1)
    (now : Nat) : l.takeWhile (fun s => s.1 ≤ now) = l.filter (fun s => s.1 ≤ now) ∧
      l.dropWhile (fun s => s.1 ≤ now) = l.filter (fun s => now < s.1) := by
  induction l with
  | nil => exact ⟨rfl, rfl⟩
  | cons s rest ih =>
    obtain ⟨hhead, hrest⟩ := List.pairwise_cons.1 hl
    obtain ⟨htake, hdrop⟩ := ih hrest
    by_cases hs : s.1 ≤ now
    · simp [hs, htake, hdrop]
    · have hlate : ∀ s' ∈ rest, now < s'.1 := fun s' hs' =>
        Nat.lt_of_lt_of_le (Nat.lt_of_not_le hs) (hhead s' hs')
      have hnone : rest.filter (fun s => s.1 ≤ now) = [] := by
        simpa using hlate
      have hall : rest.filter (fun s => now < s.1) = rest := by
        simpa using hlate
      simp [hs, hnone, hall, Nat.lt_of_not_le hs]

/-- An item of a delay line, with the first cycle from `now` on in which it can leave. -/
def leavingFrom {α : Type} (now : Nat) (i : Nat × α) : Nat × α := (max i.1 now, i.2)

theorem leavingFrom_le {α : Type} {now : Nat} {i : Nat × α} :
    (leavingFrom now i).1 ≤ now ↔ i.1 ≤ now := by
  show max i.1 now ≤ now ↔ i.1 ≤ now
  omega

theorem leavingFrom_succ {α : Type} (now : Nat) (i : Nat × α) :
    leavingFrom (now + 1) (leavingFrom now i) = leavingFrom (now + 1) i := by
  simp only [leavingFrom, Prod.mk.injEq, and_true]
  omega

namespace DelayLine

variable {α : Type} (d : DelayLine α) (now : Nat)

/-- What leaves now does not depend on how long it has been ready. -/
theorem arrived_leavingFrom : d.arrived now
    = ((d.items.map (leavingFrom now)).takeWhile fun i => i.1 ≤ now).map (·.2) := by
  simp only [arrived, List.takeWhile_map, List.map_map, Function.comp_def, leavingFrom_le]
  rfl

/-- Nor does what stays. -/
theorem remaining_leavingFrom : (d.remaining now).items.map (leavingFrom (now + 1))
    = ((d.items.map (leavingFrom now)).dropWhile fun i => i.1 ≤ now).map
      (leavingFrom (now + 1)) := by
  simp only [remaining, List.dropWhile_map, List.map_map, Function.comp_def, leavingFrom_le,
    leavingFrom_succ]

end DelayLine

/-- What is due by the next cycle is what is due by now and what is due in the next cycle. -/
theorem due_succ (reads : List MemoryRead) (now : Nat) :
    due reads (· ≤ now + 1) = due reads (· ≤ now) ++ due reads (· == now + 1) := by
  obtain ⟨htake, hdrop⟩ := takeWhile_due
    ((pairwise_scheduled reads).filter fun s => decide (s.1 ≤ now + 1)) now
  simp only [due, ← List.map_append]
  rw [← List.takeWhile_append_dropWhile (p := fun s => decide (s.1 ≤ now))
    (l := (scheduled reads).filter fun s => decide (s.1 ≤ now + 1)), htake, hdrop,
    List.filter_filter, List.filter_filter]
  congr 2
  · refine List.filter_congr fun s _ => ?_
    rw [← Bool.decide_and, decide_eq_decide]
    omega
  · refine List.filter_congr fun s _ => ?_
    rw [← Bool.decide_and, Bool.beq_eq_decide_eq, decide_eq_decide]
    omega

namespace MemoryTiming

variable {timing : MemoryTiming} {messages : List (Nat × MemoryMessage)}

theorem reads_append (timing : MemoryTiming) (messages more : List (Nat × MemoryMessage)) :
    timing.reads (messages ++ more)
      = timing.reads messages ++ (timing.afterAll messages).reads more := by
  induction messages generalizing timing with
  | nil => rfl
  | cons m rest ih =>
    obtain ⟨cycle, msg⟩ := m
    simp only [List.cons_append, reads]
    split
    · exact congrArg (_ :: ·) (ih _)
    · exact ih _

/-- Every read is among the messages. -/
theorem mem_reads {r : MemoryRead} (hr : r ∈ timing.reads messages) :
    ∃ m ∈ messages, m.1 = r.cycle := by
  induction messages generalizing timing with
  | nil => cases hr
  | cons m rest ih =>
    obtain ⟨cycle, msg⟩ := m
    simp only [reads] at hr
    have hrest {timing : MemoryTiming} (hr : r ∈ timing.reads rest) :
        ∃ m ∈ (cycle, msg) :: rest, m.1 = r.cycle := by
      obtain ⟨m, hm, hcycle⟩ := ih hr
      exact ⟨m, List.mem_cons_of_mem _ hm, hcycle⟩
    split at hr
    · rcases List.mem_cons.1 hr with rfl | hr
      · exact ⟨_, List.mem_cons_self, rfl⟩
      · exact hrest hr
    · exact hrest hr

end MemoryTiming

/-! ## What a memory node does in a tick -/

/-- A tick of a memory node. -/
structure MemoryTurn where
  /-- The packets that it dispatched. -/
  taken : List Packet
  /-- The replies that it gave to its link. -/
  given : List Packet
  /-- What it put on the interconnect. -/
  sent : List Packet
deriving DecidableEq, Repr

/-- The memory messages that were dispatched, each with its cycle: ticks count from 1. -/
def dispatched (turns : List MemoryTurn) : List (Nat × MemoryMessage) :=
  (turns.zipIdx 1).flatMap fun (turn, cycle) =>
    turn.taken.filterMap fun p => p.memory?.map (cycle, ·)

theorem dispatched_concat (turns : List MemoryTurn) (turn : MemoryTurn) :
    dispatched (turns ++ [turn]) = dispatched turns
      ++ turn.taken.filterMap fun p => p.memory?.map (turns.length + 1, ·) := by
  simp [dispatched, List.zipIdx_append, Nat.add_comm]

/-- The reply of a memory node to a read. -/
def MemoryRead.reply (r : MemoryRead) (m : MemoryNode) : Packet where
  tag := m.tags.memory
  src := m.id
  dst := r.requester
  payload := .memory { op := .reply, addr := r.addr, src := m.id }

/-- The credit that a memory node owes the sender of a packet. -/
def Packet.refund (p : Packet) (m : MemoryNode) : Packet where
  tag := m.tags.credit
  src := m.id
  dst := p.src
  payload := .credit

namespace MemoryNode

/-- The replies that a tick gives to the link. -/
def given (m : MemoryNode) : List Packet :=
  m.handled.node.outlet.delay.arrived m.handled.node.cycle

/-- The node `m₀` has been given packets and has ticked without a fault, and is `m` now. The packets
`waiting` came in after the last tick. -/
inductive Tended (m₀ : MemoryNode) : List Packet → List MemoryTurn → MemoryNode → Prop
  | start : Tended m₀ [] [] m₀
  | receive {waiting : List Packet} {turns : List MemoryTurn} {m : MemoryNode}
      (ht : Tended m₀ waiting turns m) (p : Packet) :
      Tended m₀ (waiting ++ [p]) turns (m.receive p)
  | tick {waiting : List Packet} {turns : List MemoryTurn} {m : MemoryNode}
      (ht : Tended m₀ waiting turns m) (hf : m.tick.fault = none) :
      Tended m₀ [] (turns ++ [{ taken := waiting, given := m.given, sent := m.tick.sent }])
        m.tick.node

/-- The reads that the node `m₀` has dispatched in its ticks. -/
def readsOf (m₀ : MemoryNode) (turns : List MemoryTurn) : List MemoryRead :=
  m₀.timing.reads (dispatched turns)

/-- In its ticks the node has answered every read once, in order and on time. -/
structure Punctual (m₀ : MemoryNode) (turns : List MemoryTurn) (m : MemoryNode) : Prop where
  clock : m.cycle.toNat = turns.length
  /-- So far the link was given the replies that are due by now, ... -/
  given : turns.flatMap (·.given)
    = (due (m₀.readsOf turns) (· ≤ turns.length)).map (·.reply m₀)
  /-- ... each in the tick in which it was due. -/
  onTime : ∀ n turn, turns[n]? = some turn → turn.given
    = (due (m₀.readsOf turns) (· == n + 1)).map (·.reply m₀)
  /-- They have left in this order, and those that have not wait in the link. -/
  order : turns.flatMap (fun turn => turn.sent.filter (!·.isCredit)) ++ m.outlet.link.buffer
    = turns.flatMap (·.given)
  /-- A memory packet is worth a credit to its sender in the tick that dispatches it, and no other
  packet is. -/
  refunds : ∀ turn ∈ turns, turn.sent.filter (·.isCredit)
    = (turn.taken.filter (·.memory?.isSome)).map (·.refund m₀)

/-! ## One packet -/

/-- What the node holds once it has dispatched the messages and has released all that was due by
the cycle `now`. -/
structure Keeps (m₀ : MemoryNode) (messages : List (Nat × MemoryMessage)) (now : Nat)
    (m : MemoryNode) : Prop where
  id : m.id = m₀.id
  tags : m.tags = m₀.tags
  owner : m.outlet.link.owner = m₀.id
  latency : m.outlet.delay.latency = 0
  timing : m.timing = m₀.timing.afterAll messages
  /-- Where a latency has taken the clock round, the reply is ready earlier than it is due. -/
  items : m.outlet.delay.items.map (leavingFrom (now + 1))
    = ((scheduled (m₀.timing.reads messages)).filter fun s => now < s.1).map
      fun s => (s.1, s.2.reply m₀)
  buffer : ∀ p ∈ m.outlet.link.buffer, p.isCredit = false

section Dispatch

variable {m₀ m : MemoryNode} {messages : List (Nat × MemoryMessage)} {now : Nat} {p : Packet}

theorem Keeps.lastReady (hk : Keeps m₀ messages now m) :
    max m.lastReady (now + 1) = max (latest (m₀.timing.reads messages)) (now + 1) := by
  have hlast := congrArg (fun items => items.getLast?.map (·.1)) hk.items
  simp only [List.getLast?_map, Option.map_map, Function.comp_def, leavingFrom,
    getLast?_undue] at hlast
  rw [MemoryNode.lastReady]
  cases hitems : m.outlet.delay.items.getLast? with
  | none =>
    have hnone : ¬now < latest (m₀.timing.reads messages) := by simpa [hitems] using hlast
    show max 0 (now + 1) = _
    omega
  | some i =>
    rw [hitems] at hlast
    split at hlast
    · have hready : max i.1 (now + 1) = latest (m₀.timing.reads messages) := Option.some.inj hlast
      show max i.1 (now + 1) = _
      omega
    · cases hlast

/-- A reply that is posted waits for the latency of its own read and for the last reply that is under
way, which puts the read on the schedule. -/
theorem Keeps.post (hk : Keeps m₀ messages now m) (hc : m.cycle.toNat = now + 1) {r : MemoryRead}
    (hr : r.cycle = now + 1) :
    (m.outlet.post (max (m.cycle + r.latency).toNat m.lastReady)
        (r.reply m₀)).delay.items.map (leavingFrom (now + 1))
      = ((scheduled (m₀.timing.reads messages ++ [r])).filter fun s => now < s.1).map
        fun s => (s.1, s.2.reply m₀) := by
  have hready : max (max (m.cycle + r.latency).toNat m.lastReady) (now + 1)
      = max (latest (m₀.timing.reads messages)) r.ready := by
    have hown := r.max_clock (hc.trans hr.symm)
    have hlast := hk.lastReady
    omega
  have hundue : now < max (latest (m₀.timing.reads messages)) r.ready := by
    have hle := r.cycle_le_ready
    omega
  show (m.outlet.delay.items ++ [(max (m.cycle + r.latency).toNat m.lastReady
    + m.outlet.delay.latency, r.reply m₀)]).map (leavingFrom (now + 1)) = _
  rw [hk.latency, List.map_append, hk.items, scheduled_concat, List.filter_append, List.map_append,
    List.map_singleton, leavingFrom, Nat.add_zero, hready]
  simp [hundue]

/-- A memory message is priced, and a read is put on the schedule. -/
theorem Keeps.serve {d : MemoryNode} {msg : MemoryMessage} (hk : Keeps m₀ messages now m)
    (hc : m.cycle.toNat = now + 1) (hd : m.serve msg = .ok d) :
    Keeps m₀ (messages ++ [(now + 1, msg)]) now d ∧ d.cycle.toNat = now + 1 ∧
      d.inbound = m.inbound ∧ d.outlet.link = m.outlet.link := by
  obtain ⟨op, addr, src⟩ := msg
  have htiming : (m₀.timing.afterAll messages).access addr = m.timing.access addr := by
    rw [hk.timing]
  have hafter : m₀.timing.afterAll (messages ++ [(now + 1, ⟨op, addr, src⟩)])
      = (m.timing.access addr).2 := by
    rw [← htiming, MemoryTiming.afterAll, List.foldl_append]
    rfl
  cases op with
  | read =>
    have hreads : m₀.timing.reads (messages ++ [(now + 1, ⟨.read, addr, src⟩)])
        = m₀.timing.reads messages
          ++ [⟨now + 1, addr, src, (m.timing.access addr).1.latency⟩] := by
      rw [MemoryTiming.reads_append, ← htiming]
      rfl
    have hreply : m.replyTo addr src = MemoryRead.reply
        ⟨now + 1, addr, src, (m.timing.access addr).1.latency⟩ m₀ := by
      rw [replyTo, hk.id, hk.tags]
      rfl
    cases hd
    refine ⟨{ hk with timing := hafter.symm, items := ?_ }, hc, rfl, rfl⟩
    rw [hreads, ← hk.post hc rfl, ← hreply]
    rfl
  | write =>
    have hreads : m₀.timing.reads (messages ++ [(now + 1, ⟨.write, addr, src⟩)])
        = m₀.timing.reads messages := by
      rw [MemoryTiming.reads_append]
      exact List.append_nil _
    cases hd
    refine ⟨{ hk with timing := hafter.symm, items := ?_ }, hc, rfl, rfl⟩
    rw [hreads]
    exact hk.items
  | reply => cases hd

/-- The packets `ps` have been dispatched in the cycle after `now`. -/
structure Serves (m₀ : MemoryNode) (messages : List (Nat × MemoryMessage)) (now : Nat)
    (m : MemoryNode) (ps : List Packet) (w : Work MemoryNode) : Prop where
  keeps : Keeps m₀ (messages ++ ps.filterMap fun p => p.memory?.map (now + 1, ·)) now w.node
  cycle : w.node.cycle.toNat = now + 1
  refunds : w.sent.filter (·.isCredit) = (ps.filter (·.memory?.isSome)).map (·.refund m₀)
  order : w.sent.filter (!·.isCredit) ++ w.node.outlet.link.buffer = m.outlet.link.buffer

theorem Keeps.takeCredit (hk : Keeps m₀ messages now m) (hc : m.cycle.toNat = now + 1)
    (hm : p.memory? = none) (hf : m.takeCredit.fault = none) :
    Serves m₀ messages now m [p] m.takeCredit ∧ m.takeCredit.node.inbound = m.inbound := by
  by_cases hlt : m.outlet.link.credits < m.outlet.link.maxCredits
  · obtain ⟨link, sent, harr, hpays⟩ := Outlet.creditArrived_pays hlt
    have horder := Outlet.order_of_creditArrived harr
    have hmessages : [p].filterMap (fun p => p.memory?.map (now + 1, ·)) = [] := by simp [hm]
    simp only [Outlet.toList, ← List.append_assoc, List.append_cancel_right_eq] at horder
    have hmetered : ∀ q ∈ sent, q.isCredit = false := fun q hq =>
      hk.buffer q (horder ▸ List.mem_append_left _ hq)
    rw [MemoryNode.takeCredit, harr]
    refine ⟨{
      keeps := { hk with
        owner := hpays.owner.trans hk.owner
        timing := by rw [hmessages, List.append_nil]; exact hk.timing
        items := by rw [hmessages, List.append_nil]; exact hk.items
        buffer := fun q hq => hk.buffer q (horder ▸ List.mem_append_right _ hq) }
      cycle := hc
      refunds := ?_
      order := ?_ }, rfl⟩
    · have hnone : sent.filter (·.isCredit) = [] := by simpa using hmetered
      simpa [Work.done, hm] using hnone
    · have hall : sent.filter (!·.isCredit) = sent := by simpa using hmetered
      simpa [Work.done, hall] using horder
  · rw [MemoryNode.takeCredit, CreditLink.creditArrived?_of_full hlt] at hf
    cases hf

/-- A memory message is paid for and served. -/
theorem Keeps.answer {msg : MemoryMessage} (hk : Keeps m₀ messages now m) (hc : m.cycle.toNat = now + 1)
    (hm : p.memory? = some msg)
    (hf : ((m.giveCredit p.src).andThen fun m => .ofExcept m (m.serve msg)).fault = none) :
    Serves m₀ messages now m [p] ((m.giveCredit p.src).andThen fun m => .ofExcept m (m.serve msg)) ∧
      ((m.giveCredit p.src).andThen fun m => .ofExcept m (m.serve msg)).node.inbound
        = m.inbound := by
  -- returning the credit leaves all but a counter of the link
  let m₁ : MemoryNode := (m.giveCredit p.src).node
  have hgive : m.giveCredit p.src = .done m₁ [p.refund m₀] := by
    rw [giveCredit, Packet.refund, ← hk.tags, ← hk.owner]
    rfl
  have hk₁ : Keeps m₀ messages now m₁ := { hk with }
  rw [hgive] at hf ⊢
  cases hd : m₁.serve msg with
  | error f =>
    rw [Work.andThen_ofExcept_error hd] at hf
    cases hf
  | ok d =>
    obtain ⟨hkeeps, hcycle, hin, hlink⟩ := hk₁.serve hc hd
    rw [Work.andThen_ofExcept_ok hd]
    refine ⟨{ keeps := ?_, cycle := hcycle, refunds := ?_, order := ?_ }, hin⟩
    · rw [show [p].filterMap (fun p => p.memory?.map (now + 1, ·)) = [(now + 1, msg)] by simp [hm]]
      exact hkeeps
    · simp [Work.done, hm, Packet.refund, Packet.isCredit]
    · have hbuffer : d.outlet.link.buffer = m.outlet.link.buffer := by
        rw [hlink]
        rfl
      simpa [Work.done, Packet.refund, Packet.isCredit] using hbuffer

theorem Keeps.dispatch (hk : Keeps m₀ messages now m) (hc : m.cycle.toNat = now + 1)
    (hf : (m.dispatch p).fault = none) :
    Serves m₀ messages now m [p] (m.dispatch p) ∧
      (m.dispatch p).node.inbound = m.inbound := by
  unfold MemoryNode.dispatch at hf ⊢
  split at hf
  · next hm =>
    split at hf
    · next htag =>
      rw [if_pos htag]
      exact hk.takeCredit hc (by simp [Packet.memory?, hm]) hf
    · cases hf
  · next msg hm =>
    split at hf
    · next htag =>
      rw [if_pos htag]
      exact hk.answer hc (by simp [Packet.memory?, hm]) hf
    · cases hf
  · cases hf

/-! ## A tick -/

theorem Serves.andThen {ps : List Packet} {w : Work MemoryNode}
    {next : MemoryNode → Work MemoryNode} (hw : w.fault = none)
    (h : Serves m₀ messages now m [p] w)
    (hnext : Serves m₀ (messages ++ [p].filterMap fun p => p.memory?.map (now + 1, ·)) now w.node ps
      (next w.node)) : Serves m₀ messages now m (p :: ps) (w.andThen next) := by
  have hnode : (w.andThen next).node = (next w.node).node := Work.andThen_node hw
  have hsent : (w.andThen next).sent = w.sent ++ (next w.node).sent := Work.andThen_sent hw
  refine { keeps := ?_, cycle := ?_, refunds := ?_, order := ?_ }
  · rw [hnode, ← List.singleton_append, List.filterMap_append, ← List.append_assoc]
    exact hnext.keeps
  · rw [hnode]
    exact hnext.cycle
  · rw [hsent, List.filter_append, h.refunds, hnext.refunds, ← List.map_append,
      ← List.filter_append]
    rfl
  · rw [hnode, hsent, List.filter_append, List.append_assoc, hnext.order, h.order]

/-- The packets that wait are dispatched one after another. -/
theorem Keeps.through (hk : Keeps m₀ messages now m) (hc : m.cycle.toNat = now + 1) {ps : List Packet}
    (hin : m.inbound = ps)
    (hf : (Work.through (fun m queue => { m with inbound := queue }) MemoryNode.dispatch m ps).fault = none) :
    Serves m₀ messages now m ps
        (Work.through (fun m queue => { m with inbound := queue }) MemoryNode.dispatch m ps) ∧
      (Work.through (fun m queue => { m with inbound := queue }) MemoryNode.dispatch m ps).node.inbound
        = [] := by
  induction ps generalizing m messages with
  | nil =>
    exact ⟨{ keeps := by rw [List.filterMap_nil, List.append_nil]; exact hk, cycle := hc, refunds := rfl, order := rfl }, hin⟩
  | cons p rest ih =>
    obtain ⟨hp, hrest⟩ := Work.andThen_fault_eq_none.1 hf
    obtain ⟨hserves, hin'⟩ :=
      Keeps.dispatch (m := { m with inbound := rest }) { hk with } hc hp
    obtain ⟨hnext, hnil⟩ := ih hserves.keeps hserves.cycle hin' hrest
    have hall : Serves m₀ messages now m [p] (MemoryNode.dispatch { m with inbound := rest } p) :=
      { hserves with }
    exact ⟨hall.andThen hp hnext, by rw [Work.through, Work.andThen_node hp]; exact hnil⟩

/-- The replies that are due in the next cycle are those that arrive then, and the others stay. -/
theorem Keeps.arrived (hk : Keeps m₀ messages now m) :
    m.outlet.delay.arrived (now + 1)
        = (due (m₀.timing.reads messages) (· == now + 1)).map (·.reply m₀) ∧
      (m.outlet.delay.remaining (now + 1)).items.map (leavingFrom (now + 1 + 1))
        = ((scheduled (m₀.timing.reads messages)).filter fun s => now + 1 < s.1).map
          fun s => (s.1, s.2.reply m₀) := by
  obtain ⟨htake, hdrop⟩ := takeWhile_due
    ((pairwise_scheduled (m₀.timing.reads messages)).filter fun s => decide (now < s.1)) (now + 1)
  constructor
  · rw [DelayLine.arrived_leavingFrom, hk.items, List.takeWhile_map, Function.comp_def, htake,
      List.filter_filter, due, List.map_map, List.map_map]
    refine congrArg (List.map _) (List.filter_congr fun s _ => ?_)
    rw [← Bool.decide_and, Bool.beq_eq_decide_eq, decide_eq_decide]
    omega
  · rw [DelayLine.remaining_leavingFrom, hk.items, List.dropWhile_map, Function.comp_def, hdrop,
      List.filter_filter, List.map_map]
    have hlater : ((scheduled (m₀.timing.reads messages)).filter fun s =>
        decide (now + 1 < s.1) && decide (now < s.1))
          = (scheduled (m₀.timing.reads messages)).filter fun s => now + 1 < s.1 := by
      refine List.filter_congr fun s _ => ?_
      rw [← Bool.decide_and, decide_eq_decide]
      omega
    rw [hlater]
    refine List.map_congr_left fun s hs => ?_
    have hs : now + 1 < s.1 := by simpa using (List.mem_filter.1 hs).2
    exact congrArg (·, s.2.reply m₀) (Nat.max_eq_left hs)

/-- Whatever is due is given to the link. -/
theorem Keeps.release (hk : Keeps m₀ messages now m) (hc : m.cycle.toNat = now + 1) :
    Keeps m₀ messages (now + 1) m.release.node ∧
      (∀ q ∈ m.release.sent, q.isCredit = false) ∧
      m.release.sent ++ m.release.node.outlet.link.buffer
        = m.outlet.link.buffer ++ m.outlet.delay.arrived (now + 1) := by
  obtain ⟨harrived, hremaining⟩ := hk.arrived
  have horder := m.outlet.link.offerAll_order (m.outlet.delay.arrived (now + 1))
  have hspends := m.outlet.link.offerAll_spends (m.outlet.delay.arrived (now + 1))
  have hmetered : ∀ q ∈ m.outlet.link.buffer ++ m.outlet.delay.arrived (now + 1),
      q.isCredit = false := by
    intro q hq
    rcases List.mem_append.1 hq with hq | hq
    · exact hk.buffer q hq
    · rw [harrived] at hq
      obtain ⟨r, -, rfl⟩ := List.mem_map.1 hq
      rfl
  rw [← horder] at hmetered
  rw [MemoryNode.release, hc]
  exact ⟨{ hk with
      owner := hspends.owner.trans hk.owner
      items := hremaining
      buffer := fun q hq => hmetered q (List.mem_append_right _ hq) },
    fun q hq => hmetered q (List.mem_append_left _ hq), horder⟩

/-- A tick dispatches all that waits and gives to the link what is due. -/
theorem Keeps.tick (hk : Keeps m₀ messages now m) (hc : m.cycle.toNat = now)
    (hclock : now + 1 < UInt64.size) (hf : m.tick.fault = none) :
    ∃ messages', messages' = messages
        ++ m.inbound.filterMap (fun p => p.memory?.map (now + 1, ·)) ∧
      Keeps m₀ messages' (now + 1) m.tick.node ∧ m.tick.node.cycle.toNat = now + 1 ∧
      m.tick.node.inbound = [] ∧
      m.given = (due (m₀.timing.reads messages') (· == now + 1)).map (·.reply m₀) ∧
      m.tick.sent.filter (·.isCredit)
        = (m.inbound.filter (·.memory?.isSome)).map (·.refund m₀) ∧
      m.tick.sent.filter (!·.isCredit) ++ m.tick.node.outlet.link.buffer
        = m.outlet.link.buffer ++ m.given := by
  have htick : m.tick = m.handled.andThen MemoryNode.release := rfl
  have hhandled := (Work.andThen_fault_eq_none.1 (htick ▸ hf)).1
  have hk' : Keeps m₀ messages now { m with cycle := m.cycle + 1 } := { hk with }
  have hnow : (m.cycle + 1).toNat = now + 1 := by
    rw [UInt64.toNat_add, hc]
    exact Nat.mod_eq_of_lt hclock
  obtain ⟨hserves, hin⟩ := hk'.through hnow rfl hhandled
  change Serves m₀ messages now _ m.inbound m.handled at hserves
  obtain ⟨hkeeps, hmetered, horder⟩ := hserves.keeps.release hserves.cycle
  have hgiven : m.given = m.handled.node.outlet.delay.arrived (now + 1) := by
    rw [MemoryNode.given, hserves.cycle]
  have hnone : m.handled.node.release.sent.filter (·.isCredit) = [] := by simpa using hmetered
  have hall : m.handled.node.release.sent.filter (!·.isCredit) = m.handled.node.release.sent := by
    simpa using hmetered
  rw [htick, Work.andThen_node hhandled, Work.andThen_sent hhandled]
  refine ⟨_, rfl, hkeeps, hserves.cycle, hin, ?_, ?_, ?_⟩
  · rw [hgiven]
    exact hserves.keeps.arrived.1
  · rw [List.filter_append, hnone, List.append_nil]
    exact hserves.refunds
  · rw [List.filter_append, hall, List.append_assoc, horder, ← List.append_assoc, hserves.order,
      hgiven]

end Dispatch

/-! ## All ticks -/

section Run

variable {m₀ m : MemoryNode} {waiting : List Packet} {turns : List MemoryTurn}

/-- Messages of a later tick do not change which replies are due before it. -/
theorem due_readsOf_concat (turn : MemoryTurn) {p : Nat → Bool}
    (hp : ∀ d, turns.length + 1 ≤ d → p d = false) :
    due (m₀.readsOf (turns ++ [turn])) p = due (m₀.readsOf turns) p := by
  rw [readsOf, dispatched_concat, MemoryTiming.reads_append]
  refine due_append fun r hr d hd => hp d ?_
  obtain ⟨x, hx, hcycle⟩ := MemoryTiming.mem_reads hr
  obtain ⟨q, -, hq⟩ := List.mem_filterMap.1 hx
  obtain ⟨msg, -, rfl⟩ := Option.map_eq_some_iff.1 hq
  exact Nat.le_trans (Nat.le_of_eq hcycle) hd

/-- What holds of the members of a list by position holds with another member at its end. -/
theorem forall_getElem?_concat {α : Type} {xs : List α} {x : α} {P : Nat → α → Prop}
    (h : ∀ n y, xs[n]? = some y → P n y) (hx : P xs.length x) (n : Nat) (y : α)
    (hy : (xs ++ [x])[n]? = some y) : P n y := by
  rcases Nat.lt_or_ge n xs.length with hlt | hge
  · rw [List.getElem?_append_left hlt] at hy
    exact h n y hy
  · rw [List.getElem?_append_right hge, List.getElem?_singleton] at hy
    split at hy
    · next hzero =>
      cases hy
      rwa [show n = xs.length by omega]
    · cases hy

theorem Tended.keeps (ht : Tended m₀ waiting turns m) (hclock : turns.length < UInt64.size)
    (hk : Keeps m₀ [] 0 m₀) (hin : m₀.inbound = []) (hp : Punctual m₀ [] m₀) :
    Keeps m₀ (dispatched turns) turns.length m ∧ m.inbound = waiting ∧ Punctual m₀ turns m := by
  induction ht with
  | start => exact ⟨hk, hin, hp⟩
  | receive _ p ih =>
    obtain ⟨hkeeps, hwaiting, hpunctual⟩ := ih hclock
    exact ⟨{ hkeeps with }, congrArg (· ++ [p]) hwaiting, { hpunctual with }⟩
  | @tick waiting turns m ht hf ih =>
    rw [List.length_append, List.length_singleton] at hclock
    obtain ⟨hkeeps, rfl, hpunctual⟩ := ih (Nat.lt_of_succ_lt hclock)
    obtain ⟨messages', hmessages, hkeeps', hcycle, hnil, hgiven, hrefunds, horder⟩ :=
      hkeeps.tick hpunctual.clock hclock hf
    generalize hturn : ({ taken := m.inbound, given := m.given, sent := m.tick.sent } : MemoryTurn)
      = turn
    have htaken : turn.taken = m.inbound := by rw [← hturn]
    have hgave : turn.given = m.given := by rw [← hturn]
    have hsent : turn.sent = m.tick.sent := by rw [← hturn]
    have hdispatched : dispatched (turns ++ [turn]) = messages' := by
      rw [dispatched_concat, htaken, hmessages]
    have hlength : (turns ++ [turn]).length = turns.length + 1 := by simp
    have hnow : turn.given
        = (due (m₀.readsOf (turns ++ [turn])) (· == turns.length + 1)).map (·.reply m₀) := by
      rw [hgave, hgiven, readsOf, hdispatched]
    have hall : (turns ++ [turn]).flatMap (·.given)
        = (due (m₀.readsOf (turns ++ [turn])) (· ≤ turns.length + 1)).map (·.reply m₀) := by
      rw [due_succ, List.map_append, List.flatMap_append, List.flatMap_singleton, ← hnow,
        hpunctual.given, due_readsOf_concat turn fun d hd => decide_eq_false (Nat.not_le_of_lt hd)]
    refine ⟨?_, hnil, { clock := ?_, given := ?_, onTime := ?_, order := ?_, refunds := ?_ }⟩
    · rw [hdispatched, hlength]
      exact hkeeps'
    · rw [hcycle, hlength]
    · rw [hall, hlength]
    · refine forall_getElem?_concat (fun n t ht => ?_) hnow
      have hlt : n < turns.length := (List.getElem?_eq_some_iff.1 ht).1
      rw [hpunctual.onTime n t ht, due_readsOf_concat turn fun d hd => by
        simpa using by omega]
    · rw [List.flatMap_append, List.flatMap_append, List.flatMap_singleton, List.flatMap_singleton,
        hsent, List.append_assoc, horder, ← List.append_assoc, hpunctual.order, hgave]
    · intro t ht
      rcases List.mem_append.1 ht with ht | ht
      · exact hpunctual.refunds t ht
      · rw [List.mem_singleton.1 ht, hsent, htaken]
        exact hrefunds

end Run

/-- Whatever packets a new memory node is given, and whenever it ticks, it answers every read once,
in order, and in the first cycle in which the latencies of the read and of all reads before it have
passed. So it does until its clock comes round. -/
theorem Tended.punctual {id : NodeId} {timing : MemoryTiming} {tags : MessageTags} {credits : Nat}
    {waiting : List Packet} {turns : List MemoryTurn} {m : MemoryNode}
    (ht : Tended (create id timing tags credits) waiting turns m)
    (hclock : turns.length < UInt64.size) : Punctual (create id timing tags credits) turns m := by
  have hkeeps : Keeps (create id timing tags credits) [] 0 (create id timing tags credits) :=
    { id := rfl, tags := rfl, owner := rfl, latency := rfl, timing := rfl, items := rfl,
      buffer := nofun }
  have hpunctual : Punctual (create id timing tags credits) [] (create id timing tags credits) :=
    { clock := rfl, given := rfl, onTime := nofun, order := rfl, refunds := nofun }
  exact (ht.keeps hclock hkeeps rfl hpunctual).2.2

/-- What the node `n7` asks memory for. -/
def asked (op : MemoryOp) (addr : Addr) : Packet :=
  { tag := 2, src := ⟨7⟩, dst := ⟨9⟩, payload := .memory { op, addr, src := ⟨7⟩ } }

-- A read of the row that a write has opened is fast, but it is answered behind the slow read that
-- came before it.
example :
    let m₀ := create ⟨9⟩ (.openRow { cas := 1, ras := 3, pre := 2, rowBits := 6 }) {} 1
    let m₁ := ((m₀.receive (asked .read 0)).receive (asked .write 64)).tick.node
    let m₂ := (m₁.receive (asked .read 96)).tick.node
    (m₂.given, m₂.tick.node.given, m₂.tick.node.tick.node.given)
      = ([], [], [(⟨1, 0, ⟨7⟩, 4⟩ : MemoryRead).reply m₀,
        (⟨2, 96, ⟨7⟩, 1⟩ : MemoryRead).reply m₀]) := by
  rfl

-- A read with the largest latency of all is answered in the tick that dispatches it.
example :
    let m₀ := create ⟨9⟩ (.fixed (-1)) {} 1
    (m₀.receive (asked .read 64)).given = [(⟨1, 64, ⟨7⟩, -1⟩ : MemoryRead).reply m₀] := by
  rfl

end MemoryNode

end CacheCoherence
