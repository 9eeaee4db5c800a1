import CacheCoherence.Proofs.Traffic.Passage
import CacheCoherence.SharedBank.Tick

/-!
# Posts — what a bank does to its port

Whatever a bank does to its lines, on its way out it only adds packets of its own behind those that
are there, whether for clients or for memory. Handling a packet returns a credit or takes one
back, and takes nothing else away.
-/

namespace CacheCoherence.SharedBank

/-- A bank as the interconnect sees it. -/
def port (c : SharedBank) : Port := { id := c.id, inbound := c.inbound, outlet := c.outlet }

/-- The bank once it has handled all that waited for its tick. -/
def handled (c : SharedBank) : Work SharedBank :=
  .through (fun c queue => { c with inbound := queue }) react c.beginCycle c.beginCycle.inbound

variable {c d : SharedBank} {msg : CoherenceMessage} {line : Addr} {register way : Handle}

/-! ## What is posted -/

/-- A packet that carries no credit. -/
theorem posts_emit (c : SharedBank) (tag : Tag) (dst : NodeId) {payload : Payload}
    (hp : payload ≠ .credit) : c.port.Posts (c.emit tag dst payload).port := by
  refine .post c.cycle ⟨rfl, ?_⟩
  cases payload with
  | credit => exact absurd rfl hp
  | _ => rfl

theorem posts_toMemory (c : SharedBank) (op : MemoryOp) (line : Addr) :
    c.port.Posts (c.toMemory op line).port :=
  posts_emit c _ _ nofun

theorem posts_perform (c : SharedBank) (line : Addr) (actions : List ManagerAction) :
    c.port.Posts (c.perform line actions).port := by
  induction actions generalizing c with
  | nil => exact .refl _
  | cons a rest ih =>
    have hact : c.port.Posts (c.act line a).port := by
      cases a with
      | send op dest forwardTo => exact posts_emit c _ _ nofun
      | writeback => exact .refl _
      | ignore => exact .refl _
    exact hact.trans (ih _)

theorem posts_commit (c : SharedBank) (way : Handle) (line : Addr) (t : ManagerTransition) :
    c.port.Posts (c.commit way line t).port :=
  posts_perform c line t.actions

theorem posts_writeBack (c : SharedBank) (line : Addr) (dirty : Bool) :
    c.port.Posts (c.writeBack line dirty).port := by
  cases dirty with
  | false => exact .refl _
  | true =>
    exact posts_toMemory { c with
      counters := { c.counters with writebacks := c.counters.writebacks + 1 } } .write line

theorem posts_finishEviction {victimLine : Addr} (h : c.finishEviction way victimLine = .ok d) :
    c.port.Posts d.port := by
  unfold finishEviction at h
  split at h
  · cases h
    exact posts_writeBack { c with table := (c.table.release way).2 } victimLine _
  · next register line m hf =>
    split at h
    · cases h
    · next old way' table hr =>
      cases h
      -- the victim goes back to memory before the line that takes its way is asked for
      have hback := posts_writeBack { c with
        table
        mshr := c.mshr.assign register line
          (.miss { m with way := way', stage := .awaitingMemory }) } victimLine old.dirty
      exact hback.trans (posts_toMemory _ .read line)

theorem posts_startEviction {victimLine : Addr} {e : LineEntry ManagerLine}
    (h : c.startEviction way victimLine e = .ok d) : c.port.Posts d.port := by
  obtain ⟨t, -, h⟩ := bind_eq_ok.1 h
  dsimp only at h
  have hposted := posts_commit { c with
    table := c.table.modify way fun e => { e with evicting := true }
    counters := { c.counters with evictions := c.counters.evictions + 1 } } way victimLine t
  split at h
  · exact hposted.trans (posts_finishEviction h)
  · cases h
    exact hposted

theorem posts_apply (c : SharedBank) (msg : CoherenceMessage) (line : Addr) (way : Handle)
    (t : ManagerTransition) : c.port.Posts (c.apply msg line way t).port := by
  have hcount : (c.countHit msg.op).port = c.port := by
    unfold countHit
    split <;> rfl
  have hposted := posts_commit (c.countHit msg.op) way line t
  rw [hcount] at hposted
  exact hposted

theorem posts_carryOut {a : Admission} (h : c.carryOut msg line a = .ok d) :
    c.port.Posts d.port := by
  cases a with
  | park reason watch =>
    cases h
    exact .refl _
  | settle way t =>
    cases h
    exact posts_apply c msg line way t
  | arbitrate register way t =>
    cases h
    exact posts_apply { c with mshr := c.mshr.assign register line (.resident way) } msg line way t
  | drop =>
    cases h
    exact .refl _
  | fetch register way table =>
    cases h
    exact posts_toMemory { c.countMiss with
      table
      mshr := c.mshr.assign register line (.miss
        { controller := .initial, way, request := msg, stage := .awaitingMemory }) } .read line
  | replace register victim victimLine e =>
    have hposted : ({ c.countMiss with mshr := c.mshr.assign register line (.miss
        { controller := .initial, way := victim, request := msg, stage := .awaitingVictim }) } :
          SharedBank).port.Posts d.port :=
      posts_startEviction h
    exact hposted

/-- A request of a client. -/
theorem posts_process {fresh : Bool} (h : c.process msg fresh = .ok d) : c.port.Posts d.port := by
  rw [process_eq] at h
  obtain ⟨a, -, h⟩ := bind_eq_ok.1 h
  exact posts_carryOut h

/-- Requests that were woken. -/
theorem posts_drain (h : c.drain.fault = none) :
    c.port.Posts c.drain.node.port ∧ c.drain.sent = [] := by
  induction c using drain.induct with
  | case1 c hq =>
    rw [drain_nil hq]
    exact ⟨.refl _, rfl⟩
  | case2 c x rest hq fault hp =>
    rw [drain_cons hq, hp] at h
    cases h
  | case3 c x rest hq d hp hdec ih =>
    have hdrain : c.drain = d.drain := by
      rw [drain_cons hq, hp]
      exact Work.andThen_done ..
    rw [hdrain] at h ⊢
    exact ⟨(posts_process hp).trans (ih h).1, (ih h).2⟩

/-! ## Replies -/

theorem posts_advanceMiss {m : ManagerMiss} {event : ManagerEvent}
    (h : c.advanceMiss register line m event = .ok d) : c.port.Posts d.port := by
  obtain ⟨t, -, h⟩ := bind_eq_ok.1 h
  dsimp only at h
  have hposted := posts_perform { c with mshr := c.mshr.modify register fun _ => .miss { m with
    controller := t.next
    dirty := m.dirty || t.returnsData
    stage := .awaitingClients } } line t.actions
  split at h
  · unfold completeFill at h
    dsimp only at h
    split at h
    · cases h
      exact hposted
    · cases h
  · cases h
    exact hposted

theorem posts_handleMemory {msg : MemoryMessage} (h : c.handleMemory msg = .ok d) :
    c.port.Posts d.port := by
  unfold handleMemory at h
  dsimp only at h
  split at h
  · split at h
    · exact posts_advanceMiss h
    · cases h
  · cases h

theorem posts_handleReply (h : c.handleReply msg = .ok d) : c.port.Posts d.port := by
  unfold handleReply at h
  dsimp only at h
  split at h
  · split at h
    · exact posts_advanceMiss h
    · cases h
  · next register way hout =>
    unfold advanceResident at h
    split at h
    · cases h
    · obtain ⟨t, -, h⟩ := bind_eq_ok.1 h
      dsimp only at h
      split at h <;> cases h <;> exact posts_commit c way _ t
  · split at h
    · next way e hres =>
      obtain ⟨t, -, h⟩ := bind_eq_ok.1 h
      dsimp only at h
      have hposted := posts_commit c way (c.table.lineAddr msg.addr) t
      split at h
      · exact hposted.trans (posts_finishEviction h)
      · cases h
        exact hposted
    · cases h

/-- A coherence message. -/
theorem posts_handle (h : c.handle msg = .ok d) : c.port.Posts d.port := by
  unfold handle at h
  split at h
  · exact posts_process h
  · exact posts_handleReply h

/-! ## A cycle -/

theorem passes_takeCredit (hn : c.port.Proper) (hf : c.takeCredit.fault = none) :
    c.port.Passes c.takeCredit.node.port c.takeCredit.sent := by
  unfold takeCredit at hf ⊢
  dsimp only at hf ⊢
  split
  · next link sent harr => exact .creditArrived hn harr
  · next harr =>
    rw [harr] at hf
    cases hf

/-- One packet. -/
theorem passes_dispatch {p : Packet} (hn : c.port.Proper) (hf : (c.dispatch p).fault = none) :
    c.port.Passes (c.dispatch p).node.port (c.dispatch p).sent := by
  unfold dispatch at hf ⊢
  split at hf
  · split at hf
    · next htag =>
      rw [if_pos htag]
      exact passes_takeCredit hn hf
    · cases hf
  · split at hf
    · next htag =>
      rw [if_pos htag]
      exact Work.passes_answer (Port.Passes.returnCredit c.port p.src c.tags.credit)
        (fun _ => posts_handle) hf
    · cases hf
  · split at hf
    · next htag =>
      rw [if_pos htag]
      exact Work.passes_answer (Port.Passes.returnCredit c.port p.src c.tags.credit)
        (fun _ => posts_handleMemory) hf
    · cases hf

/-- One packet and everything that it causes. -/
theorem passes_react {p : Packet} (hn : c.port.Proper) (hf : (c.react p).fault = none) :
    c.port.Passes (c.react p).node.port (c.react p).sent := by
  obtain ⟨hdispatch, hdrain⟩ := Work.andThen_fault_eq_none.1 hf
  obtain ⟨hposts, hsent⟩ := posts_drain hdrain
  rw [react, Work.andThen_node hdispatch, Work.andThen_sent hdispatch, hsent]
  exact (passes_dispatch hn hdispatch).trans hposts.passes

/-- A bank in one cycle. -/
def round (c : SharedBank) : Round where
  before := c.port
  handled := c.handled.node.port
  sent := c.tick.sent
  after := c.tick.node.port

/-- No packet overtakes another in a cycle of a bank. -/
theorem orderly_round (hn : c.port.Proper) (hf : c.tick.fault = none) : c.round.Orderly := by
  have htick : c.tick = c.handled.andThen flush := rfl
  have hhandled := (Work.andThen_fault_eq_none.1 (htick ▸ hf)).1
  have hpasses : ({ c.port with inbound := [] } : Port).Passes c.handled.node.port c.handled.sent :=
    Work.through_passes port some (n := c.beginCycle)
      (fun c q => by rw [List.filterMap_some]; rfl) (fun _ _ hn he => passes_react hn he) hn
      (List.filterMap_some).symm hhandled
  rw [round, htick, Work.andThen_node hhandled, Work.andThen_sent hhandled]
  exact Round.orderly_of_passes hn hpasses c.handled.node.cycle

end CacheCoherence.SharedBank
