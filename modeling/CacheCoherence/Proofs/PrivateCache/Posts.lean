import CacheCoherence.PrivateCache.Tick
import CacheCoherence.Proofs.PrivateCache.Events
import CacheCoherence.Proofs.Traffic.Passage

/-!
# Posts — what a private cache does to its port

Whatever a private cache does to its lines, on its way out it only adds packets of its own behind
those that are there. Handling a packet returns a credit or takes one back, and takes nothing
else away.
-/

namespace CacheCoherence

/-- The packet that an event brings to a private cache. -/
def ClientInput.packet? : ClientInput → Option Packet
  | .packet p => some p
  | .request _ => none

namespace PrivateCache

/-- A private cache as the interconnect sees it. -/
def port (c : PrivateCache) : Port :=
  { id := c.id, inbound := c.inbound.filterMap ClientInput.packet?, outlet := c.outlet }

/-- The cache once it has handled all that waited for its tick. -/
def handled (c : PrivateCache) : Work PrivateCache :=
  .through (fun c queue => { c with inbound := queue }) react c.beginCycle c.beginCycle.inbound

variable {c d : PrivateCache} {q : Request} {line : Addr} {register way : Handle}

/-! ## What is posted -/

theorem posts_send (c : PrivateCache) (op : Opcode) (line : Addr) (dst : NodeId) :
    c.port.Posts (c.send op line dst).port :=
  .post c.cycle ⟨rfl, rfl⟩

theorem posts_perform (c : PrivateCache) (line : Addr) (actions : List ClientAction) :
    c.port.Posts (c.perform line actions).port := by
  induction actions generalizing c with
  | nil => exact .refl _
  | cons a rest ih =>
    have hact : c.port.Posts (c.act line a).port := by
      cases a with
      | toManager op => exact posts_send ..
      | toPeer op dest => exact posts_send ..
    exact hact.trans (ih _)

theorem posts_issueFill {m : ClientMiss} (h : c.issueFill register line m = .ok d) :
    c.port.Posts d.port := by
  obtain ⟨t, -, h⟩ := bind_eq_ok.1 h
  cases h
  exact posts_perform { c with mshr := c.mshr.assign register line _ } line t.actions

theorem posts_finishEviction {victimLine : Addr} (h : c.finishEviction way victimLine = .ok d) :
    c.port.Posts d.port := by
  unfold finishEviction at h
  split at h
  · cases h
    exact .refl _
  · split at h
    · cases h
    · next old way' table hr =>
      obtain ⟨d', hfill, h⟩ := bind_eq_ok.1 h
      cases h
      have hposted : ({ c with table } : PrivateCache).port.Posts d'.port := posts_issueFill hfill
      exact hposted

theorem posts_startEviction {victimLine : Addr} {x : LineEntry ClientState}
    (h : c.startEviction way victimLine x = .ok d) : c.port.Posts d.port := by
  obtain ⟨t, -, h⟩ := bind_eq_ok.1 h
  dsimp only at h
  have hposted := posts_perform (({ c with
    table := c.table.modify way fun e => { e with evicting := true }
    counters := { c.counters with
      evictions := c.counters.evictions + 1
      writebacks := c.counters.writebacks + x.dirty.toNat } } :
        PrivateCache).commit way t.next) victimLine t.actions
  split at h
  · exact hposted.trans (posts_finishEviction h)
  · cases h
    exact hposted

theorem posts_carryOut {a : Admission} (h : c.carryOut q line a = .ok d) :
    c.port.Posts d.port := by
  cases a with
  | park reason watch =>
    cases h
    exact .refl _
  | hit way next =>
    cases h
    exact .refl _
  | upgrade register way t =>
    cases h
    have hposted := posts_perform { ({ c.countMiss with
      mshr := c.mshr.assign register line (.upgrade way q) } : PrivateCache).commit way t.next with
      table := (c.commit way t.next).table.touch way } line t.actions
    exact hposted
  | fill register way table =>
    have hposted : ({ c.countMiss with table } : PrivateCache).port.Posts d.port :=
      posts_issueFill h
    exact hposted
  | replace register victim victimLine x =>
    have hposted : ({ c.countMiss with mshr := c.mshr.assign register line (.miss
        { state := .I, way := victim, request := q, awaitsVictim := true }) } :
          PrivateCache).port.Posts d.port :=
      posts_startEviction h
    exact hposted

/-- A request of the processor. -/
theorem posts_process {fresh : Bool} (h : c.process q fresh = .ok d) : c.port.Posts d.port := by
  rw [process_eq] at h
  obtain ⟨a, -, h⟩ := bind_eq_ok.1 h
  exact posts_carryOut h

/-- Requests that were woken. -/
theorem posts_drain (h : c.drain.fault = none) :
    c.port.Posts c.drain.node.port ∧ c.drain.sent = [] := by
  induction c using drain.induct with
  | case1 c hq =>
    rw [drain_nil hq]
    exact ⟨.refl _, rfl⟩
  | case2 c x rest hq fault hp =>
    rw [drain_cons hq, hp] at h
    cases h
  | case3 c x rest hq d hp hdec ih =>
    have hdrain : c.drain = d.drain := by
      rw [drain_cons hq, hp]
      exact Work.andThen_done ..
    rw [hdrain] at h ⊢
    exact ⟨(posts_process hp).trans (ih h).1, (ih h).2⟩

/-! ## Messages -/

theorem posts_completeFill {m : ClientMiss} (h : c.completeFill register line m = .ok d) :
    c.port.Posts d.port := by
  unfold completeFill at h
  dsimp only at h
  split at h
  · cases h
    exact .refl _
  · cases h

theorem posts_handleMiss {m : ClientMiss} {event : ClientEvent}
    (h : c.handleMiss register line m event = .ok d) : c.port.Posts d.port := by
  obtain ⟨t, -, h⟩ := bind_eq_ok.1 h
  dsimp only at h
  have hposted := posts_perform
    { c with mshr := c.mshr.modify register fun _ => .miss { m with state := t.next } }
    line t.actions
  split at h
  · exact hposted.trans (posts_completeFill h)
  · cases h
    exact hposted

theorem port_completeUpgrade {s : ClientState} :
    (c.completeUpgrade register way line s q).port = c.port := by
  unfold completeUpgrade
  rfl

theorem port_drop : (c.drop way line).port = c.port := rfl

theorem posts_handleResident {e : LineEntry ClientState} {upgrade : Option (Handle × Request)}
    {event : ClientEvent} (h : c.handleResident line way e upgrade event = .ok d) :
    c.port.Posts d.port := by
  obtain ⟨t, -, h⟩ := bind_eq_ok.1 h
  dsimp only at h
  have hposted := posts_perform (c.commit way t.next) line t.actions
  split at h
  · split at h
    · exact hposted.trans (posts_finishEviction h)
    · cases h
      exact hposted
  · split at h <;> split at h <;> cases h
    · rwa [port_completeUpgrade]
    · exact hposted
    · rwa [port_drop]
    · exact hposted

/-- A coherence message. -/
theorem posts_handle {msg : CoherenceMessage} (h : c.handle msg = .ok d) :
    c.port.Posts d.port := by
  unfold handle at h
  dsimp only at h
  split at h
  · exact posts_handleMiss h
  · exact posts_handleResident h
  · split at h
    · cases h
      exact posts_send ..
    · cases h

/-! ## A cycle -/

theorem passes_takeCredit (hn : c.port.Proper) (hf : c.takeCredit.fault = none) :
    c.port.Passes c.takeCredit.node.port c.takeCredit.sent := by
  unfold takeCredit at hf ⊢
  dsimp only at hf ⊢
  split
  · next link sent harr => exact .creditArrived hn harr
  · next harr =>
    rw [harr] at hf
    cases hf

/-- One packet. -/
theorem passes_dispatch {p : Packet} (hn : c.port.Proper) (hf : (c.dispatch p).fault = none) :
    c.port.Passes (c.dispatch p).node.port (c.dispatch p).sent := by
  unfold dispatch at hf ⊢
  split at hf
  · split at hf
    · next htag =>
      rw [if_pos htag]
      exact passes_takeCredit hn hf
    · cases hf
  · next msg hm =>
    split at hf
    · next htag =>
      rw [if_pos htag]
      exact Work.passes_answer (Port.Passes.returnCredit c.port p.src c.tags.credit)
        (fun _ => posts_handle) hf
    · cases hf
  · cases hf

/-- One event and everything that it causes. -/
theorem passes_react {e : ClientInput} (hn : c.port.Proper) (hf : (c.react e).fault = none) :
    c.port.Passes (c.react e).node.port (c.react e).sent := by
  have hall : ∀ w : Work PrivateCache, c.port.Passes w.node.port w.sent → w.fault = none →
      (w.andThen drain).fault = none →
      c.port.Passes (w.andThen drain).node.port (w.andThen drain).sent := by
    intro w hw hfw hdrain
    obtain ⟨hposts, hsent⟩ := posts_drain (Work.andThen_fault_eq_none.1 hdrain).2
    rw [Work.andThen_node hfw, Work.andThen_sent hfw, hsent]
    exact hw.trans hposts.passes
  cases e with
  | request q =>
    have hfirst := (Work.andThen_fault_eq_none.1 hf).1
    refine hall _ ?_ hfirst hf
    have hcount : (c.countRequest q).port = c.port := by
      unfold countRequest
      split <;> rfl
    cases hd : (c.countRequest q).process q true with
    | error f =>
      rw [hd] at hfirst
      cases hfirst
    | ok d =>
      rw [← hcount]
      exact (posts_process hd).passes
  | packet p =>
    have hfirst := (Work.andThen_fault_eq_none.1 hf).1
    exact hall _ (passes_dispatch hn hfirst) hfirst hf

/-- A cache in one cycle. -/
def round (c : PrivateCache) : Round where
  before := c.port
  handled := c.handled.node.port
  sent := c.tick.1.sent
  after := c.tick.1.node.port

/-- No packet overtakes another in a cycle of a cache. -/
theorem orderly_round (hn : c.port.Proper) (hf : c.tick.1.fault = none) : c.round.Orderly := by
  have htick : c.tick.1 = (c.handled.andThen flush).andThen fun c => .done c.collect := c.tick_eq
  have hflushed := (Work.andThen_fault_eq_none.1 (htick ▸ hf)).1
  have hhandled := (Work.andThen_fault_eq_none.1 hflushed).1
  have hpasses : ({ c.port with inbound := [] } : Port).Passes c.handled.node.port c.handled.sent :=
    Work.through_passes port ClientInput.packet? (n := c.beginCycle) (fun _ _ => rfl)
      (fun _ _ hn he => passes_react hn he) hn rfl hhandled
  rw [round, htick, Work.andThen_node hflushed, Work.andThen_sent hflushed,
    Work.andThen_node hhandled, Work.andThen_sent hhandled, Work.done, List.append_nil]
  exact Round.orderly_of_passes hn hpasses c.handled.node.cycle

end PrivateCache

end CacheCoherence
