import CacheCoherence.PrivateCache.Tick
import CacheCoherence.Proofs.Backlog.Held
import CacheCoherence.Proofs.Table.Registers

/-!
# Account — a private cache loses no request of its core

A request that a cache takes up is held back, stands in a register, or waits to be answered.
Whatever the cache does moves requests from one of these to another, and what it counts goes
with them. So after a cycle that ends without a fault every request that the core has made is
answered or still there, once, and none is only waiting to be tried again.
-/

namespace CacheCoherence

/-- Requests of the processor. -/
def Counters.requests (k : Counters) : Nat := k.processorReads + k.processorWrites

/-- Requests that have been served by a line or have opened a transaction. -/
def Counters.accesses (k : Counters) : Nat := k.hits + k.misses

/-- The request that the event is, if it is one. -/
def ClientInput.request? : ClientInput → Option Request
  | .request q => some q
  | .packet _ => none

/-- What the event asks of the cache. -/
def ClientInput.asked (input : ClientInput) : Multiset Request := input.request?.toList

/-- The requests that have opened a transaction which is outstanding. -/
def Mshr.requests (m : Mshr ClientTransaction) : Multiset Request :=
  m.transactions.map ClientTransaction.request

theorem ClientTransaction.of_waitingFor? {victim : Handle} {v : ClientTransaction}
    {x : ClientMiss} (h : v.waitingFor? victim = some x) : v = .miss x := by
  cases v with
  | miss m =>
    obtain ⟨-, hm⟩ := Option.ite_none_right_eq_some.1 h
    cases hm
    rfl
  | upgrade => cases h

namespace PrivateCache

/-- The requests that the cache has taken up and not answered. -/
def held (c : PrivateCache) : Multiset Request :=
  c.backlog.items + c.mshr.requests + (c.responses.toList : Multiset Request)

/-- How many of them a line has served or is to serve. -/
def underWay (c : PrivateCache) : Nat := c.mshr.occupancy + c.responses.size

/-- The requests that are still to be taken up. -/
def queued (c : PrivateCache) : Multiset Request :=
  (c.inbound.filterMap ClientInput.request? : List Request)

/-- The cache `d` has the requests `qs` besides those of `c`. -/
structure Takes (qs : Multiset Request) (c d : PrivateCache) : Prop where
  inbound : d.inbound = c.inbound
  shaped : d.mshr.Shaped
  held : d.held = c.held + qs
  requests : d.counters.requests = c.counters.requests
  accesses : d.counters.accesses + c.underWay = c.counters.accesses + d.underWay

variable {c d e : PrivateCache} {qs qs' : Multiset Request} {q : Request} {line : Addr}
  {register way : Handle} {v w : ClientTransaction}

namespace Takes

theorem refl (hs : c.mshr.Shaped) : Takes 0 c c := ⟨rfl, hs, (add_zero _).symm, rfl, rfl⟩

theorem trans (h : Takes qs c d) (h' : Takes qs' d e) : Takes (qs + qs') c e where
  inbound := h'.inbound.trans h.inbound
  shaped := h'.shaped
  held := by rw [h'.held, h.held, add_assoc]
  requests := h'.requests.trans h.requests
  accesses := by
    have := h.accesses
    have := h'.accesses
    omega

/-- Work that takes no request up goes on. -/
theorem andThen (h : Takes 0 c d) (h' : Takes qs d e) : Takes qs c e := by
  have hall := h.trans h'
  rwa [zero_add] at hall

/-- What is changed besides does not count. -/
theorem congr (h : Takes qs c d) (hin : e.inbound = d.inbound)
    (hback : e.backlog.items = d.backlog.items) (hm : e.mshr = d.mshr)
    (hres : e.responses = d.responses) (hreq : e.counters.requests = d.counters.requests)
    (hacc : e.counters.accesses = d.counters.accesses) : Takes qs c e where
  inbound := hin.trans h.inbound
  shaped := hm ▸ h.shaped
  held := by rw [← h.held, PrivateCache.held, PrivateCache.held, hback, hm, hres]
  requests := hreq.trans h.requests
  accesses := by
    have hway : e.underWay = d.underWay := by rw [underWay, underWay, hm, hres]
    rw [hacc, hway, h.accesses]

theorem wake (h : Takes qs c d) (event : WakeEvent) : Takes qs c (d.wake event) :=
  h.congr rfl (Backlog.items_wake d.backlog event) rfl rfl rfl rfl

/-- Registers that keep their requests. -/
theorem of_mshr {m : Mshr ClientTransaction} (hs : m.Shaped)
    (hm : m.requests = c.mshr.requests) : Takes 0 c { c with mshr := m } where
  inbound := rfl
  shaped := hs
  held := by rw [PrivateCache.held, PrivateCache.held, hm, add_zero]
  requests := rfl
  accesses := by
    have hocc : m.occupancy = c.mshr.occupancy := by
      rw [← m.card_transactions, ← c.mshr.card_transactions,
        ← Multiset.card_map ClientTransaction.request,
        ← Multiset.card_map ClientTransaction.request c.mshr.transactions]
      exact congrArg Multiset.card hm
    rw [underWay, underWay, hocc]

/-- The transaction in a register becomes another for the same request. -/
theorem rewrite {m : Mshr ClientTransaction} (hs : m.Shaped)
    (hm : m.transactions + {w} = c.mshr.transactions + {v}) (hr : v.request = w.request) :
    Takes 0 c { c with mshr := m } := by
  apply of_mshr hs
  have hall := congrArg (Multiset.map ClientTransaction.request) hm
  rw [Multiset.map_add, Multiset.map_add, Multiset.map_singleton, Multiset.map_singleton,
    hr] at hall
  exact add_right_cancel hall

/-- A request opens a transaction. -/
theorem enter (hs : c.mshr.Shaped) (hf : c.mshr.free? = some register) (line : Addr)
    (v : ClientTransaction) : Takes {v.request} c
      { c.countMiss with mshr := c.mshr.assign register line v } := by
  obtain ⟨hshaped, hall⟩ := hs.enter hf line v
  refine ⟨rfl, hshaped, ?_, rfl, ?_⟩
  · have hm : (c.mshr.assign register line v).requests = c.mshr.requests + {v.request} := by
      rw [Mshr.requests, hall, Multiset.map_add]
      rfl
    show c.backlog.items + (c.mshr.assign register line v).requests + _ = _
    rw [hm, PrivateCache.held]
    abel
  · have hocc := congrArg Multiset.card hall
    rw [Multiset.card_add, Mshr.card_transactions, Mshr.card_transactions,
      Multiset.card_singleton] at hocc
    show c.counters.hits + (c.counters.misses + 1) + (c.mshr.occupancy + c.responses.size)
      = c.counters.hits + c.counters.misses
        + ((c.mshr.assign register line v).occupancy + c.responses.size)
    omega

end Takes

/-- Carrying out actions posts packets and counts them. -/
theorem perform_frame (c : PrivateCache) (line : Addr) (actions : List ClientAction) :
    ∃ o n, c.perform line actions
      = { c with outlet := o, counters := { c.counters with messagesSent := n } } := by
  induction actions generalizing c with
  | nil => exact ⟨c.outlet, c.counters.messagesSent, rfl⟩
  | cons a rest ih =>
    obtain ⟨o, n, hact⟩ : ∃ o n, c.act line a
        = { c with outlet := o, counters := { c.counters with messagesSent := n } } := by
      cases a <;> exact ⟨_, _, rfl⟩
    obtain ⟨o', n', hrest⟩ := ih (c.act line a)
    refine ⟨o', n', ?_⟩
    show (c.act line a).perform line rest = _
    rw [hrest, hact]

theorem Takes.perform (h : Takes qs c d) (line : Addr) (actions : List ClientAction) :
    Takes qs c (d.perform line actions) := by
  obtain ⟨o, n, hp⟩ := perform_frame d line actions
  rw [hp]
  exact h.congr rfl rfl rfl rfl rfl rfl

theorem Takes.commit (h : Takes qs c d) (way : Handle) (s : ClientState) :
    Takes qs c (d.commit way s) :=
  h.congr rfl rfl rfl rfl rfl rfl

/-! ## Replacement -/

/-- A line that is asked for is pursued in its register. -/
theorem issueFill_frame {x : ClientMiss} (h : c.issueFill register line x = .ok d) :
    ∃ v o n, v.request = x.request ∧ d = { c with
      mshr := c.mshr.assign register line v
      outlet := o
      counters := { c.counters with messagesSent := n } } := by
  obtain ⟨t, -, h⟩ := bind_eq_ok.1 h
  cases h
  obtain ⟨o, n, hp⟩ := perform_frame { c with
    mshr := c.mshr.assign register line (.miss { x with state := t.next }) } line t.actions
  exact ⟨_, o, n, rfl, hp⟩

theorem takes_finishEviction (hs : c.mshr.Shaped) {victimLine : Addr}
    (h : c.finishEviction way victimLine = .ok d) : Takes 0 c d := by
  unfold finishEviction at h
  split at h
  · -- nobody waits for the way, or the line that does is asked for now
    cases h
    apply Takes.wake
    exact (Takes.refl hs).congr rfl rfl rfl rfl rfl rfl
  · next register line x hf =>
    split at h
    · cases h
    · next old way' table hr =>
      obtain ⟨d', hfill, h⟩ := bind_eq_ok.1 h
      cases h
      obtain ⟨w, hg, hw⟩ := Mshr.get?_of_findSome? hf
      obtain rfl := ClientTransaction.of_waitingFor? hw
      obtain ⟨v, o, n, hv, rfl⟩ := issueFill_frame hfill
      have hm := hs.assign hg line v
      apply Takes.wake
      exact (Takes.rewrite hm.1 hm.2 hv).congr rfl rfl rfl rfl rfl rfl

theorem takes_startEviction (hs : c.mshr.Shaped) {victimLine : Addr} {x : LineEntry ClientState}
    (h : c.startEviction way victimLine x = .ok d) : Takes 0 c d := by
  obtain ⟨t, -, h⟩ := bind_eq_ok.1 h
  dsimp only at h
  have hleft : Takes 0 c (({ c with
      table := c.table.modify way fun e => { e with evicting := true }
      counters := { c.counters with
        evictions := c.counters.evictions + 1
        writebacks := c.counters.writebacks + x.dirty.toNat } } :
          PrivateCache).commit way t.next) :=
    (Takes.refl hs).congr rfl rfl rfl rfl rfl rfl
  have hposted := hleft.perform victimLine t.actions
  split at h
  · exact hposted.andThen (takes_finishEviction hposted.shaped h)
  · cases h
    exact hposted

/-! ## Requests -/

/-- The register that a decision names. -/
def Admission.register? : Admission → Option Handle
  | .park _ _ | .hit _ _ => none
  | .upgrade register _ _ | .fill register _ _ | .replace register _ _ _ => some register

/-- A register that is to be taken is free. -/
theorem free_of_admission {a : Admission} {fresh : Bool} (h : c.admission q fresh = .ok a)
    (hr : a.register? = some register) : c.mshr.free? = some register := by
  unfold admission at h
  dsimp only at h
  split at h
  · cases h
    cases hr
  · split at h
    · unfold admissionResident at h
      split at h
      · cases h
        cases hr
      · obtain ⟨t, -, h⟩ := bind_eq_ok.1 h
        split at h
        · cases h
          cases hr
        · split at h <;> cases h <;> cases hr
          assumption
    · cases h
      unfold admissionAbsent at hr
      split at hr
      · cases hr
      · next free hfree =>
        rw [hfree]
        split at hr
        · exact hr
        · cases hr
        · dsimp only at hr
          split at hr
          · exact hr
          · cases hr

/-- A request is held back. -/
theorem takes_park (hs : c.mshr.Shaped) (reason : StallReason) (watch : Addr) :
    Takes {q} c (c.park q line reason watch) where
  inbound := rfl
  shaped := hs
  held := by
    have hitems : (c.park q line reason watch).backlog.items = q ::ₘ c.backlog.items :=
      Backlog.items_park ..
    rw [held, hitems, held, ← Multiset.singleton_add]
    show {q} + c.backlog.items + c.mshr.requests + (c.responses.toList : Multiset Request) = _
    abel
  requests := by cases reason <;> rfl
  accesses := by cases reason <;> rfl

/-- A request is served at once. -/
theorem takes_serve (hs : c.mshr.Shaped) (s : ClientState) :
    Takes {q} c (c.serve q line way s) := by
  apply Takes.wake
  refine ⟨rfl, hs, ?_, rfl, ?_⟩
  · show c.backlog.items + c.mshr.requests
        + ((c.responses.push c.cycle q).toList : Multiset Request)
      = c.backlog.items + c.mshr.requests + (c.responses.toList : Multiset Request) + {q}
    rw [DelayLine.toList_push, ← Multiset.coe_add, ← add_assoc]
    rfl
  · show c.counters.hits + 1 + c.counters.misses + (c.mshr.occupancy + c.responses.size)
      = c.counters.hits + c.counters.misses
        + (c.mshr.occupancy + (c.responses.push c.cycle q).size)
    simp only [DelayLine.push, DelayLine.size, List.length_append, List.length_singleton]
    omega

theorem takes_carryOut (hs : c.mshr.Shaped) {a : Admission}
    (hfree : ∀ register, a.register? = some register → c.mshr.free? = some register)
    (h : c.carryOut q line a = .ok d) : Takes {q} c d := by
  cases a with
  -- the request goes on in the backlog, on its way back or in a register
  | park reason watch =>
    cases h
    exact takes_park hs reason watch
  | hit way next =>
    cases h
    exact takes_serve hs next
  | upgrade register way t =>
    cases h
    apply Takes.perform
    exact (Takes.enter hs (hfree register rfl) line (.upgrade way q)).congr rfl rfl rfl rfl rfl rfl
  | fill register way table =>
    obtain ⟨v, o, n, hv, rfl⟩ := issueFill_frame (show startFill .. = _ from h)
    obtain rfl : v.request = q := hv
    exact (Takes.enter hs (hfree register rfl) line v).congr rfl rfl rfl rfl rfl rfl
  | replace register victim victimLine x =>
    have hentered := Takes.enter hs (hfree register rfl) line (.miss
      { state := .I, way := victim, request := q, awaitsVictim := true })
    have hall := hentered.trans (takes_startEviction hentered.shaped h)
    rwa [add_zero] at hall

/-- A request that is tried is taken up. -/
theorem takes_process (hs : c.mshr.Shaped) {fresh : Bool} (h : c.process q fresh = .ok d) :
    Takes {q} c d := by
  rw [process_eq] at h
  obtain ⟨a, ha, h⟩ := bind_eq_ok.1 h
  exact takes_carryOut hs (fun register hr => free_of_admission ha hr) h

/-- Woken requests that are tried again are moved about, and none is left to be tried. -/
theorem takes_drain (hs : c.mshr.Shaped) (h : c.drain.fault = none) :
    Takes 0 c c.drain.node ∧ c.drain.node.backlog.retries = [] := by
  induction c using drain.induct with
  | case1 c hq =>
    rw [drain_nil hq]
    exact ⟨.refl hs, hq⟩
  | case2 c x rest hq fault hp =>
    rw [drain_cons hq, hp] at h
    cases h
  | case3 c x rest hq d hp hdec ih =>
    -- one request leaves the backlog, and is taken up again
    have hdrain : c.drain = d.drain := by
      rw [drain_cons hq, hp]
      exact Work.andThen_done ..
    have hretry := takes_process (c := c.retrying rest) hs hp
    rw [hdrain] at h ⊢
    obtain ⟨hrest, hnil⟩ := ih hretry.shaped h
    have hall := hretry.trans hrest
    refine ⟨⟨hall.inbound, hall.shaped, ?_, hall.requests, hall.accesses⟩, hnil⟩
    have hheld : c.held = (c.retrying rest).held + {x.item} := by
      rw [held, held, Backlog.items_cons hq, ← Multiset.singleton_add]
      show _ = (c.retrying rest).backlog.items + c.mshr.requests + c.responses.toList + {x.item}
      unfold retrying
      abel
    rw [hall.held, hheld]
    abel

/-! ## Messages -/

/-- The request in a register is on its way back, and its register is free. -/
theorem takes_conclude (hs : c.mshr.Shaped) (hg : c.mshr.get? register = some v)
    (hv : v.request = q) : Takes 0 c (c.conclude register line q) := by
  obtain ⟨hshaped, hall⟩ := hs.release hg
  apply Takes.wake
  apply Takes.wake
  refine ⟨rfl, hshaped, ?_, rfl, ?_⟩
  · have hm : c.mshr.requests = (c.mshr.release register).2.requests + {q} := by
      rw [Mshr.requests, ← hall, Multiset.map_add, Multiset.map_singleton, hv]
      rfl
    show c.backlog.items + (c.mshr.release register).2.requests
        + ((c.responses.push c.cycle q).toList : Multiset Request)
      = c.backlog.items + c.mshr.requests + (c.responses.toList : Multiset Request) + 0
    rw [DelayLine.toList_push, ← Multiset.coe_add, Multiset.coe_singleton, hm]
    abel
  · have hocc := congrArg Multiset.card hall
    rw [Multiset.card_add, Mshr.card_transactions, Mshr.card_transactions,
      Multiset.card_singleton] at hocc
    show c.counters.accesses + (c.mshr.occupancy + c.responses.size) = c.counters.accesses
      + ((c.mshr.release register).2.occupancy + (c.responses.push c.cycle q).size)
    simp only [DelayLine.push, DelayLine.size, List.length_append, List.length_singleton]
    omega

theorem takes_completeFill {x : ClientMiss} (hs : c.mshr.Shaped)
    (hg : c.mshr.get? register = some (.miss x)) (h : c.completeFill register line x = .ok d) :
    Takes 0 c d := by
  unfold completeFill at h
  dsimp only at h
  split at h
  · next table hinstall =>
    cases h
    have hfilled : Takes 0 c { c with table } := (Takes.refl hs).congr rfl rfl rfl rfl rfl rfl
    exact hfilled.andThen (takes_conclude hs hg rfl)
  · cases h

theorem takes_completeUpgrade {s : ClientState} (hs : c.mshr.Shaped)
    (hg : c.mshr.get? register = some v) (hv : v.request = q) :
    Takes 0 c (c.completeUpgrade register way line s q) := by
  have hupgraded : Takes 0 c { c.commit way (settled s q) with
      table := (c.commit way (settled s q)).table.modify way fun e =>
        { e with haveData := true } } :=
    (Takes.refl hs).congr rfl rfl rfl rfl rfl rfl
  exact hupgraded.andThen (takes_conclude hs hg hv)

theorem takes_handleMiss {x : ClientMiss} {event : ClientEvent} (hs : c.mshr.Shaped)
    (hg : c.mshr.get? register = some (.miss x))
    (h : c.handleMiss register line x event = .ok d) : Takes 0 c d := by
  obtain ⟨t, -, h⟩ := bind_eq_ok.1 h
  dsimp only at h
  obtain ⟨hshaped, hall, hg'⟩ := hs.modify hg fun _ => .miss { x with state := t.next }
  have hmoved : Takes 0 c (({ c with
      mshr := c.mshr.modify register fun _ => .miss { x with state := t.next } } :
        PrivateCache).perform
        line t.actions) :=
    (Takes.rewrite hshaped hall rfl).perform line t.actions
  -- the register keeps its request until the line is here
  split at h
  · refine hmoved.andThen (takes_completeFill hmoved.shaped ?_ h)
    obtain ⟨o, k, hp⟩ := perform_frame _ line t.actions
    rw [hp]
    exact hg'
  · cases h
    exact hmoved

theorem takes_handleResident {x : LineEntry ClientState} {upgrade : Option (Handle × Request)}
    {event : ClientEvent} (hs : c.mshr.Shaped)
    (hg : ∀ register q, upgrade = some (register, q) →
      ∃ v, c.mshr.get? register = some v ∧ v.request = q)
    (h : c.handleResident line way x upgrade event = .ok d) : Takes 0 c d := by
  obtain ⟨t, -, h⟩ := bind_eq_ok.1 h
  dsimp only at h
  have hmoved := ((Takes.refl hs).commit way t.next).perform line t.actions
  split at h
  · split at h
    · exact hmoved.andThen (takes_finishEviction hmoved.shaped h)
    · cases h
      exact hmoved
  · cases upgrade with
    | some upgrade =>
      obtain ⟨register, q⟩ := upgrade
      dsimp only at h
      split at h
      · cases h
        obtain ⟨v, hget, hv⟩ := hg register q rfl
        refine hmoved.andThen (takes_completeUpgrade hmoved.shaped ?_ hv)
        obtain ⟨o, k, hp⟩ := perform_frame (c.commit way t.next) line t.actions
        rw [hp]
        exact hget
      · cases h
        exact hmoved
    | none =>
      dsimp only at h
      split at h
      · cases h
        apply Takes.wake
        exact hmoved.congr rfl rfl rfl rfl rfl rfl
      · cases h
        exact hmoved

/-- A message moves requests about. -/
theorem takes_handle {msg : CoherenceMessage} (hs : c.mshr.Shaped) (h : c.handle msg = .ok d) :
    Takes 0 c d := by
  unfold handle at h
  dsimp only at h
  split at h
  · next ho => exact takes_handleMiss hs (Mshr.get?_of_outstanding? ho) h
  · refine takes_handleResident hs (fun register q hup => ?_) h
    obtain ⟨⟨register', v⟩, ho, heq⟩ := Option.map_eq_some_iff.1 hup
    cases heq
    exact ⟨v, Mshr.get?_of_outstanding? ho, rfl⟩
  · split at h
    · cases h
      exact (Takes.refl hs).congr rfl rfl rfl rfl rfl rfl
    · cases h

/-! ## A cycle -/

theorem takes_takeCredit (hs : c.mshr.Shaped) : Takes 0 c c.takeCredit.node := by
  unfold takeCredit
  dsimp only
  split <;> exact (Takes.refl hs).congr rfl rfl rfl rfl rfl rfl

theorem takes_dispatch {p : Packet} (hs : c.mshr.Shaped) (h : (c.dispatch p).fault = none) :
    Takes 0 c (c.dispatch p).node := by
  unfold dispatch at h ⊢
  split
  · split
    · exact takes_takeCredit hs
    · exact .refl hs
  · next msg hm =>
    split
    · next htag =>
      rw [hm] at h
      dsimp only at h
      rw [if_pos htag] at h
      have hgiven : Takes 0 c (c.giveCredit p.src).node :=
        (Takes.refl hs).congr rfl rfl rfl rfl rfl rfl
      have hgo : (c.giveCredit p.src).andThen (fun c => .ofExcept c (c.handle msg))
          = { Work.ofExcept (c.giveCredit p.src).node ((c.giveCredit p.src).node.handle msg) with
              sent := (c.giveCredit p.src).sent ++ (Work.ofExcept (c.giveCredit p.src).node
                ((c.giveCredit p.src).node.handle msg)).sent } := rfl
      rw [hgo] at h ⊢
      cases hhandle : (c.giveCredit p.src).node.handle msg with
      | error f =>
        rw [hhandle] at h
        cases h
      | ok d => exact hgiven.andThen (takes_handle hgiven.shaped hhandle)
    · exact .refl hs
  · exact .refl hs

/-- The cache once it has counted the request of an event. -/
def counting (c : PrivateCache) : ClientInput → PrivateCache
  | .request q => c.countRequest q
  | .packet _ => c

/-- Counting a request is all that it changes. -/
theorem counting_frame (c : PrivateCache) (input : ClientInput) :
    ∃ k : Counters, c.counting input = { c with counters := k } ∧
      k.requests = c.counters.requests + input.asked.card ∧ k.accesses = c.counters.accesses := by
  cases input with
  | packet p => exact ⟨c.counters, rfl, rfl, rfl⟩
  | request q =>
    obtain ⟨core, access, addr⟩ := q
    cases access with
    | read =>
      exact ⟨{ c.counters with processorReads := c.counters.processorReads + 1 }, rfl,
        Nat.add_right_comm .., rfl⟩
    | write =>
      exact ⟨{ c.counters with processorWrites := c.counters.processorWrites + 1 }, rfl, rfl, rfl⟩

/-- An event is dealt with, and with it all that it wakes. -/
theorem takes_react {input : ClientInput} (hs : c.mshr.Shaped)
    (h : (c.react input).fault = none) : Takes input.asked (c.counting input) (c.react input).node ∧
      (c.react input).node.backlog.retries = [] := by
  cases input with
  | request q =>
    obtain ⟨hprocess, hdrain⟩ := Work.andThen_fault_eq_none.1 h
    rw [react, Work.andThen_node hprocess]
    have hcounted : (c.countRequest q).mshr.Shaped := by
      obtain ⟨k, hk, -⟩ := c.counting_frame (.request q)
      rw [show c.countRequest q = _ from hk]
      exact hs
    cases hp : (c.countRequest q).process q true with
    | error f =>
      rw [hp] at hprocess
      cases hprocess
    | ok d =>
      rw [hp] at hdrain
      have htaken := takes_process hcounted hp
      obtain ⟨hdrained, hnil⟩ := takes_drain htaken.shaped hdrain
      have hall := htaken.trans hdrained
      rw [add_zero] at hall
      exact ⟨hall, hnil⟩
  | packet p =>
    obtain ⟨hdispatch, hdrain⟩ := Work.andThen_fault_eq_none.1 h
    rw [react, Work.andThen_node hdispatch]
    have hdone := takes_dispatch hs hdispatch
    obtain ⟨hdrained, hnil⟩ := takes_drain hdone.shaped hdrain
    exact ⟨hdone.andThen hdrained, hnil⟩

/-! ## What is asked and what is answered -/

/-- Of the requests `asked` of the cache it has answered `answered`, and has all others. What it
counts says so too, and none is only to be tried again. -/
structure Accounts (asked answered : Multiset Request) (c : PrivateCache) : Prop where
  shaped : c.mshr.Shaped
  tried : c.backlog.retries = []
  sum : asked = c.queued + c.held + answered
  requests : c.counters.requests = c.held.card + answered.card
  accesses : c.counters.accesses = c.underWay + answered.card

namespace Accounts

variable {asked answered : Multiset Request}

/-- The core makes a request. -/
theorem request (h : Accounts asked answered c) (q : Request) :
    Accounts (asked + {q}) answered (c.request q) where
  shaped := h.shaped
  tried := h.tried
  sum := by
    have hqueued : (c.request q).queued = c.queued + {q} := by
      rw [queued, PrivateCache.request, List.filterMap_append, ← Multiset.coe_add]
      rfl
    rw [h.sum, hqueued]
    show _ = c.queued + {q} + c.held + answered
    abel
  requests := h.requests
  accesses := h.accesses

/-- A packet arrives. -/
theorem receive (h : Accounts asked answered c) (p : Packet) :
    Accounts asked answered (c.receive p) where
  shaped := h.shaped
  tried := h.tried
  sum := by
    have hqueued : (c.receive p).queued = c.queued := by
      rw [queued, PrivateCache.receive, List.filterMap_append]
      exact congrArg _ (List.append_nil _)
    rw [hqueued]
    exact h.sum
  requests := h.requests
  accesses := h.accesses

/-- The first event is dealt with. -/
theorem react {input : ClientInput} {rest : List ClientInput} (h : Accounts asked answered c)
    (hin : c.inbound = input :: rest)
    (hf : (PrivateCache.react { c with inbound := rest } input).fault = none) :
    Accounts asked answered (PrivateCache.react { c with inbound := rest } input).node ∧
      (PrivateCache.react { c with inbound := rest } input).node.inbound = rest := by
  obtain ⟨htaken, hnil⟩ := takes_react (c := { c with inbound := rest }) h.shaped hf
  obtain ⟨k, hk, hreq, hacc⟩ := counting_frame { c with inbound := rest } input
  rw [hk] at htaken
  have hqueued : c.queued
      = input.asked + (rest.filterMap ClientInput.request? : List Request) := by
    rw [queued, hin]
    cases input <;> rfl
  have hheld : _ = c.held + input.asked := htaken.held
  have hreq' := htaken.requests.trans hreq
  have hacc' : _ + c.underWay = k.accesses + _ := htaken.accesses
  refine ⟨⟨htaken.shaped, hnil, ?_, ?_, ?_⟩, htaken.inbound⟩
  · rw [queued, htaken.inbound, hheld, h.sum, hqueued]
    abel
  · rw [hreq', hheld, Multiset.card_add]
    have := h.requests
    show c.counters.requests + _ = _
    omega
  · have := h.accesses
    have hacc : k.accesses = c.counters.accesses := hacc
    omega

/-- What has been answered when nothing is left in the cache. -/
theorem eq_of_idle (h : Accounts asked answered c) (hin : c.inbound.isEmpty)
    (hback : c.backlog.isEmpty) (hocc : c.mshr.occupancy = 0) (hres : c.responses.isEmpty) :
    asked = answered := by
  have hm : c.mshr.requests = 0 := by
    have hnone := Multiset.card_eq_zero.1 (c.mshr.card_transactions.trans hocc)
    rw [Mshr.requests, hnone, Multiset.map_zero]
  have htoList : c.responses.toList = [] := by
    rw [DelayLine.toList, List.isEmpty_iff.1 hres]
    rfl
  rw [h.sum, queued, held, List.isEmpty_iff.1 hin, Backlog.items_of_isEmpty hback, hm, htoList]
  simp

/-- The answers that are due leave the cache. -/
theorem collect (h : Accounts asked answered c) :
    Accounts asked (answered + (c.answered : Multiset Request)) c.collect := by
  -- what was on its way back has arrived, or is on its way still
  have hlines := c.responses.arrived_append_remaining c.cycle
  have hheld : c.held = c.collect.held + (c.answered : Multiset Request) := by
    show c.backlog.items + c.mshr.requests + (c.responses.toList : Multiset Request)
      = c.backlog.items + c.mshr.requests
        + ((c.responses.remaining c.cycle).toList : Multiset Request)
        + (c.responses.arrived c.cycle : Multiset Request)
    rw [← hlines, ← Multiset.coe_add]
    abel
  have hway : c.underWay = c.collect.underWay + c.answered.length := by
    have hsize := congrArg List.length hlines
    simp only [List.length_append, DelayLine.toList, List.length_map] at hsize
    show c.mshr.occupancy + c.responses.size
      = c.mshr.occupancy + (c.responses.remaining c.cycle).size
        + (c.responses.arrived c.cycle).length
    unfold DelayLine.size
    omega
  refine ⟨h.shaped, h.tried, ?_, ?_, ?_⟩
  · rw [h.sum, hheld]
    show c.queued + _ + answered = c.queued + _ + _
    abel
  · have hreq := h.requests
    rw [hheld, Multiset.card_add] at hreq
    rw [Multiset.card_add]
    show c.counters.requests = _
    omega
  · have hacc := h.accesses
    rw [Multiset.card_add, Multiset.coe_card]
    show c.counters.accesses = _
    omega

/-- A cycle answers some of the requests, and has all others still. -/
theorem tick (h : Accounts asked answered c) (hf : c.tick.1.fault = none) :
    Accounts asked (answered + (c.tick.2 : Multiset Request)) c.tick.1.node ∧
      c.tick.1.node.inbound = [] := by
  unfold PrivateCache.tick at hf ⊢
  dsimp only at hf ⊢
  split at hf
  · next f hw =>
    rw [hw] at hf
    cases hf
  · next hw =>
    rw [hw]
    obtain ⟨hthrough, -⟩ := Work.andThen_fault_eq_none.1 hw
    -- event by event, the cache has what is inside and what is still to come in
    have hbegun : Accounts asked answered c.beginCycle :=
      ⟨h.shaped, h.tried, h.sum, h.requests, h.accesses⟩
    obtain ⟨hdone, hin⟩ := Work.through_induction
      (Q := fun events d => Accounts asked answered d ∧ d.inbound = events)
      (fun d e rest hd he => hd.1.react hd.2 he) ⟨hbegun, rfl⟩ hthrough
    dsimp only
    rw [Work.andThen_node hthrough]
    generalize (Work.through _ _ _ _).node = d at hdone hin
    have hflushed : Accounts asked answered d.flush.node :=
      ⟨hdone.shaped, hdone.tried, hdone.sum, hdone.requests, hdone.accesses⟩
    exact ⟨hflushed.collect, hin⟩

end Accounts

/-! ## What is owed -/

/-- The cache has `n` requests of its core to answer. -/
def Owes (n : Nat) (c : PrivateCache) : Prop :=
  ∃ asked answered, Accounts asked answered c ∧ asked.card = n + answered.card

namespace Owes

variable {n : Nat}

theorem tried (h : Owes n c) : c.backlog.retries = [] := by
  obtain ⟨asked, answered, h, -⟩ := h
  exact h.tried

/-- The core makes a request. -/
theorem request (h : Owes n c) (q : Request) : Owes (n + 1) (c.request q) := by
  obtain ⟨asked, answered, h, hn⟩ := h
  refine ⟨asked + {q}, answered, h.request q, ?_⟩
  rw [Multiset.card_add, Multiset.card_singleton, hn]
  omega

/-- A packet arrives. -/
theorem receive (h : Owes n c) (p : Packet) : Owes n (c.receive p) := by
  obtain ⟨asked, answered, h, hn⟩ := h
  exact ⟨asked, answered, h.receive p, hn⟩

/-- An idle cache owes its core nothing. -/
theorem eq_zero (h : Owes n c) (hidle : c.inbound.isEmpty ∧ c.backlog.isEmpty ∧
    c.mshr.occupancy = 0 ∧ c.responses.isEmpty) : n = 0 := by
  obtain ⟨asked, answered, h, hn⟩ := h
  obtain ⟨hin, hback, hocc, hres⟩ := hidle
  rw [h.eq_of_idle hin hback hocc hres] at hn
  omega

/-- A cycle answers some of the requests, and still owes the others. -/
theorem tick (h : Owes n c) (hf : c.tick.1.fault = none) :
    ∃ m, Owes m c.tick.1.node ∧ m + c.tick.2.length = n ∧ c.tick.1.node.inbound = [] := by
  obtain ⟨asked, answered, h, hn⟩ := h
  obtain ⟨hdone, hin⟩ := h.tick hf
  -- no more can be answered than has been asked
  have hle := congrArg Multiset.card hdone.sum
  simp only [Multiset.card_add, Multiset.coe_card] at hle
  refine ⟨n - c.tick.2.length, ⟨asked, _, hdone, ?_⟩, ?_, hin⟩
  · rw [Multiset.card_add, Multiset.coe_card]
    omega
  · omega

end Owes

end PrivateCache

end CacheCoherence
