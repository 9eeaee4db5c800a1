import CacheCoherence.Hierarchy.Processor
import CacheCoherence.Proofs.PrivateCache.Events
import CacheCoherence.Proofs.Scene.Accepted
import CacheCoherence.Proofs.Scene.Station

/-!
# Cycle — what a private cache does in one cycle

In a sound scene every event of a private cache is a run of steps. The one exception is
the word that an eviction is accepted, where it reaches a client that does not wait for
it.
-/

namespace CacheCoherence

open Function (update update_self update_of_ne)

namespace Scene

/-- The client `n` is seen as `w`, where `R` is about to leave the other nodes. -/
def setClient (s : Scene) (n : NodeId) (R : Multiset Packet) (w : ClientView) : Scene :=
  { s with
    node := update s.node n { s.node n with state := w.1 }
    outgoing := R + w.2 }

variable {P : Plan} {s : Scene} {n : NodeId} {R : Multiset Packet} {w w' : ClientView}

theorem setClient_self (hv : (s.node n).state = w.1) (ho : s.outgoing = R + w.2) :
    s.setClient n R w = s := by
  simp [setClient, ← hv, ← ho]

/-- A run of accesses is a run of steps. -/
theorem run_accesses (hn : P.role n = some .client)
    (h : Relation.ReflTransGen (ClientView.Access P n) w w') :
    (s.setClient n R w).Run P .client (s.setClient n R w') := by
  induction h with
  | refl => exact .refl
  | tail _ hstep ih =>
    obtain @⟨v, out, X, op, t, hX, ht⟩ := hstep
    have hstate : ((s.setClient n R (v, out)).node n).state = v := by simp [setClient]
    have hstep : Step P .client (s.setClient n R (v, out)) _ :=
      .access hn hX (by rw [hstate]; exact ht)
    refine ih.tail ?_
    have hend : (s.setClient n R (v, out)).moveClient P n X t
        = s.setClient n R (update v X t.next, out + P.clientPosts n X t.actions) := by
      simp [setClient, moveClient, Multiset.add_assoc]
    rwa [← hend]

/-- All that a client posts by itself is its own. -/
theorem senders_accesses (hn : P.role n = some .client)
    (h : Relation.ReflTransGen (ClientView.Access P n) w w')
    (hw : ∀ p ∈ w.2, p.src = n ∧ p.isCredit = false) :
    ∀ p ∈ w'.2, p.src = n ∧ p.isCredit = false := by
  induction h with
  | refl => exact hw
  | tail _ hstep ih =>
    obtain ⟨hX, ht⟩ := hstep
    intro p hp
    rcases Multiset.mem_add.1 hp with hp | hp
    · exact ih p hp
    · exact (Plan.fits_of_onProcessor hn hX ht hp).2

end Scene

namespace PrivateCache

open Scene (Run)

/-- How a private cache is seen in a scene. -/
def station (P : Plan) : Station PrivateCache ClientInput where
  role := .client
  id c := c.id
  outlet c := c.outlet
  inbound c := c.inbound
  packet? e := match e with
    | .packet p => some p
    | .request _ => none
  Shows c v := Follows P c ∧ ∃ place, Rests P none c place ∧ v.state = view place

variable {P : Plan} {c c₁ d : PrivateCache} {s s₁ : Scene} {R T : Multiset Packet} {w : ClientView}

/-- A cache is seen by its lines and its backlog alone. -/
theorem shows_congr {v : NodeView} {k : Nat} (h : (station P).Shows c v)
    (htags : d.tags = c.tags) (hmanagers : d.managers = c.managers) (htable : d.table = c.table)
    (hmshr : d.mshr = c.mshr) (hbacklog : d.backlog = c.backlog) :
    (station P).Shows d { v with credits := k } := by
  obtain ⟨hf, place, hrests, hv⟩ := h
  exact ⟨hf.congr htags hmanagers (congrArg LineTable.layout htable), place,
    hrests.congr htable hmshr hbacklog, hv⟩

/-- What is queued at a cache is not seen. -/
theorem alike_inbound (c : PrivateCache) (queue : List ClientInput) :
    (station P).Alike c { c with inbound := queue } :=
  ⟨rfl, rfl, fun _ h => shows_congr h rfl rfl rfl rfl rfl⟩

/-- The work of a cache that goes on by accesses. -/
theorem moved {T₀ : Multiset Packet} {sent : List Packet}
    (hst : (station P).Stands P s c R T₀) (hf : Follows P c₁) (hid : c₁.id = c.id)
    (hpays : c.outlet.Pays c₁.outlet []) (hrun : s.Run P .client s₁)
    (hs₁ : s₁ = { s.setClient c.id R w with transit := T + (sent : Multiset Packet) })
    (hw : ∀ p ∈ w.2, p.src = c.id ∧ p.isCredit = false) (hreach : Reaches P c₁ w d) :
    ∃ s', (station P).Moved P s c (.done d sent) c₁.inbound R T s' := by
  obtain ⟨hk, place, hd, haccess⟩ := hreach
  have hplays := hst.plays
  have hrole : P.role c.id = some .client := hplays.role
  have hidd : d.id = c.id := hk.id.trans hid
  rw [hid] at haccess
  let s₀ : Scene := { s with transit := T + (sent : Multiset Packet) }
  have hgo : (s₀.setClient c.id R w).Run P .client (s₀.setClient c.id R (view place, d.out)) :=
    Scene.run_accesses hrole haccess
  have hsenders := Scene.senders_accesses hrole haccess hw
  refine ⟨s₀.setClient c.id R (view place, d.out), {
    run := hrun.trans (by rw [hs₁]; exact hgo)
    others := fun e he => ?_
    id := hidd
    inbound := hk.inbound
    stands := { plays := ?_, outgoing := rfl, transit := ?_ } }⟩
  · exact update_of_ne he ..
  · have hview : (s₀.setClient c.id R (view place, d.out)).node d.id
        = { s.node c.id with state := view place } := by
      rw [hidd]
      simp [Scene.setClient, s₀]
    show (station P).Plays P d ((s₀.setClient c.id R (view place, d.out)).node d.id)
    rw [hview]
    have hlink : d.outlet.link = c₁.outlet.link := hk.link
    refine hplays.keep hidd ⟨hf.kept hk, place, hd, rfl⟩ ?_
      ((congrArg CreditLink.maxCredits hlink).trans hpays.maxCredits)
      ((congrArg CreditLink.owner hlink).trans hpays.owner) hsenders
    show (s.node c.id).credits = d.outlet.link.credits
    rw [hlink]
    exact hplays.credits.trans hpays.credits.symm
  · rfl

/-- Work that goes on from the node as it stands, by accesses alone. -/
theorem works_reaches (hid : c₁.id = c.id) (hout : c₁.outlet = c.outlet)
    (hin : c₁.inbound = c.inbound) {w : Work PrivateCache}
    (h : Follows P c → ∀ place, Rests P none c place → Follows P c₁ ∧
      ∃ d, w = .done d ∧ Reaches P c₁ (view place, c.out) d) :
    (station P).Works P c 0 w c.inbound := by
  intro s R T hs hst
  obtain ⟨hf, place, hrests, hview⟩ := hst.plays.shows
  obtain ⟨hf₁, d, rfl, hreach⟩ := h hf place hrests
  have hself : s = { s.setClient c.id R (view place, c.out) with
      transit := T + (([] : List Packet) : Multiset Packet) } := by
    rw [Scene.setClient_self hview hst.outgoing, Multiset.coe_nil, Multiset.add_zero]
    rw [← (show s.transit = T by rw [hst.transit, Multiset.zero_add])]
  have hmoved := moved hst hf₁ hid (hout ▸ Outlet.Pays.refl _) .refl hself
    (fun p hp => hst.plays.senders p hp) hreach
  rw [hin] at hmoved
  exact .inl ⟨rfl, hmoved⟩

/-- Trying woken requests again. -/
theorem drain_works : (station P).Works P c 0 c.drain c.inbound :=
  works_reaches rfl rfl rfl fun hf _ h => ⟨hf, drain_reaches hf h⟩

/-- A request of the processor. -/
theorem request_works (q : Request) :
    (station P).Works P c 0 (.ofExcept (c.countRequest q) ((c.countRequest q).process q true))
      c.inbound := by
  obtain ⟨k, hk⟩ : ∃ k, c.countRequest q = { c with counters := k } := by
    unfold countRequest
    split <;> exact ⟨_, rfl⟩
  rw [hk]
  let c₁ : PrivateCache := { c with counters := k }
  have hid : c₁.id = c.id := rfl
  refine works_reaches hid rfl rfl fun hf place h => ?_
  have hf₁ : Follows P c₁ := hf.congr rfl rfl rfl
  have h₁ : Rests P none c₁ place := h.congr rfl rfl rfl
  obtain ⟨d, hd, hreach⟩ := process_reaches hf₁ h₁ true (.inl rfl) (q := q) fun _ => rfl
  exact ⟨hf₁, d, by rw [hd]; rfl, hreach⟩

/-! ## Packets -/

/-- A credit that comes back. -/
theorem takeCredit_works {p : Packet} (hm : p.payload = .credit) (hd : p.dst = c.id) :
    (station P).Works P c {p} c.takeCredit c.inbound := by
  intro s R T hs hst
  obtain ⟨link, sent, harr, hpays⟩ :=
    Outlet.creditArrived_pays (Station.credits_lt hs hst hm hd)
  change c.outlet.link.creditArrived? = some (link, sent) at harr
  have htake : c.takeCredit = .done { c with
      outlet := { c.outlet with link }
      counters := { c.counters with creditsReceived := c.counters.creditsReceived + 1 } } sent := by
    unfold takeCredit
    dsimp only
    rw [harr]
  rw [htake]
  have hworks : (station P).Works P c {p} (.done { c with
      outlet := { c.outlet with link }
      counters := { c.counters with creditsReceived := c.counters.creditsReceived + 1 } } sent)
      c.inbound := by
    exact Station.Works.refund hm hd hpays rfl fun _ _ h =>
      shows_congr h rfl rfl rfl rfl rfl
  exact hworks s R T hs hst

/-- The cache once it has returned a credit. -/
theorem giveCredit_eq {place : Addr → Place ClientState ClientTransaction} (hf : Follows P c)
    (h : Rests P none c place) (howner : c.outlet.link.owner = c.id) (peer : NodeId) :
    ∃ c₁, c.giveCredit peer = .done c₁ [P.creditTo c.id peer] ∧ Follows P c₁ ∧
      Rests P none c₁ place ∧ c₁.id = c.id ∧ c₁.inbound = c.inbound ∧
      c.outlet.Pays c₁.outlet [] := by
  refine ⟨(c.giveCredit peer).node, ?_, hf.congr rfl rfl rfl,
    h.congr rfl rfl rfl, rfl, rfl, c.outlet.returnCredit_pays peer c.tags.credit⟩
  rw [← P.returnCredit_eq howner peer, ← hf.tags]
  rfl

/-- A coherence message. -/
theorem message_works {p : Packet} {m : CoherenceMessage} (hm : p.payload = .coherence m)
    (hd : p.dst = c.id) : (station P).Works P c {p} (c.dispatch p) c.inbound := by
  intro s R T hs hst
  obtain ⟨hf, place, h, hview⟩ := hst.plays.shows
  have htransit : s.transit = p ::ₘ T := by rw [hst.transit, Multiset.singleton_add]
  have hrole : P.role p.dst = some .client := by rw [hd]; exact hst.plays.role
  have howner : c.outlet.link.owner = c.id := hst.plays.owner
  obtain ⟨hp, -, hfwd, hdem⟩ := Scene.message_fits (hs.fits_taken htransit) hrole hm
  -- `c₁` is the cache once it has returned the credit
  obtain ⟨c₁, hgive, hf₁, h₁, hid, hin, hpays⟩ := giveCredit_eq hf h howner p.src
  have hdispatch : c.dispatch p = (Work.done c₁ [P.creditTo p.dst p.src]).andThen
      fun c => .ofExcept c (c.handle m) := by
    have htag : p.tag = c.tags.coherence := by
      rw [hp, hf.tags]
      rfl
    unfold dispatch
    rw [hm]
    dsimp only
    rw [if_pos htag, hgive, hd]
  rw [hdispatch]
  cases ht : (view place (P.lineOf m.addr)).onMessage m.op m.forwardTo with
  | some t =>
    left
    obtain ⟨d, hhandle, hreach⟩ := handle_reaches hf₁ h₁ rfl (fun _ => hdem) ht
    rw [Work.andThen_ofExcept_ok hhandle]
    refine ⟨rfl, ?_⟩
    -- the message is taken, then the cache goes on by accesses
    have hstep : Scene.Step P .client s _ := .message hrole htransit hm rfl
      (by rw [hd]; exact hview ▸ ht)
    rw [hid] at hreach
    rw [← hin]
    refine moved hst hf₁ hid hpays (.single hstep) ?_ ?_ hreach
    · rw [hd]
      simp only [Scene.moveClient, Scene.consume, Scene.setClient]
      have hview' : (s.node c.id).state = view place := hview
      have hout' : s.outgoing = R + c.out := hst.outgoing
      rw [hview', hout', hd]
      have hsame : c₁.out = c.out := congrArg Multiset.ofList hpays.order
      rw [hsame, Multiset.coe_singleton, Multiset.add_comm T, Multiset.singleton_add,
        Multiset.add_assoc]
    · intro q hq
      rcases Multiset.mem_add.1 hq with hq | hq
      · have hq : q ∈ c₁.outlet.toList := hq
        rw [show c₁.outlet.toList = c.outlet.toList from hpays.order] at hq
        exact hst.plays.senders q hq
      · exact (Plan.fits_of_onMessage (hd ▸ hrole) (P.lineOf_lineOf m.addr) hfwd ht hq).2
  | none =>
    right
    have hX : (s.node p.dst).state (P.lineOf m.addr) = view place (P.lineOf m.addr) := by
      rw [hd]
      exact congrFun hview _
    -- the one message that may be refused lets an exclusive copy go that is not on its way out
    rcases hs.accepts_message htransit hrole hm with ⟨t, ht'⟩ | ⟨hgrant, hnone, hst'⟩
    · rw [hX, ht] at ht'
      cases ht'
    · rw [hX] at hst'
      rcases handle_refused hf₁ h₁.toFiled rfl ht with hrefused | ⟨hI, -⟩
      · refine ⟨_, s, Work.andThen_ofExcept_error hrefused, .refl, p, m,
          view place (P.lineOf m.addr), ?_, hm,
          hgrant, hX, hst', ?_⟩
        · rw [htransit]
          exact Multiset.mem_cons_self p T
        · rw [hd, hid, hgrant, hnone]
      · -- so the line is there, and it is not for want of one that the message is refused
        rcases hst' with hst' | hst' <;> rw [hI] at hst' <;> cases hst'

/-- A packet that may be on its way to a client. -/
theorem dispatch_works {p : Packet} (hd : p.dst = c.id) :
    (station P).Works P c {p} (c.dispatch p) c.inbound := by
  intro s R T hs hst
  have htransit : s.transit = p ::ₘ T := by rw [hst.transit, Multiset.singleton_add]
  have hrole : P.role p.dst = some .client := by rw [hd]; exact hst.plays.role
  cases hm : p.payload with
  | coherence m => exact message_works hm hd s R T hs hst
  | credit =>
    have hdispatch : c.dispatch p = c.takeCredit := by
      have hfit := hs.fits_taken htransit
      have htag : p.tag = c.tags.credit := by
        obtain ⟨hf, -⟩ := hst.plays.shows
        rw [hf.tags]
        cases hfit <;> first | rfl | cases hm
      unfold dispatch
      rw [hm]
      dsimp only
      rw [if_pos htag]
    rw [hdispatch]
    exact takeCredit_works hm hd s R T hs hst
  -- what memory sends, and what is sent to it, is for no client
  | memory q =>
    exfalso
    have hfit := hs.fits_taken htransit
    cases hfit with
    | ask => simp [Wiring.memoryPacket, P.role_store] at hrole
    | supplied => simp [Plan.suppliedPacket, P.role_home] at hrole
    | _ => cases hm

/-! ## A cycle -/

/-- One event and everything that it causes. -/
theorem react_works (e : ClientInput) (hd : ∀ p, (station P).packet? e = some p → p.dst = c.id) :
    (station P).Works P c ((station P).packets [e]) (c.react e) c.inbound := by
  cases e with
  | request q => exact (request_works q).followed fun _ => drain_works
  | packet p => exact (dispatch_works (hd p rfl)).followed fun _ => drain_works

theorem flush_works : (station P).Works P c 0 c.flush c.inbound := by
  have hpays := Outlet.flush_pays c.outlet c.cycle
  exact Station.Works.leave (S := station P) hpays rfl fun _ _ h =>
    shows_congr h rfl rfl rfl rfl rfl

/-- The answers are taken away. -/
theorem collect_works : (station P).Works P c 0 (.done c.collect) c.inbound :=
  Station.Works.leave (S := station P) (Outlet.Pays.refl _) rfl fun _ _ h =>
    shows_congr h rfl rfl rfl rfl rfl

/-- A cycle of a cache. -/
theorem tick_works (hd : ∀ e ∈ c.inbound, ∀ p, (station P).packet? e = some p → p.dst = c.id) :
    (station P).Works P c ((station P).packets c.inbound) c.tick.1 [] := by
  have hshows : ∀ v, (station P).Shows c v → (station P).Shows c.beginCycle v :=
    fun _ h => shows_congr h rfl rfl rfl rfl rfl
  let setQueue (c : PrivateCache) (queue : List ClientInput) := { c with inbound := queue }
  have hset : ∀ c q, (station P).Alike c (setQueue c q) ∧
      (station P).inbound (setQueue c q) = q :=
    fun c q => ⟨alike_inbound c q, rfl⟩
  have hevents : (station P).Works P c.beginCycle ((station P).packets c.inbound)
      (Work.through setQueue react c.beginCycle c.inbound) [] :=
    .through hset (fun c e he => react_works e he) c.inbound c.beginCycle rfl hd
  rw [tick_eq]
  exact ((hevents.followed fun _ => flush_works).followed fun _ => collect_works).congr
    ⟨rfl, rfl, hshows⟩

end PrivateCache

end CacheCoherence
