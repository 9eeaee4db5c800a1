import CacheCoherence.Proofs.Scene.Accepted
import CacheCoherence.Proofs.Scene.Station
import CacheCoherence.Proofs.SharedBank.Replies

/-!
# Cycle — what a shared bank does in one cycle

In a sound scene every packet for a bank is taken, and all that the bank does with it is a
run of steps. The tables of the lines have an entry for everything that comes up, since
whatever is held back or on its way agrees with them.
-/

namespace CacheCoherence

open Function (update update_self update_of_ne)
open Relation (ReflTransGen)

namespace BankView

variable {P : Plan} {b : NodeId} {R : Multiset Packet} {w w' : BankView}

/-- Other nodes are about to send `R`. -/
def beside (w : BankView) (R : Multiset Packet) : BankView := w.withOut (R + w.out)

theorem beside_put (X : Addr) (l : Option BankLine) (posts : Multiset Packet) :
    (w.put X l posts).beside R = (w.beside R).put X l posts := by
  simp [beside, withOut, put, Multiset.add_assoc]

/-- What other nodes send does not matter to a bank. -/
theorem Step.beside (h : Step P b w w') (R : Multiset Packet) :
    Step P b (w.beside R) (w'.beside R) := by
  cases h with
  | @serve w m _ _ _ _ hm hX hl ht =>
    rw [beside_put]
    exact Step.serve (w := w.beside R) (m := m) hm hX hl ht
  | @drop _ m _ hm hl hop => exact Step.drop (w := w'.beside R) (m := m) hm hl hop
  | @enrol w m _ hm hl hop =>
    rw [beside_put]
    exact Step.enrol (w := w.beside R) (m := m) hm hl hop
  | ask hX hl =>
    rw [beside_put]
    exact .ask hX hl
  | evict hX hl ht =>
    rw [beside_put]
    exact .evict hX hl ht
  | forget hX hl hI =>
    rw [beside_put]
    exact .forget hX hl hI

/-- All that a bank posts by itself is its own. -/
theorem senders_steps (h : ReflTransGen (Step P b) w w') (ho : w.Orderly P b)
    (hw : ∀ p ∈ w.out, p.src = b ∧ p.isCredit = false) :
    w'.Orderly P b ∧ ∀ p ∈ w'.out, p.src = b ∧ p.isCredit = false := by
  induction h with
  | refl => exact ⟨ho, hw⟩
  | tail _ hstep ih =>
    refine ⟨hstep.orderly ih.1, fun p hp => ?_⟩
    rcases hstep.fits ih.1 hp with hp | ⟨-, hp⟩
    · exact ih.2 p hp
    · exact hp

end BankView

namespace Scene

variable {P : Plan} {s : Scene} {b : NodeId} {R : Multiset Packet} {w w' : BankView}

theorem setBank_self (hl : (s.node b).line = w.line) (hh : (s.node b).held = w.held)
    (ho : s.outgoing = R + w.out) : s.setBank b (w.beside R) = s := by
  simp [setBank, BankView.beside, BankView.withOut, ← hl, ← hh, ← ho]

/-- A run of steps of a bank is a run of steps of the scene. -/
theorem run_steps (hb : P.role b = some .bank) (h : ReflTransGen (BankView.Step P b) w w') :
    (s.setBank b (w.beside R)).Run P .bank (s.setBank b (w'.beside R)) := by
  induction h with
  | refl => exact .refl
  | @tail v v' _ hstep ih =>
    have hwork : Step P .bank (s.setBank b (v.beside R)) _ :=
      .work hb (by rw [bank_setBank]; exact hstep.beside R)
    refine ih.tail ?_
    have hend : (s.setBank b (v.beside R)).setBank b (v'.beside R) = s.setBank b (v'.beside R) := by
      simp [setBank]
    rwa [← hend]

end Scene

namespace SharedBank

/-- How a shared bank is seen in a scene. -/
def station (P : Plan) : Station SharedBank Packet where
  role := .bank
  id c := c.id
  outlet c := c.outlet
  inbound c := c.inbound
  packet? p := some p
  Shows c v := Follows P c ∧ ∃ place, Rests P none c place ∧ v.line = records place ∧
    v.held = c.backlog.items

variable {P : Plan} {c c₁ d : SharedBank} {s s₁ : Scene} {R T : Multiset Packet} {w : BankView}

/-- A bank is seen by its lines and its backlog alone. -/
theorem shows_congr {v : NodeView} {k : Nat} (h : (station P).Shows c v)
    (htags : d.tags = c.tags) (hmemories : d.memories = c.memories) (htable : d.table = c.table)
    (hmshr : d.mshr = c.mshr) (hbacklog : d.backlog = c.backlog) :
    (station P).Shows d { v with credits := k } := by
  obtain ⟨hf, place, hrests, hline, hheld⟩ := h
  exact ⟨hf.congr htags hmemories (congrArg LineTable.layout htable), place,
    hrests.congr htable hmshr hbacklog, hline, hbacklog ▸ hheld⟩

/-- What is queued at a bank is not seen. -/
theorem alike_inbound (c : SharedBank) (queue : List Packet) :
    (station P).Alike c { c with inbound := queue } :=
  ⟨rfl, rfl, fun _ h => shows_congr h rfl rfl rfl rfl rfl⟩

theorem alike_receive (c : SharedBank) (p : Packet) : (station P).Alike c (c.receive p) :=
  alike_inbound c (c.inbound ++ [p])

/-- The work of a bank that goes on by steps of its own. -/
theorem moved {T₀ : Multiset Packet} {sent : List Packet} (hs : s.Sound P)
    (hst : (station P).Stands P s c R T₀) (hf : Follows P c₁) (hid : c₁.id = c.id)
    (hpays : c.outlet.Pays c₁.outlet []) (hrun : s.Run P .bank s₁)
    (hs₁ : s₁ = { s.setBank c.id (w.beside R) with transit := T + (sent : Multiset Packet) })
    (hw : ∀ p ∈ w.out, p.src = c.id ∧ p.isCredit = false) {result : Except Fault SharedBank}
    (hends : Ends P c₁ w result) :
    ∃ d, result = .ok d ∧ ∃ s', (station P).Moved P s c (.done d sent) c₁.inbound R T s' := by
  have hplays := hst.plays
  have hrole : P.role c.id = some .bank := hplays.role
  let s₀ : Scene := { s with transit := T + (sent : Multiset Packet) }
  have hstart : s.Run P .bank (s₀.setBank c.id (w.beside R)) := by
    rw [← show s₁ = s₀.setBank c.id (w.beside R) from hs₁]
    exact hrun
  have hgo : ∀ w', ReflTransGen (BankView.Step P c₁.id) w w' →
      s.Run P .bank (s₀.setBank c.id (w'.beside R)) := fun w' hsteps => by
    rw [hid] at hsteps
    exact hstart.trans (Scene.run_steps hrole hsteps)
  rcases hends with ⟨d, rfl, hk, place, hd, hsteps⟩ | ⟨f, w', -, -, hsteps, hstuck⟩
  · refine ⟨d, rfl, s₀.setBank c.id ((d.view place).beside R), ?_⟩
    have hidd : d.id = c.id := hk.id.trans hid
    have horderly : w.Orderly P c.id := by
      have := (hstart.sound hs).orderly c.id
      rw [Scene.bank_setBank] at this
      exact this.withOut w.out
    have hsenders := (BankView.senders_steps (hid ▸ hsteps) horderly hw).2
    refine {
      run := hgo _ hsteps
      others := fun e he => update_of_ne he ..
      id := hidd
      inbound := hk.inbound
      stands := { plays := ?_, outgoing := rfl, transit := rfl } }
    have hview : (s₀.setBank c.id ((d.view place).beside R)).node d.id
        = { s.node c.id with line := records place, held := d.backlog.items } := by
      rw [hidd]
      simp [Scene.setBank, s₀, BankView.beside, BankView.withOut, view]
    show (station P).Plays P d ((s₀.setBank c.id ((d.view place).beside R)).node d.id)
    rw [hview]
    have hlink : d.outlet.link = c₁.outlet.link := hk.link
    refine hplays.keep hidd ⟨hf.kept hk, place, hd, rfl, rfl⟩ ?_
      ((congrArg CreditLink.maxCredits hlink).trans hpays.maxCredits)
      ((congrArg CreditLink.owner hlink).trans hpays.owner) hsenders
    show (s.node c.id).credits = d.outlet.link.credits
    rw [hlink]
    exact hplays.credits.trans hpays.credits.symm
  · -- a sound scene has no stuck bank, so the work has not ended in a fault
    have hsound := (hgo w' hsteps).sound hs
    have hnot := hsound.not_stuck c.id
    rw [Scene.bank_setBank] at hnot
    exact absurd hstuck hnot

/-- Work that goes on from the node as it stands, by steps of its own. -/
theorem works_ends (hid : c₁.id = c.id) (hout : c₁.outlet = c.outlet)
    (hin : c₁.inbound = c.inbound) {w : Work SharedBank}
    (h : Follows P c → ∀ place, Rests P none c place → Follows P c₁ ∧
      ∃ result, Ends P c₁ (c.view place) result ∧ ∀ d, result = .ok d → w = .done d) :
    (station P).Works P c 0 w c.inbound := by
  intro s R T hs hst
  obtain ⟨hf, place, hrests, hline, hheld⟩ := hst.plays.shows
  obtain ⟨hf₁, result, hends, hok⟩ := h hf place hrests
  have hself : s = { s.setBank c.id ((c.view place).beside R) with
      transit := T + (([] : List Packet) : Multiset Packet) } := by
    rw [Scene.setBank_self hline hheld hst.outgoing, Multiset.coe_nil, Multiset.add_zero]
    rw [← (show s.transit = T by rw [hst.transit, Multiset.zero_add])]
  obtain ⟨d, hd, hmoved⟩ := moved hs hst hf₁ hid (hout ▸ Outlet.Pays.refl _) .refl hself
    (fun p hp => hst.plays.senders p hp) hends
  rw [hok d hd, ← hin]
  exact .inl ⟨rfl, hmoved⟩

/-- Trying woken requests again. -/
theorem drain_works : (station P).Works P c 0 c.drain c.inbound := by
  refine works_ends rfl rfl rfl fun hf place h => ⟨hf, ?_⟩
  rcases drain_ends hf h with ⟨d, hd, hreach⟩ | ⟨⟨f, -, hways⟩, w', hsteps, hstuck⟩
  · refine ⟨.ok d, hreach.ends, ?_⟩
    rintro _ ⟨⟩
    exact hd
  · exact ⟨.error f, .inr ⟨f, w', rfl, hways, hsteps, hstuck⟩, nofun⟩

/-! ## Packets -/

/-- A credit that comes back. -/
theorem takeCredit_works {p : Packet} (hm : p.payload = .credit) (hd : p.dst = c.id) :
    (station P).Works P c {p} c.takeCredit c.inbound := by
  intro s R T hs hst
  obtain ⟨link, sent, harr, hpays⟩ :=
    Outlet.creditArrived_pays (Station.credits_lt hs hst hm hd)
  change c.outlet.link.creditArrived? = some (link, sent) at harr
  have htake : c.takeCredit = .done { c with
      outlet := { c.outlet with link }
      counters := { c.counters with creditsReceived := c.counters.creditsReceived + 1 } } sent := by
    unfold takeCredit
    dsimp only
    rw [harr]
  rw [htake]
  have hworks : (station P).Works P c {p} (.done { c with
      outlet := { c.outlet with link }
      counters := { c.counters with creditsReceived := c.counters.creditsReceived + 1 } } sent)
      c.inbound := by
    exact Station.Works.refund hm hd hpays rfl fun _ _ h =>
      shows_congr h rfl rfl rfl rfl rfl
  exact hworks s R T hs hst

/-- The bank once it has returned a credit. -/
theorem giveCredit_eq {place : Addr → Place ManagerLine ManagerTransaction} (hf : Follows P c)
    (h : Rests P none c place) (howner : c.outlet.link.owner = c.id) (peer : NodeId) :
    ∃ c₁, c.giveCredit peer = .done c₁ [P.creditTo c.id peer] ∧ Follows P c₁ ∧
      Rests P none c₁ place ∧ c₁.id = c.id ∧ c₁.inbound = c.inbound ∧ c.outlet.Pays c₁.outlet [] ∧
      c₁.view place = c.view place := by
  refine ⟨(c.giveCredit peer).node, ?_, hf.congr rfl rfl rfl,
    h.congr rfl rfl rfl, rfl, rfl, c.outlet.returnCredit_pays peer c.tags.credit, rfl⟩
  rw [← P.returnCredit_eq howner peer, ← hf.tags]
  rfl

/-- A packet that is no credit: a credit is returned for it, and the bank goes on with `next`
from a view `w` that one step of the scene leads to. -/
theorem consumed_works {p : Packet} (next : SharedBank → Except Fault SharedBank)
    (hd : p.dst = c.id)
    (hdispatch : Follows P c → P.Fits p →
      c.dispatch p = (c.giveCredit p.src).andThen fun c => .ofExcept c (next c))
    (hnext : ∀ {s : Scene} {R T : Multiset Packet} {c₁ : SharedBank}
      {place : Addr → Place ManagerLine ManagerTransaction}, s.Sound P → s.transit = p ::ₘ T →
      P.role p.dst = some .bank → s.bank p.dst = (c₁.view place).beside R → Follows P c₁ →
      Rests P none c₁ place → c₁.id = p.dst →
      ∃ w : BankView, Scene.Step P .bank s ((s.consume P p T).setBank p.dst (w.beside R)) ∧
        Ends P c₁ w (next c₁) ∧
        ∀ q ∈ w.out, q ∈ (c₁.view place).out ∨ q.src = p.dst ∧ q.isCredit = false) :
    (station P).Works P c {p} (c.dispatch p) c.inbound := by
  intro s R T hs hst
  obtain ⟨hf, place, h, hline, hheld⟩ := hst.plays.shows
  have htransit : s.transit = p ::ₘ T := by rw [hst.transit, Multiset.singleton_add]
  have hrole : P.role p.dst = some .bank := by rw [hd]; exact hst.plays.role
  obtain ⟨c₁, hgive, hf₁, h₁, hid, hin, hpays, hview⟩ := giveCredit_eq hf h hst.plays.owner p.src
  have hbank : s.bank p.dst = (c₁.view place).beside R := by
    rw [hview, hd, Scene.bank, show s.outgoing = R + (c.view place).out from hst.outgoing]
    exact congrArg₂ (fun l m => BankView.mk l m _) hline hheld
  obtain ⟨w, hstep, hends, hsenders⟩ := hnext hs htransit hrole hbank hf₁ h₁ (hid.trans hd.symm)
  have hafter : (s.consume P p T).setBank p.dst (w.beside R)
      = { s.setBank c.id (w.beside R) with
          transit := T + (([P.creditTo p.dst p.src] : List Packet) : Multiset Packet) } := by
    rw [Multiset.coe_singleton, Multiset.add_comm T, Multiset.singleton_add, hd]
    simp [Scene.consume, Scene.setBank, hd]
  have hown : ∀ q ∈ w.out, q.src = c.id ∧ q.isCredit = false := fun q hq => by
    rcases hsenders q hq with hq | hq
    · rw [hview] at hq
      exact hst.plays.senders q hq
    · rwa [hd] at hq
  obtain ⟨d, hok, hmoved⟩ := moved hs hst hf₁ hid hpays (.single hstep) hafter hown hends
  rw [hdispatch hf (hs.fits_taken htransit), hgive, ← hd, Work.andThen_ofExcept_ok hok, ← hin]
  exact .inl ⟨rfl, hmoved⟩

/-- What a transition of a line sends is the bank's own. -/
theorem senders_managerPosts {b : NodeId} {X : Addr} {t : ManagerTransition} {p : Packet}
    (hp : p ∈ P.managerPosts b X t.actions) : p.src = b ∧ p.isCredit = false := by
  obtain ⟨n, -, rfl⟩ := Plan.mem_managerPosts hp
  exact ⟨rfl, rfl⟩

/-- A coherence message is a request that is held back until it is settled, or a reply that the
table of its line has an entry for. -/
theorem message_works {p : Packet} {m : CoherenceMessage} (hm : p.payload = .coherence m)
    (hd : p.dst = c.id) : (station P).Works P c {p} (c.dispatch p) c.inbound := by
  refine consumed_works (·.handle m) hd (fun hf hfit => ?_) ?_
  · have htag : p.tag = c.tags.coherence := by
      rw [hf.tags]
      cases hfit with
      | request | answer | order => rfl
      | _ => cases hm
    unfold dispatch
    rw [hm]
    dsimp only
    rw [if_pos htag]
  · intro s R T c₁ place hs htransit hrole hbank hf₁ h₁ hid
    obtain ⟨hp, hsrc, hfwd, hhome, ⟨hk, -⟩ | ⟨hk, hop⟩⟩ :=
      Scene.request_fits (hs.fits_taken htransit) hrole hm
    · -- a request: it is held back, and what the bank does with it are steps of its own
      refine ⟨(c₁.view place).hold m, ?_, ?_, fun q hq => .inl hq⟩
      · have hstep : Scene.Step P .bank s _ := .arrive hrole htransit hm hk
        rwa [hbank] at hstep
      · rw [handle, hk]
        exact process_ends hf₁ h₁ _ (.inl rfl) fun _ => rfl
    · -- a reply: the table of its line has an entry for it, since the scene is sound
      obtain ⟨l, d, t, hl, ht⟩ := hs.accepts_reply htransit hrole hm hop
      have hstep : Scene.Step P .bank s _ := .reply hrole htransit hm rfl hl ht
      rw [hbank, ← BankView.beside_put] at hstep
      refine ⟨_, hstep, ?_, fun q hq => ?_⟩
      · rw [hbank] at hl
        obtain ⟨d', hd', hreach⟩ := handleReply_reaches hf₁ h₁ rfl hl ht
        rw [handle, hk, ← hid]
        exact .inl ⟨d', hd', hreach⟩
      · exact (Multiset.mem_add.1 hq).imp_right senders_managerPosts

/-- Memory's reply settles the request that memory was asked for. -/
theorem supplied_works {p : Packet} {m : MemoryMessage} (hm : p.payload = .memory m)
    (hd : p.dst = c.id) : (station P).Works P c {p} (c.dispatch p) c.inbound := by
  intro s₀ R₀ T₀ hs₀ hst₀
  -- what is on its way from memory to a bank is a reply
  have hreply : m.op = .reply := by
    have hrole : P.role p.dst = some .bank := by rw [hd]; exact hst₀.plays.role
    have hmem : s₀.transit = p ::ₘ T₀ := by rw [hst₀.transit, Multiset.singleton_add]
    exact (Scene.supplied_fits (hs₀.fits_taken hmem) hrole hm).2.2
  refine consumed_works (·.handleMemory m) hd (fun hf hfit => ?_) ?_ s₀ R₀ T₀ hs₀ hst₀
  · have htag : p.tag = c.tags.memory := by
      rw [hf.tags]
      cases hfit with
      | ask | supplied => rfl
      | _ => cases hm
    unfold dispatch
    rw [hm]
    dsimp only
    rw [if_pos ⟨htag, hreply⟩]
  · intro s R T c₁ place hs htransit hrole hbank hf₁ h₁ hid
    obtain ⟨-, hX, -⟩ := Scene.supplied_fits (hs.fits_taken htransit) hrole hm
    obtain ⟨l, d, q, t, hl, ht⟩ := hs.accepts_supplied htransit hrole hm
    have hstep : Scene.Step P .bank s _ := .fetched hrole htransit hm hX hl ht
    rw [hbank, ← BankView.beside_put] at hstep
    refine ⟨_, hstep, ?_, fun q hq => (Multiset.mem_add.1 hq).imp_right senders_managerPosts⟩
    rw [hbank] at hl
    obtain ⟨d', hd', hreach⟩ := handleMemory_reaches hf₁ h₁ hX hl ht
    rw [← hid]
    exact .inl ⟨d', hd', hreach⟩

/-- A packet that may be on its way to a bank. -/
theorem dispatch_works {p : Packet} (hd : p.dst = c.id) :
    (station P).Works P c {p} (c.dispatch p) c.inbound := by
  intro s R T hs hst
  have htransit : s.transit = p ::ₘ T := by rw [hst.transit, Multiset.singleton_add]
  cases hm : p.payload with
  | coherence m => exact message_works hm hd s R T hs hst
  | memory m => exact supplied_works hm hd s R T hs hst
  | credit =>
    have hdispatch : c.dispatch p = c.takeCredit := by
      have hfit := hs.fits_taken htransit
      have htag : p.tag = c.tags.credit := by
        obtain ⟨hf, -⟩ := hst.plays.shows
        rw [hf.tags]
        cases hfit <;> first | rfl | cases hm
      unfold dispatch
      rw [hm]
      dsimp only
      rw [if_pos htag]
    rw [hdispatch]
    exact takeCredit_works hm hd s R T hs hst

/-! ## A cycle -/

/-- One packet and everything that it causes. -/
theorem react_works (p : Packet) (hd : p.dst = c.id) :
    (station P).Works P c {p} (c.react p) c.inbound :=
  (dispatch_works hd).followed fun _ => drain_works

theorem flush_works : (station P).Works P c 0 c.flush c.inbound := by
  have hpays := Outlet.flush_pays c.outlet c.cycle
  exact Station.Works.leave (S := station P) hpays rfl fun _ _ h =>
    shows_congr h rfl rfl rfl rfl rfl

/-- A cycle of a bank. -/
theorem tick_works (hd : ∀ e ∈ c.inbound, ∀ p, (station P).packet? e = some p → p.dst = c.id) :
    (station P).Works P c ((station P).packets c.inbound) c.tick [] := by
  have hshows : ∀ v, (station P).Shows c v → (station P).Shows c.beginCycle v :=
    fun _ h => shows_congr h rfl rfl rfl rfl rfl
  let setQueue (c : SharedBank) (queue : List Packet) := { c with inbound := queue }
  have hset : ∀ c q, (station P).Alike c (setQueue c q) ∧
      (station P).inbound (setQueue c q) = q :=
    fun c q => ⟨alike_inbound c q, rfl⟩
  have hevents : (station P).Works P c.beginCycle ((station P).packets c.inbound)
      (Work.through setQueue react c.beginCycle c.inbound) [] :=
    .through hset (fun c p he => react_works p (he p rfl)) c.inbound c.beginCycle rfl hd
  exact (hevents.followed fun _ => flush_works).congr ⟨rfl, rfl, hshows⟩

/-! ## What is left to be tried -/

theorem retries_drain (h : c.drain.fault = none) : c.drain.node.backlog.retries = [] := by
  induction c using drain.induct with
  | case1 c hq =>
    rw [drain_nil hq]
    exact hq
  | case2 c x rest hq fault hp =>
    rw [drain_cons hq, hp] at h
    cases h
  | case3 c x rest hq d hp hdec ih =>
    have hdrain : c.drain = d.drain := by
      rw [drain_cons hq, hp]
      exact Work.andThen_done ..
    rw [hdrain] at h ⊢
    exact ih h

/-- After a cycle that ends without a fault no request waits only to be tried again. -/
theorem retries_tick (hr : c.backlog.retries = []) (h : c.tick.fault = none) :
    c.tick.node.backlog.retries = [] := by
  obtain ⟨hthrough, -⟩ := Work.andThen_fault_eq_none.1 h
  rw [tick, Work.andThen_node hthrough]
  refine Work.through_induction (Q := fun _ d => d.backlog.retries = []) (fun d p rest _ hp => ?_)
    (show c.beginCycle.backlog.retries = [] from hr) hthrough
  obtain ⟨hdispatch, hdrain⟩ := Work.andThen_fault_eq_none.1 hp
  rw [react, Work.andThen_node hdispatch]
  exact retries_drain hdrain

end SharedBank

end CacheCoherence
