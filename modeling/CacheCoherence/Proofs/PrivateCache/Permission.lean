import CacheCoherence.Proofs.PrivateCache.Cycle
import CacheCoherence.Proofs.PrivateCache.Turns
import CacheCoherence.Proofs.PrivateCache.Wants

/-!
# Permission — a request is answered from a line that permits it

A store is never given a shared copy: none is promised to a cache whose transaction on the line is
for a store. This holds of a cache whatever its turns are, and no turn of a cache promises a shared
copy to another one. So where a turn queues a response, the line permits the access.
-/

namespace CacheCoherence.PrivateCache

variable {P : Plan} {s s' : Scene} {c d : PrivateCache} {es es' : List ClientInput}
  {R T taken : Multiset Packet} {w w' : Work PrivateCache} {queue : List ClientInput}
  {place : Addr → Place ClientState ClientTransaction} {p : Packet} {X : Addr} {n : NodeId}
  {q : Request}

/-- Every transaction of the cache is for a request that is about its line, and where the request
is a store the cache is to get no shared copy. -/
def Assured (P : Plan) (s : Scene) (c : PrivateCache) : Prop :=
  ∀ X q, c.Wants X q → P.lineOf q.addr = X ∧ (q.access = .write → ¬ s.SharesWith P X c.id)

/-- A cache is assured by its transactions alone, and as long as nothing is promised to it. -/
theorem Assured.mono (h : Assured P s c) (hid : d.id = c.id) (hmshr : d.mshr = c.mshr)
    (hshare : ∀ X, s'.SharesWith P X c.id → s.SharesWith P X c.id) : Assured P s' d := by
  rintro X q ⟨r, v, hc, hq⟩
  rw [hmshr] at hc
  obtain ⟨hline, hno⟩ := h X q ⟨r, v, hc, hq⟩
  refine ⟨hline, fun ha hs => hno ha (hshare X ?_)⟩
  rwa [hid] at hs

/-- The cache stands assured in a sound scene, and has the events `es` to handle. -/
structure Attended (P : Plan) (s : Scene) (c : PrivateCache) (es : List ClientInput)
    (R T : Multiset Packet) : Prop where
  sound : s.Sound P
  stands : (station P).Stands P s c R ((station P).packets es + T)
  addressed : ∀ e ∈ es, ∀ p, (station P).packet? e = some p → p.dst = c.id
  assured : Assured P s c

/-- The work `w` of the cache has led from `s` to `s'`, and the events `es` are left to handle. No
other client is promised a shared copy that was promised none before. -/
structure Fares (P : Plan) (s : Scene) (c : PrivateCache) (w : Work PrivateCache)
    (es : List ClientInput) (R T : Multiset Packet) (s' : Scene) : Prop where
  run : s.Run P .client s'
  others : ∀ n, n ≠ c.id → s'.node n = s.node n
  id : w.node.id = c.id
  spares : ∀ X n, n ≠ c.id → s'.SharesWith P X n → s.SharesWith P X n
  attended : Attended P s' w.node es R (T + (w.sent : Multiset Packet))

/-- What the cache sends was about to leave it, or asks nobody for a shared copy. -/
def SendsPlainly (P : Plan) (c : PrivateCache) (sent : List Packet) : Prop :=
  ∀ p ∈ sent, p ∈ c.out ∨ ∀ X n, ¬ P.SharesWith X n p

/-! ## One piece of work -/

/-- Whoever is to get a shared copy once a cache has done its work was to get one before, or it is
the cache, for a load. -/
theorem sharesWith_of_moved (hst : (station P).Stands P s c R (taken + T))
    (hm : (station P).Moved P s c w queue R T s') (hminds : Minds P taken c w.node)
    (hsent : SendsPlainly P c w.sent) (h : s'.SharesWith P X n) :
    s.SharesWith P X n ∨ n = c.id ∧ ∃ q, w.node.Wants X q ∧ q.access = .read := by
  by_cases hown : n = c.id ∧ ∃ q, w.node.Wants X q ∧ q.access = .read
  · exact .inr hown
  have hout : ∀ p ∈ c.out, P.SharesWith X n p → s.SharesWith P X n := fun p hp hshare =>
    .of_outgoing (by rw [hst.outgoing]; exact Multiset.mem_add.2 (.inr hp)) hshare
  -- the bank of the line has not been at work
  have hhome : P.home X ≠ c.id := by
    intro heq
    have hrole : P.role c.id = some .client := hst.plays.role
    rw [← heq, P.role_home] at hrole
    cases hrole
  have hbank : s'.bank (P.home X) = (s.bank (P.home X)).withOut s'.outgoing := by
    simp only [Scene.bank, hm.others _ hhome, BankView.withOut]
  refine .inl (h.of_withOut hbank fun p hp hshare => ?_)
  rw [hm.stands.outgoing, hm.stands.transit, Multiset.mem_add, Multiset.mem_add, Multiset.mem_add]
    at hp
  rcases hp with (hp | hp) | hp | hp
  · exact .of_outgoing (by rw [hst.outgoing]; exact Multiset.mem_add.2 (.inl hp)) hshare
  · rcases hminds.posts p hp with hp | hnew
    · exact hout p hp hshare
    · rcases hnew X n hshare with ⟨p', hp', hshare'⟩ | hload
      · exact .of_transit (by rw [hst.transit]; exact Multiset.mem_add.2 (.inl hp')) hshare'
      · exact absurd hload hown
  · exact .of_transit (by rw [hst.transit]; exact Multiset.mem_add.2 (.inr hp)) hshare
  · rcases hsent p hp with hp | hno
    · exact hout p hp hshare
    · exact absurd hshare (hno X n)

/-- A cache whose work is done in the scene, and minds what it asks for, stays assured. -/
theorem Attended.fares (ha : Attended P s c es R T)
    (hworks : (station P).Works P c taken w queue) (hf : w.fault = none)
    (hes : (station P).packets es = taken + (station P).packets es') (hsub : es' ⊆ es)
    (hminds : Minds P taken c w.node) (hsent : SendsPlainly P c w.sent) :
    ∃ s', Fares P s c w es' R T s' := by
  have hst := ha.stands
  rw [hes, Multiset.add_assoc] at hst
  rcases hworks s R _ ha.sound hst with ⟨-, s', hm⟩ | ⟨f, -, hf', -⟩
  · have hshares := fun {X n} => sharesWith_of_moved (X := X) (n := n) hst hm hminds hsent
    obtain ⟨hfol, place, hrests, hview⟩ := hst.plays.shows
    obtain ⟨-, place', hrests', -⟩ := hm.stands.plays.shows
    have hid : w.node.id = c.id := hm.id
    have hassured : Assured P s' w.node := by
      intro X q hq
      rw [hid]
      rcases hminds.wants X q hq with hold | ⟨hline, hnone⟩
      · obtain ⟨hline, hno⟩ := ha.assured X q hold
        refine ⟨hline, fun hwrite hs' => ?_⟩
        rcases hshares hs' with hs | ⟨-, q', hq', hread⟩
        · exact hno hwrite hs
        · -- there is one transaction on the line, and it is for a store
          rw [hrests'.wants_unique hq' hq, hwrite] at hread
          cases hread
      · refine ⟨hline, fun hwrite hs' => ?_⟩
        rcases hshares hs' with hs | ⟨-, q', hq', hread⟩
        · -- a line without a transaction was promised nothing
          refine ha.sound.not_sharesWith ?_ hs
          have hv : (s.node c.id).state = view place := hview
          rw [hv]
          exact hrests.not_awaits hnone
        · rw [hrests'.wants_unique hq' hq, hwrite] at hread
          cases hread
    refine ⟨s', {
      run := hm.run
      others := hm.others
      id := hid
      spares := fun X n hn hs' => (hshares hs').resolve_right fun hown => hn hown.1
      attended := {
        sound := hm.run.sound ha.sound
        stands := by
          rw [← Multiset.add_assoc]
          exact hm.stands
        addressed := fun e he => by
          rw [hid]
          exact ha.addressed e (hsub he)
        assured := hassured } }⟩
  · rw [hf] at hf'
    cases hf'

/-! ## Packets -/

theorem sendsPlainly_nil : SendsPlainly P c [] := nofun

/-- Work that sends what was about to leave, and posts nothing. -/
theorem minds_of_leave (hmshr : d.mshr = c.mshr) {sent : List Packet}
    (horder : sent ++ d.outlet.toList = c.outlet.toList) :
    Minds P taken c d ∧ SendsPlainly P c sent := by
  have hout : ∀ p ∈ sent ++ d.outlet.toList, p ∈ c.out := fun p hp => by
    rw [horder] at hp
    exact hp
  refine ⟨⟨fun X q hq => .inl ?_, fun p hp => .inl (hout p (List.mem_append_right _ hp))⟩,
    fun p hp => .inl (hout p (List.mem_append_left _ hp))⟩
  rwa [Wants, hmshr] at hq

/-- What a packet makes of the responses: none is queued, or that of the request whose line has
come. -/
def Replies (P : Plan) (c d : PrivateCache) (p : Packet) : Prop :=
  d.responses = c.responses ∨
    ∃ m, p.payload = .coherence m ∧ Answers c d (P.lineOf m.addr) m.op

/-- What a packet makes a cache do. -/
theorem dispatch_minds (hf : Follows P c) (h : Rests P none c place)
    (hfault : (c.dispatch p).fault = none) :
    Minds P {p} c (c.dispatch p).node ∧ SendsPlainly P c (c.dispatch p).sent ∧
      Replies P c (c.dispatch p).node p := by
  unfold dispatch at hfault ⊢
  cases hm : p.payload with
  | memory m =>
    rw [hm] at hfault
    cases hfault
  | credit =>
    rw [hm] at hfault
    dsimp only at hfault ⊢
    split at hfault
    · next htag =>
      rw [if_pos htag]
      unfold takeCredit at hfault ⊢
      dsimp only at hfault ⊢
      split
      · next link sent harr =>
        have horder := Outlet.order_of_creditArrived harr
        obtain ⟨hminds, hsent⟩ := minds_of_leave (c := c) (d := { c with
          outlet := { c.outlet with link }
          counters := { c.counters with creditsReceived := c.counters.creditsReceived + 1 } })
          rfl horder
        exact ⟨hminds, hsent, .inl rfl⟩
      · next harr =>
        rw [harr] at hfault
        cases hfault
    · cases hfault
  | coherence m =>
    rw [hm] at hfault
    dsimp only at hfault ⊢
    split at hfault
    · next htag =>
      rw [if_pos htag]
      let c₁ : PrivateCache := (c.giveCredit p.src).node
      have hf₁ : Follows P c₁ := hf.congr rfl rfl rfl
      have h₁ : Rests P none c₁ place := h.congr rfl rfl rfl
      have hgive : c.giveCredit p.src = .done c₁ (c.giveCredit p.src).sent := rfl
      rw [hgive] at hfault ⊢
      cases hd : c₁.handle m with
      | error f =>
        rw [Work.andThen_ofExcept_error hd] at hfault
        cases hfault
      | ok d =>
        obtain ⟨hminds, hanswers⟩ := handle_minds hf₁ h₁ hm hd
        rw [Work.andThen_ofExcept_ok hd]
        refine ⟨⟨hminds.wants, hminds.posts⟩, fun p' hp' => .inr fun X n hshare => ?_,
          .inr ⟨m, hm, hanswers⟩⟩
        -- all that is sent is the credit
        obtain rfl := List.mem_singleton.1 hp'
        exact Plan.not_sharesWith_of_note? rfl hshare
    · cases hfault

/-! ## Turns -/

/-- On the way from `c` to `d` no response is queued, or that of one request; the cache has the line
of the request at that moment, and may use it for the access. -/
def Grants (c d : PrivateCache) : Prop :=
  d.responses = c.responses ∨ ∃ q m, Queues c m d q ∧
    ∃ way e, m.table.resident? q.addr = some (way, e) ∧ e.Permits q.access

/-- A line is looked up by any address in it. -/
theorem grants_of_permits (hf : Follows P d) (h : Rests P none d place)
    (hqueues : ∃ m, Queues c m d q) (hpermits : d.Permits (P.lineOf q.addr) q.access) :
    Grants c d := by
  obtain ⟨m, hm⟩ := hqueues
  obtain ⟨i, e, hc, he⟩ := hpermits
  obtain ⟨tx, hp⟩ := h.filed_of_content hc
  refine .inr ⟨q, m, hm, d.table.slots.handleAt i, e, ?_, he⟩
  rw [← hm.table, h.resident?_eq, hf.lineOf, hp]
  rfl

/-- A request is tried again. -/
theorem retry_works {x : Parked Request} {rest : List (Parked Request)}
    (hq : c.backlog.retries = x :: rest) (hd : (c.retrying rest).process x.item false = .ok d) :
    (station P).Works P c 0 (.done d) c.inbound := by
  have hid : (c.retrying rest).id = c.id := rfl
  refine works_reaches hid rfl rfl fun hf place h => ?_
  have hf₁ : Follows P (c.retrying rest) := hf.congr rfl rfl rfl
  obtain ⟨d', hd', hreach⟩ :=
    process_reaches hf₁ (rests_retrying h hq) false (.inr rfl) nofun
  rw [hd] at hd'
  cases hd'
  exact ⟨hf₁, d, rfl, hreach⟩

/-- A request that is worked on leads to another assured scene. -/
theorem Attended.processed (ha : Attended P s c es R T)
    (hworks : (station P).Works P c 0 (.done d) queue)
    (hes : (station P).packets es = (station P).packets es') (hsub : es' ⊆ es)
    (hminds : Minds P 0 c d) (hresponses : d.responses = c.responses ∨
      (∃ m, Queues c m d q) ∧ d.Permits (P.lineOf q.addr) q.access) :
    (∃ s', Fares P s c (.done d) es' R T s') ∧ Grants c d := by
  obtain ⟨s', hfares⟩ := ha.fares hworks rfl (hes.trans (Multiset.zero_add _).symm) hsub hminds
    sendsPlainly_nil
  refine ⟨⟨s', hfares⟩, ?_⟩
  obtain ⟨hf, place, hrests, -⟩ := hfares.attended.stands.plays.shows
  rcases hresponses with hsame | ⟨hqueues, hpermits⟩
  · exact .inl hsame
  · exact grants_of_permits hf hrests hqueues hpermits

/-- So does a packet that is taken up. -/
theorem Attended.dispatched {rest : List ClientInput} (ha : Attended P s c (.packet p :: rest) R T)
    (hw : w = ({ c with inbound := rest } : PrivateCache).dispatch p) (hfault : w.fault = none) :
    (∃ s', Fares P s c w rest R T s') ∧ Grants c w.node := by
  obtain ⟨hf, place, hrests, -⟩ := ha.stands.plays.shows
  have hdst : p.dst = c.id := ha.addressed _ List.mem_cons_self p rfl
  have hf₁ : Follows P { c with inbound := rest } := hf.congr rfl rfl rfl
  have h₁ : Rests P none { c with inbound := rest } place := hrests.congr rfl rfl rfl
  have hworks : (station P).Works P { c with inbound := rest } {p} w rest := by
    rw [hw]
    exact dispatch_works hdst
  obtain ⟨hminds, hsent, hreplies⟩ := dispatch_minds hf₁ h₁ (hw ▸ hfault)
  rw [← hw] at hminds hsent hreplies
  obtain ⟨s', hfares⟩ := ha.fares (hworks.congr (alike_inbound c rest)) hfault
    (Station.packets_cons ..) (List.subset_cons_self _ _) ⟨hminds.wants, hminds.posts⟩ hsent
  refine ⟨⟨s', hfares⟩, ?_⟩
  obtain ⟨hf', place', hrests', -⟩ := hfares.attended.stands.plays.shows
  rcases hreplies with hsame | ⟨m, hm, hsame | ⟨q, hwants, hqueues, hpermits⟩⟩
  · exact .inl hsame
  · exact .inl hsame
  · obtain ⟨hline, hno⟩ := ha.assured _ q hwants
    refine grants_of_permits hf' hrests' hqueues ?_
    rw [hline]
    refine hpermits fun hwrite => ?_
    -- a shared copy for the store would have been on its way
    have htransit : p ∈ s.transit := by
      rw [ha.stands.transit, Station.packets_cons]
      exact Multiset.mem_add.2 (.inl (Multiset.mem_add.2 (.inl (Multiset.mem_singleton_self p))))
    have hshare : ¬ P.SharesWith (P.lineOf m.addr) c.id p := fun h =>
      hno hwrite (.of_transit htransit h)
    have hnote := Scene.note?_coherence (P := P) (X := P.lineOf m.addr) hm
    rw [if_pos rfl] at hnote
    constructor
    · intro hop
      exact hshare ⟨_, hnote, .inr (.inr ⟨hdst, .inl hop⟩)⟩
    · intro hop
      exact hshare ⟨_, hnote, .inr (.inr ⟨hdst, .inr hop⟩)⟩

/-- A turn of a cache that stands assured leads to another assured scene, and where it queues a
response the line permits the access. -/
theorem Turn.fares (h : Turn c es w es') (ha : Attended P s c es R T) :
    (∃ s', Fares P s c w es' R T s') ∧ Grants c w.node := by
  obtain ⟨hf, place, hrests, -⟩ := ha.stands.plays.shows
  cases h with
  | @retry d _ x rest hq hd =>
    have hf₁ : Follows P (c.retrying rest) := hf.congr rfl rfl rfl
    have hfresh : false = true → some (P.lineOf x.item.addr) = none := nofun
    obtain ⟨hminds, hresponses⟩ :=
      process_minds hf₁ (rests_retrying hrests hq) (.inr rfl) hfresh hd
    exact ha.processed (retry_works hq hd) rfl (List.Subset.refl _)
      ⟨hminds.wants, hminds.posts⟩ hresponses
  | @request d q _ hd =>
    have hworks := request_works (P := P) (c := { c with inbound := es' }) q
    rw [hd] at hworks
    obtain ⟨k, hk⟩ : ∃ k, ({ c with inbound := es' } : PrivateCache).countRequest q
        = { c with inbound := es', counters := k } := by
      unfold countRequest
      split <;> exact ⟨_, rfl⟩
    rw [hk] at hd
    have hf₁ : Follows P { c with inbound := es', counters := k } := hf.congr rfl rfl rfl
    have h₁ : Rests P none { c with inbound := es', counters := k } place :=
      hrests.congr rfl rfl rfl
    obtain ⟨hminds, hresponses⟩ := process_minds hf₁ h₁ (.inl rfl) (fun _ => rfl) hd
    exact ha.processed (hworks.congr (alike_inbound c es')) rfl (List.subset_cons_self _ _)
      ⟨hminds.wants, hminds.posts⟩ hresponses
  | packet hfault => exact ha.dispatched rfl hfault

/-! ## Cycles -/

theorem Fares.refl (ha : Attended P s c es R T) : Fares P s c (.done c) es R T s where
  run := .refl
  others _ _ := rfl
  id := rfl
  spares _ _ _ h := h
  attended := by
    show Attended P s c es R (T + 0)
    rwa [Multiset.add_zero]

/-- Work in two parts. -/
theorem Fares.trans {s'' : Scene} {es'' : List ClientInput} (h : Fares P s c w es' R T s')
    (h' : Fares P s' w.node w' es'' R (T + (w.sent : Multiset Packet)) s'') :
    Fares P s c { w' with sent := w.sent ++ w'.sent } es'' R T s'' where
  run := h.run.trans h'.run
  others n hn := (h'.others n (by rwa [h.id])).trans (h.others n hn)
  id := h'.id.trans h.id
  spares X n hn hs := h.spares X n hn (h'.spares X n (by rwa [h.id]) hs)
  attended := by
    rw [← Multiset.coe_add, ← Multiset.add_assoc]
    exact h'.attended

/-- The second part comes after the first if that is not stopped. -/
theorem Fares.andThen {s'' : Scene} {es'' : List ClientInput}
    {next : PrivateCache → Work PrivateCache} (h : Fares P s c w es' R T s') (hf : w.fault = none)
    (h' : Fares P s' w.node (next w.node) es'' R (T + (w.sent : Multiset Packet)) s'') :
    Fares P s c (w.andThen next) es'' R T s'' := by
  rw [Work.andThen, hf]
  exact h.trans h'

/-- A cache stays assured whatever turns it takes. -/
theorem Turns.fares (h : Turns c es w es') (ha : Attended P s c es R T) :
    ∃ s', Fares P s c w es' R T s' := by
  induction h with
  | start => exact ⟨s, .refl ha⟩
  | more _ ht ih =>
    obtain ⟨s₁, h₁⟩ := ih
    obtain ⟨⟨s₂, h₂⟩, -⟩ := ht.fares h₁.attended
    exact ⟨s₂, h₁.trans h₂⟩

/-- Whatever turns a cache has taken, the next response that it queues is permitted. -/
theorem Turns.grants {es'' : List ClientInput} (h : Turns c es w es')
    (ht : Turn w.node es' w' es'') (ha : Attended P s c es R T) : Grants w.node w'.node := by
  obtain ⟨s', hfares⟩ := h.fares ha
  exact (ht.fares hfares.attended).2

/-- That a cycle begins is not seen. -/
theorem Attended.beginCycle (ha : Attended P s c es R T) : Attended P s c.beginCycle es R T where
  sound := ha.sound
  stands :=
    { plays := ha.stands.plays.alike ⟨rfl, rfl, fun _ h => shows_congr h rfl rfl rfl rfl rfl⟩
      outgoing := ha.stands.outgoing
      transit := ha.stands.transit }
  addressed := ha.addressed
  assured := ha.assured.mono rfl rfl fun _ h => h

/-- A cache stays assured for a whole cycle. -/
theorem tick_fares (ha : Attended P s c c.inbound R T) (hf : c.tick.1.fault = none) :
    ∃ s', Fares P s c c.tick.1 [] R T s' := by
  have htick : c.tick.1 = (c.handled.andThen flush).andThen fun c => .done c.collect := c.tick_eq
  rw [htick] at hf ⊢
  have hflushed := (Work.andThen_fault_eq_none.1 hf).1
  have hhandled := (Work.andThen_fault_eq_none.1 hflushed).1
  obtain ⟨s₁, h₁⟩ := (turns_handled hhandled).fares ha.beginCycle
  have h₁ : Fares P s c c.handled [] R T s₁ :=
    ⟨h₁.run, h₁.others, h₁.id, h₁.spares, h₁.attended⟩
  have hleave : Minds P 0 c.handled.node c.handled.node.flush.node ∧
      SendsPlainly P c.handled.node c.handled.node.flush.sent := by
    refine minds_of_leave ?_ (c.handled.node.outlet.flush_order _)
    rfl
  obtain ⟨s₂, h₂⟩ := h₁.attended.fares flush_works rfl (Multiset.zero_add _).symm
    (List.Subset.refl _) hleave.1 hleave.2
  have h₂ := h₁.andThen hhandled h₂
  have hcollect : Minds P 0 (c.handled.andThen flush).node (c.handled.andThen flush).node.collect :=
    ⟨fun _ _ hq => .inl hq, fun _ hp => .inl hp⟩
  obtain ⟨s₃, h₃⟩ := h₂.attended.fares collect_works rfl (Multiset.zero_add _).symm
    (List.Subset.refl _) hcollect sendsPlainly_nil
  exact ⟨s₃, h₂.andThen hflushed h₃⟩

end CacheCoherence.PrivateCache
