import CacheCoherence.Proofs.PrivateCache.Receipt
import CacheCoherence.Proofs.Scene.Shares

/-!
# Wants — what the transactions of a private cache are for

A register holds the request that opened its transaction, and what is posted for the transaction
is posted for this request: a shared copy is asked for on behalf of a load alone, and a cache
hands a shared copy on only where it was told to. When a transaction ends its request is answered
from the line, which then permits the access, unless a store was given a shared copy.
-/

namespace CacheCoherence

open Function (update update_self update_of_ne)

/-- The line may be used for the access. -/
def LineEntry.Permits (e : LineEntry ClientState) : Access → Prop
  | .read => e.controller = .S ∨ e.controller = .E ∨ e.controller = .M
  | .write => e.controller = .M ∧ e.evicting = false ∧ e.dirty = true

namespace ClientState

theorem not_awaits_of_departs {s : ClientState} (h : s.departs = true) : s.awaits = false :=
  not_awaits_of_sole (sole_of_departs h)

theorem not_awaits_of_stable {s : ClientState} (h : s.isStable = true) : s.awaits = false := by
  cases s <;> simp_all [awaits, isStable]

theorem awaits_of_passing {s : ClientState} (hs : s.isStable = false) (hd : s.departs = false) :
    s.awaits = true := by
  cases s <;> simp_all [awaits, departs, isStable]

/-- A copy that was awaited is exclusive, or it is shared by the word of the message. -/
theorem onMessage_awaits {s : ClientState} {op : Opcode} {fwd : Option NodeId}
    {t : ClientTransition} (hs : s.awaits = true) (h : s.onMessage op fwd = some t)
    (ht : t.next.isStable = true) :
    t.next = .E ∨ t.next = .M ∨ t.next = .S ∧ (op = .grantS ∨ op = .dataS) := by
  cases s <;> simp [awaits] at hs <;> cases op <;> simp [onMessage] at h <;> subst h <;>
    simp [isStable] at ht ⊢

end ClientState

namespace PrivateCache

/-- The transaction on the line `X` was opened by the request `q`. -/
def Wants (c : PrivateCache) (X : Addr) (q : Request) : Prop :=
  ∃ r v, c.mshr.slots.contentAt r = .filled X v ∧ v.request = q

/-- The line `X` is there and may be used for the access. -/
def Permits (c : PrivateCache) (X : Addr) (a : Access) : Prop :=
  ∃ i e, c.table.slots.contentAt i = .filled X e ∧ e.Permits a

/-- On the way from `c` to `d` the response of `q` is queued: the cache is `m` at that moment, and
afterwards it only wakes requests that waited. -/
def Queues (c m d : PrivateCache) (q : Request) : Prop :=
  m.responses = c.responses ∧ ∃ events : List WakeEvent, d = events.foldl wake (m.respond q)

variable {P : Plan} {K : Option Addr} {c d : PrivateCache}
  {place : Addr → Place ClientState ClientTransaction} {X V : Addr} {i r : Nat}
  {e : LineEntry ClientState} {t : ClientTransition} {m : ClientMiss} {v : ClientTransaction}
  {q q' : Request} {op : Opcode} {src : NodeId} {fwd : Option NodeId} {msg : CoherenceMessage}
  {p : Packet}

/-! ## Registers -/

theorem Filed.wants_iff (h : Filed c place) :
    c.Wants X q ↔ ∃ r v, (place X).register? = some (r, v) ∧ v.request = q := by
  constructor
  · rintro ⟨r, v, hc, hq⟩
    exact ⟨r, v, h.register_of_content hc, hq⟩
  · rintro ⟨r, v, hr, hq⟩
    exact ⟨r, v, h.content_register hr, hq⟩

/-- There is one transaction on a line. -/
theorem Filed.wants_unique (h : Filed c place) (hq : c.Wants X q) (hq' : c.Wants X q') :
    q = q' := by
  obtain ⟨r, v, hr, rfl⟩ := h.wants_iff.1 hq
  obtain ⟨r', v', hr', rfl⟩ := h.wants_iff.1 hq'
  rw [hr] at hr'
  cases hr'
  rfl

theorem Filed.not_wants (h : Filed c place) (hp : (place X).register? = none) : ¬ c.Wants X q := by
  rintro hq
  obtain ⟨r, v, hr, -⟩ := h.wants_iff.1 hq
  rw [hp] at hr
  cases hr

theorem Filed.aligned_of_wants (h : Filed c place) (hf : Follows P c) (hq : c.Wants X q) :
    P.lineOf X = X := by
  obtain ⟨r, v, hr, -⟩ := h.wants_iff.1 hq
  rw [← hf.lineOf]
  refine h.aligned X fun habs => ?_
  rw [habs] at hr
  cases hr

/-- A line without a transaction awaits no copy. -/
theorem Rests.not_awaits (h : Rests P K c place) (hX : ∀ q, ¬ c.Wants X q) :
    (view place X).awaits = false := by
  have hnone : (place X).register? = none := by
    rw [Option.eq_none_iff_forall_ne_some]
    rintro ⟨r, v⟩ hr
    exact hX v.request (h.wants_iff.2 ⟨r, v, hr, rfl⟩)
  have hcalm := h.calm X
  have hfit := h.fits X
  rw [view]
  cases hp : place X with
  | absent => rfl
  | filed i e tx =>
    rw [hp] at hnone hcalm hfit
    obtain rfl : tx = none := hnone
    -- the line is at rest, or it is on its way out
    cases hev : e.evicting with
    | true => exact ClientState.not_awaits_of_departs (hcalm.trans hev)
    | false => exact ClientState.not_awaits_of_stable (hfit.2 hev)
  | reserved i r v | waiting i r v => simp [hp, Place.register?] at hnone

/-- Another transaction in a register is wanted, and none besides. -/
theorem wants_of_sets {x : SlotContent ClientTransaction} (hs : c.mshr.Sets d.mshr r x)
    (hq : d.Wants X q) : c.Wants X q ∨ ∃ v, x = .filled X v ∧ v.request = q := by
  obtain ⟨r', v, hc, hq⟩ := hq
  rw [hs.content] at hc
  by_cases hr : r' = r
  · subst hr
    rw [update_self] at hc
    exact .inr ⟨v, hc, hq⟩
  · rw [update_of_ne hr] at hc
    exact .inl ⟨r', v, hc, hq⟩

theorem wants_self (hs : c.mshr.Sets d.mshr r (.filled X v)) (hq : v.request = q) : d.Wants X q :=
  ⟨r, v, by rw [hs.content, update_self], hq⟩

/-- Once a register is free its transaction is over, and no other has begun. -/
theorem wants_of_release (hs : c.mshr.Sets d.mshr r .free) (hq : d.Wants X q) : c.Wants X q :=
  (wants_of_sets hs hq).resolve_right nofun

/-- A transaction that goes on is wanted for the same request. -/
theorem wants_iff_of_sets {w : ClientTransaction} (hs : c.mshr.Sets d.mshr r (.filled V v))
    (hc : c.mshr.slots.contentAt r = .filled V w) (hv : v.request = w.request) :
    d.Wants X q ↔ c.Wants X q := by
  constructor
  · intro hq
    rcases wants_of_sets hs hq with hq | ⟨_, ⟨⟩, hq⟩
    · exact hq
    · exact ⟨r, w, hc, hv ▸ hq⟩
  · rintro ⟨r', u, hu, hq⟩
    by_cases hr : r' = r
    · subst hr
      rw [hc] at hu
      cases hu
      exact wants_self hs (hv.trans hq)
    · exact ⟨r', u, by rw [hs.content, update_of_ne hr, hu], hq⟩

/-! ## What is posted -/

/-- `d` goes on with the transactions of `c`, and what it newly posts asks for a shared copy on
behalf of a load alone. -/
structure Pursues (P : Plan) (c d : PrivateCache) : Prop where
  id : d.id = c.id
  responses : d.responses = c.responses
  wants : ∀ X q, d.Wants X q ↔ c.Wants X q
  posts : ∀ p ∈ d.out, p ∈ c.out ∨
    ∀ X n, P.SharesWith X n p → n = c.id ∧ ∃ q, d.Wants X q ∧ q.access = .read

/-- `d` is the cache `c` once it has taken the packets `taken`. A transaction is opened only on a
line that had none, and what is newly posted hands a shared copy on where that was asked for, or
asks for one on behalf of a load. -/
structure Minds (P : Plan) (taken : Multiset Packet) (c d : PrivateCache) : Prop where
  wants : ∀ X q, d.Wants X q → c.Wants X q ∨ P.lineOf q.addr = X ∧ ∀ q', ¬ c.Wants X q'
  posts : ∀ p ∈ d.out, p ∈ c.out ∨ ∀ X n, P.SharesWith X n p →
    (∃ p' ∈ taken, P.SharesWith X n p') ∨ n = c.id ∧ ∃ q, d.Wants X q ∧ q.access = .read

variable {taken : Multiset Packet}

theorem Minds.pursue {d' : PrivateCache} (h : Minds P taken c d) (hid : d.id = c.id)
    (h' : Pursues P d d') : Minds P taken c d' where
  wants X q hq := h.wants X q ((h'.wants X q).1 hq)
  posts p hp := by
    rcases h'.posts p hp with hp | hnew
    · refine (h.posts p hp).imp_right fun hshare X n hn => ?_
      refine (hshare X n hn).imp_right fun ⟨hn, q, hq, ha⟩ => ⟨hn, q, (h'.wants X q).2 hq, ha⟩
    · exact .inr fun X n hn => .inr (hid ▸ hnew X n hn)

/-- What an access posts asks for a shared copy only if it is a load. -/
theorem posts_access {s : ClientState} {op : ProcessorOp} (hX : P.lineOf X = X)
    (ht : s.onProcessor op = some t) (ho : d.out = c.out + P.clientPosts c.id X t.actions)
    (hload : op = .load → ∃ q, d.Wants X q ∧ q.access = .read) :
    ∀ p ∈ d.out, p ∈ c.out ∨
      ∀ Y n, P.SharesWith Y n p → n = c.id ∧ ∃ q, d.Wants Y q ∧ q.access = .read := by
  intro p hp
  rw [ho] at hp
  refine (Multiset.mem_add.1 hp).imp_right fun hp Y n hn => ?_
  obtain ⟨rfl, k, hk, hshare⟩ := hn.of_clientPosts hX hp
  obtain ⟨hme, hop⟩ := ClientState.sharesWith_of_onProcessor ht hk hshare
  exact ⟨hme, hload hop⟩

theorem read_of_operation {a : Access} (h : a.operation = .load) : a = .read := by
  cases a
  · rfl
  · cases h

/-- A missing line is asked for on behalf of the request that missed. -/
theorem issueFill_eq (hf : Follows P c)
    (h : c.issueFill (c.mshr.slots.handleAt r) X m = .ok d) :
    ∃ t o k, m.state.onProcessor m.request.access.operation = some t ∧
      d = { c with
        mshr := c.mshr.assign (c.mshr.slots.handleAt r) X (.miss { m with state := t.next })
        outlet := o
        counters := k } ∧
      (o.toList : Multiset Packet) = c.out + P.clientPosts c.id X t.actions := by
  obtain ⟨t, ht, h⟩ := bind_eq_ok.1 h
  cases h
  let d : PrivateCache := { c with
    mshr := c.mshr.assign (c.mshr.slots.handleAt r) X (.miss { m with state := t.next }) }
  have hk : Kept c d := ⟨rfl, rfl, rfl, rfl, rfl, rfl⟩
  obtain ⟨o, k, hperf, -, ho⟩ := perform_kept (hf.kept hk) X t.actions
  exact ⟨t, o, k, ClientState.transition_processor.1 (mapError_eq_ok ht), hperf, ho⟩

/-- The line that takes the way of an evicted line over is asked for as its request wants it. -/
theorem finishEviction_pursues (hf : Follows P c) (haligned : ∀ Y q, c.Wants Y q → P.lineOf Y = Y)
    {way : Handle} (hd : c.finishEviction way V = .ok d) : Pursues P c d := by
  unfold finishEviction at hd
  split at hd
  · cases hd
    exact ⟨rfl, rfl, fun _ _ => .rfl, fun p hp => .inl hp⟩
  · next register X m hfind =>
    obtain ⟨r, v, rfl, hc, hv⟩ := Mshr.of_findSome? hfind
    split at hd
    · cases hd
    · next old way' table hrep =>
      obtain ⟨d', hfill, hd⟩ := bind_eq_ok.1 hd
      cases hd
      obtain rfl : v = .miss m := by
        cases v with
        | upgrade => cases hv
        | miss m' =>
          obtain ⟨-, ⟨⟩⟩ := Option.ite_none_right_eq_some.1 hv
          rfl
      have hX : P.lineOf X = X := haligned X m.request ⟨r, _, hc, rfl⟩
      have hk : Kept c { c with table } :=
        ⟨rfl, rfl, rfl, LineTable.layout_of_replace? hrep, rfl, rfl⟩
      obtain ⟨t, o, k, ht, rfl, ho⟩ := issueFill_eq (hf.kept hk) hfill
      have hset := Mshr.assign_sets (m := c.mshr) (r := r)
        (SlotTable.lt_capacity (by rw [hc]; exact nofun)) X
        (.miss { m with state := t.next, way := way', awaitsVictim := false })
      refine ⟨rfl, rfl, fun Y q => wants_iff_of_sets hset hc rfl, posts_access hX ht ho ?_⟩
      intro hload
      exact ⟨m.request, wants_self hset rfl, read_of_operation hload⟩

/-! ## Requests -/

/-- An access that is done at once leaves a line that permits it. -/
theorem permits_of_access {s : ClientState} {a : Access} (ht : s.onProcessor a.operation = some t)
    (hs : t.next.isStable = true) (hev : e.evicting = false) : (committed e t.next).Permits a := by
  cases s <;> cases a <;> simp [ClientState.onProcessor, Access.operation] at ht <;> subst ht <;>
    simp [ClientState.isStable] at hs <;>
    simp [committed, LineEntry.Permits, ClientState.isDirty, hev]

/-- A transaction is opened on a line that had none, and an access is made. -/
theorem minds_of_opened {s : ClientState} {op : ProcessorOp}
    (hset : c.mshr.Sets d.mshr r (.filled (P.lineOf q.addr) v)) (hv : v.request = q)
    (hnone : ∀ q', ¬ c.Wants (P.lineOf q.addr) q') (hX : P.lineOf X = X)
    (ht : s.onProcessor op = some t) (ho : d.out = c.out + P.clientPosts c.id X t.actions)
    (hload : op = .load → X = P.lineOf q.addr ∧ q.access = .read) : Minds P 0 c d where
  wants Y q' hq' := by
    rcases wants_of_sets hset hq' with hq' | ⟨_, ⟨⟩, rfl⟩
    · exact .inl hq'
    · obtain rfl := hv
      exact .inr ⟨rfl, hnone⟩
  posts p hp := by
    refine (posts_access hX ht ho (fun hop => ?_) p hp).imp_right fun hnew Y n hn =>
      .inr (hnew Y n hn)
    obtain ⟨rfl, hread⟩ := hload hop
    exact ⟨q, wants_self hset hv, hread⟩

/-- Waking requests does not touch the lines. -/
theorem Queues.table {m : PrivateCache} (h : Queues c m d q) : d.table = m.table := by
  obtain ⟨-, events, rfl⟩ := h
  have hwake : ∀ (events : List WakeEvent) (n : PrivateCache),
      (events.foldl wake n).table = n.table := by
    intro events
    induction events with
    | nil => exact fun _ => rfl
    | cons event rest ih => exact fun n => ih (n.wake event)
  exact hwake events (m.respond q)

/-- A request that is served is answered once the line has changed. -/
theorem queues_serve (line : Addr) (way : Handle) (next : ClientState) :
    ∃ m, Queues c m (c.serve q line way next) q :=
  ⟨{ c.commit way next with
      table := (c.commit way next).table.touch way
      counters := { c.counters with hits := c.counters.hits + 1 } }, rfl,
    [.transactionDone line], rfl⟩

/-- A transaction that ends has its request answered once its register is free. -/
theorem queues_conclude {x : PrivateCache} {register : Handle} {line : Addr}
    (hd : x.conclude register line q = d) (h : x.responses = c.responses) :
    ∃ m, Queues c m d q := by
  subst hd
  exact ⟨{ x with mshr := (x.mshr.release register).2 }, h,
    [.registerReleased, .transactionDone line], rfl⟩

/-- A request for more permission. -/
theorem startUpgrade_minds (hf : Follows P c) (h : Rests P K c place)
    (hp : place (P.lineOf q.addr) = .filed i e none)
    (ht : e.controller.onProcessor q.access.operation = some t) (hlt : r < c.mshr.slots.capacity) :
    Minds P 0 c (c.startUpgrade q (P.lineOf q.addr) (c.mshr.slots.handleAt r)
        (c.table.slots.handleAt i) t) ∧
      (c.startUpgrade q (P.lineOf q.addr) (c.mshr.slots.handleAt r)
        (c.table.slots.handleAt i) t).responses = c.responses := by
  have hw := commit_writes h.toFiled hp t.next
  have htouch := LineTable.touch_touches (c.commit (c.table.slots.handleAt i) t.next).table
    (c.table.slots.handleAt i)
  have hset := Mshr.assign_sets hlt (P.lineOf q.addr)
    (ClientTransaction.upgrade (c.table.slots.handleAt i) q)
  let x : PrivateCache :=
    { c.countMiss with
      mshr := c.mshr.assign (c.mshr.slots.handleAt r) (P.lineOf q.addr)
        (.upgrade (c.table.slots.handleAt i) q)
      table := (c.commit (c.table.slots.handleAt i) t.next).table.touch
        (c.table.slots.handleAt i) }
  have hk : Kept c x := ⟨rfl, rfl, rfl, htouch.layout.trans hw.layout, rfl, rfl⟩
  obtain ⟨o, k, hperf, -, ho⟩ := perform_kept (hf.kept hk) (P.lineOf q.addr) t.actions
  have hstart : c.startUpgrade q (P.lineOf q.addr) (c.mshr.slots.handleAt r)
      (c.table.slots.handleAt i) t = { x with outlet := o, counters := k } := hperf
  rw [hstart]
  exact ⟨minds_of_opened hset rfl (fun q' => h.not_wants (by rw [hp]; rfl))
    (P.lineOf_lineOf q.addr) ht ho fun hop => ⟨rfl, read_of_operation hop⟩, rfl⟩

/-- A request for a missing line. -/
theorem startFill_minds (hf : Follows P c) (h : Rests P K c place)
    (hp : place (P.lineOf q.addr) = .absent) (hlt : r < c.mshr.slots.capacity) {way : Handle}
    {table : LineTable ClientState} (hlayout : table.layout = c.table.layout)
    (hd : c.startFill q (P.lineOf q.addr) (c.mshr.slots.handleAt r) way table = .ok d) :
    Minds P 0 c d ∧ d.responses = c.responses := by
  have hk : Kept c { c.countMiss with table } := ⟨rfl, rfl, rfl, hlayout, rfl, rfl⟩
  obtain ⟨t, o, k, ht, rfl, ho⟩ := issueFill_eq (hf.kept hk) hd
  have hset := Mshr.assign_sets hlt (P.lineOf q.addr) (ClientTransaction.miss
    { state := t.next, way, request := q, awaitsVictim := false })
  exact ⟨minds_of_opened hset rfl (fun q' => h.not_wants (by rw [hp]; rfl))
    (P.lineOf_lineOf q.addr) ht ho fun hop => ⟨rfl, read_of_operation hop⟩, rfl⟩

/-- A request for a missing line that takes the way of another one over. -/
theorem startReplacement_minds (hf : Follows P c) (h : Rests P K c place)
    (hK : K = none ∨ K = some (P.lineOf q.addr)) (hp : place (P.lineOf q.addr) = .absent)
    (hi : c.table.InSet i (P.lineOf q.addr)) (hV : place V = .filed i e none)
    (hev : e.evicting = false) (hr : c.mshr.slots.contentAt r = .free)
    (hlt : r < c.mshr.slots.capacity)
    (hd : c.startReplacement q (P.lineOf q.addr) (c.mshr.slots.handleAt r)
      (c.table.slots.handleAt i) V e = .ok d) :
    Minds P 0 c d ∧ d.responses = c.responses := by
  have hVline : P.lineOf V = V := by
    rw [← hf.lineOf]
    exact h.aligned_of hV nofun
  obtain ⟨t, ht, hd⟩ := bind_eq_ok.1 hd
  have ht := ClientState.transition_processor.1 (mapError_eq_ok ht)
  have hw := evictingTable_writes h.toFiled hV t.next
  let x : PrivateCache :=
    { c.countMiss with
      mshr := c.mshr.assign (c.mshr.slots.handleAt r) (P.lineOf q.addr) (.miss (c.awaiting q i))
      table := c.evictingTable i t.next
      counters := { c.countMiss.counters with
        evictions := c.countMiss.counters.evictions + 1
        writebacks := c.countMiss.counters.writebacks + e.dirty.toNat } }
  have hk : Kept c x := ⟨rfl, rfl, rfl, hw.layout, rfl, rfl⟩
  obtain ⟨o, k, hperf, hk', ho⟩ := perform_kept (hf.kept hk) V t.actions
  have hset := Mshr.assign_sets hlt (P.lineOf q.addr) (ClientTransaction.miss (c.awaiting q i))
  -- the eviction asks for nothing, and a line that has to wait for it does so for `q`
  have hminds : Minds P 0 c { x with outlet := o, counters := k } :=
    minds_of_opened hset rfl (fun q' => h.not_wants (by rw [hp]; rfl)) hVline ht ho nofun
  change (let d := x.perform V t.actions
    if t.next.isInvalid then d.finishEviction (c.table.slots.handleAt i) V else .ok d) = .ok d
    at hd
  rw [hperf] at hd
  dsimp only at hd
  split at hd
  · have hguards := guards_evicting h (by rw [hf.lineOf, P.lineOf_lineOf]) hK hp hi hV hev hr hlt
      t.next q o k
    have hfin := finishEviction_pursues (hf.kept (hk.trans hk'))
      (fun _ _ hq => hguards.aligned_of_wants (hf.kept (hk.trans hk')) hq) hd
    exact ⟨hminds.pursue rfl hfin, hfin.responses⟩
  · cases hd
    exact ⟨hminds, rfl⟩

/-- What a request opens is wanted for it, and if it is answered at once the line permits that. -/
theorem process_minds {fresh : Bool} (hf : Follows P c) (h : Rests P K c place)
    (hK : K = none ∨ K = some (P.lineOf q.addr)) (hfresh : fresh = true → K = none)
    (hd : c.process q fresh = .ok d) :
    Minds P 0 c d ∧ (d.responses = c.responses ∨
      (∃ m, Queues c m d q) ∧ d.Permits (P.lineOf q.addr) q.access) := by
  obtain ⟨a, ha, hsens⟩ := admission_sensible h.toGuards hfresh q
  rw [process_eq, ha] at hd
  change c.carryOut q (c.table.lineAddr q.addr) a = .ok d at hd
  rw [hf.lineOf] at hd hsens
  cases hsens with
  | park =>
    cases hd
    exact ⟨⟨fun _ _ hq => .inl hq, fun _ hp => .inl hp⟩, .inl rfl⟩
  | @hit i e t hp hev ht hs =>
    cases hd
    have htouch := LineTable.touch_touches (c.commit (c.table.slots.handleAt i) t.next).table
      (c.table.slots.handleAt i)
    have hw := (commit_writes h.toFiled hp t.next).touch htouch
    refine ⟨⟨fun _ _ hq => .inl hq, fun _ hp => .inl hp⟩, .inr ⟨queues_serve ..,
      i, committed e t.next, ?_, permits_of_access ht hs hev⟩⟩
    exact (congrFun hw.content i).trans (update_self ..)
  | upgrade hp _ ht _ _ hlt =>
    cases hd
    obtain ⟨hminds, hsame⟩ := startUpgrade_minds hf h hp ht hlt
    exact ⟨hminds, .inl hsame⟩
  | fill hp _ _ hw _ hlt =>
    obtain ⟨hminds, hsame⟩ := startFill_minds hf h hp hlt hw.layout hd
    exact ⟨hminds, .inl hsame⟩
  | replace hp hi hV hev _ hr hlt =>
    obtain ⟨hminds, hsame⟩ := startReplacement_minds hf h hK hp hi hV hev hr hlt hd
    exact ⟨hminds, .inl hsame⟩

/-! ## Messages -/

/-- A line that has come with the right to the access, or with one that takes no message to be made
use of, permits the access once it is settled. -/
theorem permits_of_message {s : ClientState} (hs : s.awaits = true)
    (ht : s.onMessage op fwd = some t) (hst : t.next.isStable = true)
    (hop : q.access = .write → op ≠ .grantS ∧ op ≠ .dataS) (hev : e.evicting = false)
    (hctrl : e.controller = settled t.next q) (hdirty : e.dirty = e.controller.isDirty) :
    e.Permits q.access := by
  have hnext := ClientState.onMessage_awaits hs ht hst
  cases ha : q.access with
  | read =>
    have hctrl : e.controller = t.next := by rw [hctrl, settled, ha]
    show e.controller = .S ∨ e.controller = .E ∨ e.controller = .M
    rw [hctrl]
    rcases hnext with h | h | ⟨h, -⟩ <;> simp [h]
  | write =>
    have hM : e.controller = .M := by
      rw [hctrl, settled, ha]
      rcases hnext with h | h | ⟨-, h | h⟩
      · rw [h]
        rfl
      · rw [h]
        rfl
      -- a shared copy is the one thing that does not come
      · exact absurd h (hop ha).1
      · exact absurd h (hop ha).2
    exact ⟨hM, hev, by rw [hdirty, hM]; rfl⟩

/-- A message is answered by a transaction's worth of packets, and no transaction is opened. -/
theorem minds_of_message {s : ClientState} (hm : p.payload = .coherence msg)
    (hX : P.lineOf msg.addr = X) (ht : s.onMessage msg.op msg.forwardTo = some t)
    (hw : ∀ Y q, d.Wants Y q → c.Wants Y q)
    (ho : d.out = c.out + P.clientPosts c.id X t.actions) : Minds P {p} c d where
  wants Y q hq := .inl (hw Y q hq)
  posts p' hp' := by
    have hXX : P.lineOf X = X := by rw [← hX, P.lineOf_lineOf]
    rw [ho] at hp'
    refine (Multiset.mem_add.1 hp').imp_right fun hp' Y n hn => .inl ⟨p, by simp, ?_⟩
    obtain ⟨rfl, k, hk, hshare⟩ := hn.of_clientPosts hXX hp'
    obtain ⟨hop, hfwd⟩ := ClientState.sharesWith_of_onMessage ht hk hshare
    have hnote := Scene.note?_coherence (P := P) (X := Y) hm
    rw [if_pos hX] at hnote
    exact ⟨_, hnote, .inr (.inl ⟨hop, hfwd⟩)⟩

/-- What a message does to the responses: none is queued, or that of the request which opened the
transaction on the line `X`. Then the line permits the access, unless a store was given a shared
copy. -/
def Answers (c d : PrivateCache) (X : Addr) (op : Opcode) : Prop :=
  d.responses = c.responses ∨ ∃ q, c.Wants X q ∧ (∃ m, Queues c m d q) ∧
    ((q.access = .write → op ≠ .grantS ∧ op ≠ .dataS) → d.Permits X q.access)

/-- The transaction of `q` on the line `X` ends on the way from `c` to `d`: the line was found in
the state `s` and is settled for the access. -/
structure Completes (c d : PrivateCache) (X : Addr) (s : ClientState) (q : Request) : Prop where
  out : d.out = c.out
  wants : ∀ Y q', d.Wants Y q' → c.Wants Y q'
  queues : ∃ m, Queues c m d q
  entry : ∃ i e, d.table.slots.contentAt i = .filled X e ∧ e.evicting = false ∧
    e.controller = settled s q ∧ e.dirty = e.controller.isDirty

theorem completeFill_completes {m : ClientMiss} (hc : c.table.slots.contentAt i = .reserved X)
    (hway : m.way = c.table.slots.handleAt i) (hr : c.mshr.slots.contentAt r ≠ .free)
    (hd : c.completeFill (c.mshr.slots.handleAt r) X m = .ok d) :
    Completes c d X m.state m.request := by
  let e : LineEntry ClientState :=
    { haveData := true
      dirty := (settled m.state m.request).isDirty
      evicting := false
      controller := settled m.state m.request }
  obtain ⟨table, hinstall, hw⟩ := LineTable.install?_writes hc e
  unfold completeFill at hd
  dsimp only at hd
  rw [hway, hinstall] at hd
  have hqueues : ∃ x, Queues c x d m.request := queues_conclude (Except.ok.inj hd) rfl
  cases hd
  exact {
    out := rfl
    wants := fun _ _ hq => wants_of_release (Mshr.release_sets hr) hq
    queues := hqueues
    entry := ⟨i, e, (congrFun hw.content i).trans (update_self ..), rfl, rfl, rfl⟩ }

theorem completeUpgrade_completes {s : ClientState} {q : Request}
    (hc : c.table.slots.contentAt i = .filled X e) (hev : e.evicting = false)
    (hr : c.mshr.slots.contentAt r ≠ .free) :
    Completes c (c.completeUpgrade (c.mshr.slots.handleAt r) (c.table.slots.handleAt i) X s q) X s
      q := by
  have hw := (LineTable.modify_writes hc (committed · (settled s q))).modify
    fun e => { e with haveData := true }
  exact {
    out := rfl
    wants := fun _ _ hq => wants_of_release (Mshr.release_sets hr) hq
    queues := queues_conclude rfl rfl
    entry := ⟨i, _, (congrFun hw.content i).trans (update_self ..), hev, rfl, rfl⟩ }

/-- A message that ends a transaction has its request answered. -/
theorem Completes.answers {x : PrivateCache} {s : ClientState} (h : Completes x d X t.next q)
    (hq : c.Wants X q) (hx : x.responses = c.responses) (hs : s.awaits = true)
    (ht : s.onMessage op fwd = some t) (hst : t.next.isStable = true) : Answers c d X op := by
  obtain ⟨m, hm, events, hd⟩ := h.queues
  obtain ⟨i, e, hc, hev, hctrl, hdirty⟩ := h.entry
  exact .inr ⟨q, hq, ⟨m, hm.trans hx, events, hd⟩, fun hop =>
    ⟨i, e, hc, permits_of_message hs ht hst hop hev hctrl hdirty⟩⟩

/-- A message about a line that is being fetched. -/
theorem handleMiss_minds (hf : Follows P c) (h : Rests P none c place)
    (hm : p.payload = .coherence msg) (hX : P.lineOf msg.addr = X)
    (hp : place X = .reserved i r (.miss m) ∨ place X = .waiting i r (.miss m))
    (hd : c.handleMiss (c.mshr.slots.handleAt r) X m (.message msg.op src msg.forwardTo) = .ok d) :
    Minds P {p} c d ∧ Answers c d X msg.op := by
  have hreg : c.mshr.slots.contentAt r = .filled X (.miss m) := by
    rcases hp with hp | hp <;> exact h.content_register (by rw [hp]; rfl)
  obtain ⟨t, ht, hd⟩ := bind_eq_ok.1 hd
  have ht := ClientState.transition_message.1 (mapError_eq_ok ht)
  let m' : ClientMiss := { m with state := t.next }
  have hset := Mshr.modify_sets hreg fun _ => ClientTransaction.miss m'
  let x : PrivateCache :=
    { c with mshr := c.mshr.modify (c.mshr.slots.handleAt r) fun _ => .miss m' }
  have hk : Kept c x := ⟨rfl, rfl, rfl, rfl, rfl, rfl⟩
  obtain ⟨o, k, hperf, -, ho⟩ := perform_kept (hf.kept hk) X t.actions
  have hwants : ∀ Y q, x.Wants Y q → c.Wants Y q := fun Y q hq =>
    (wants_iff_of_sets (v := .miss m') hset hreg rfl).1 hq
  change (let d := x.perform X t.actions
    if t.next.isStable && !t.next.isInvalid then
      d.completeFill (c.mshr.slots.handleAt r) X m' else .ok d) = .ok d at hd
  rw [hperf] at hd
  dsimp only at hd
  split at hd
  · next hgo =>
    rw [Bool.and_eq_true, Bool.not_eq_true'] at hgo
    -- the line has come, so it had been asked for
    have hres : place X = .reserved i r (.miss m) := by
      refine hp.resolve_right fun hp => ?_
      rw [h.unasked X i r m hp] at ht
      obtain ⟨-, rfl⟩ := ClientState.onMessage_I ht
      simp [ClientState.isInvalid] at hgo
    have hasked : m.state = .IE := by
      have hcalm := h.calm X
      rwa [hres] at hcalm
    obtain ⟨_, ⟨⟩, -, hway⟩ := miss_of_reserved h.toFiled hres
    have hfree : x.mshr.slots.contentAt r ≠ .free := by
      rw [hset.content, update_self]
      simp
    rw [show c.mshr.slots.handleAt r = x.mshr.slots.handleAt r from
      (Mshr.handleAt_modify ..).symm] at hd
    have hdone := completeFill_completes (c := { x with outlet := o, counters := k }) (m := m')
      (h.content_reserved hres) hway hfree hd
    exact ⟨minds_of_message hm hX ht (fun Y q hq => hwants Y q (hdone.wants Y q hq))
        (hdone.out.trans ho),
      hdone.answers ⟨r, _, hreg, rfl⟩ rfl (by rw [hasked]; rfl) ht hgo.1⟩
  · cases hd
    exact ⟨minds_of_message hm hX ht hwants ho, .inl rfl⟩

/-- A message that completes an upgrade. -/
theorem completeUpgrade_minds (h : Rests P none c place) (hm : p.payload = .coherence msg)
    (hX : P.lineOf msg.addr = X) {way : Handle} (hp : place X = .filed i e (some (r, .upgrade way q)))
    (ht : e.controller.onMessage msg.op msg.forwardTo = some t) (hst : t.next.isStable = true)
    {x : PrivateCache} (htable : x.table = (c.commit (c.table.slots.handleAt i) t.next).table)
    (hmshr : x.mshr = c.mshr) (hresp : x.responses = c.responses)
    (ho : x.out = c.out + P.clientPosts c.id X t.actions)
    (hd : x.completeUpgrade (c.mshr.slots.handleAt r) (c.table.slots.handleAt i) X t.next q = d) :
    Minds P {p} c d ∧ Answers c d X msg.op := by
  obtain ⟨hev, -⟩ := upgrade_of_filed h.toFiled hp
  have hw := commit_writes h.toFiled hp t.next
  rw [← htable] at hw
  have hreg := h.content_register (X := X) (r := r) (by rw [hp]; rfl)
  -- a line with a transaction is not at rest, and not on its way out
  have hs : e.controller.awaits = true := by
    have hcalm := h.calm X
    have hfit := h.fits X
    rw [hp] at hcalm hfit
    exact ClientState.awaits_of_passing hfit.2.2.1 (hcalm.trans hev)
  have hfree : x.mshr.slots.contentAt r ≠ .free := by
    rw [hmshr, hreg]
    simp
  have hdone := completeUpgrade_completes (s := t.next) (q := q)
    ((congrFun hw.content i).trans (update_self ..)) hev hfree
  rw [hw.handle, hmshr, hd] at hdone
  refine ⟨minds_of_message hm hX ht (fun Y q' hq => ?_) (hdone.out.trans ho),
    hdone.answers ⟨r, _, hreg, rfl⟩ hresp hs ht hst⟩
  have hx := hdone.wants Y q' hq
  unfold Wants at hx ⊢
  rwa [hmshr] at hx

/-- A message about a resident line. -/
theorem handleResident_minds (hf : Follows P c) (h : Rests P none c place)
    (hm : p.payload = .coherence msg) (hX : P.lineOf msg.addr = X)
    {tx : Option (Nat × ClientTransaction)} (hp : place X = .filed i e tx)
    (hd : c.handleResident X (c.table.slots.handleAt i) e
      (tx.map fun (r, v) => (c.mshr.slots.handleAt r, v.request))
      (.message msg.op src msg.forwardTo) = .ok d) :
    Minds P {p} c d ∧ Answers c d X msg.op := by
  obtain ⟨t, ht, hd⟩ := bind_eq_ok.1 hd
  have ht := ClientState.transition_message.1 (mapError_eq_ok ht)
  have hw := commit_writes h.toFiled hp t.next
  have hk : Kept c (c.commit (c.table.slots.handleAt i) t.next) :=
    ⟨rfl, rfl, rfl, hw.layout, rfl, rfl⟩
  obtain ⟨o, k, hperf, hk', ho⟩ := perform_kept (hf.kept hk) X t.actions
  let x : PrivateCache :=
    { c.commit (c.table.slots.handleAt i) t.next with outlet := o, counters := k }
  have hminds : Minds P {p} c x := minds_of_message hm hX ht (fun _ _ hq => hq) ho
  rw [hperf] at hd
  dsimp only at hd
  split at hd
  · split at hd
    · -- the line is gone, and the one that takes its way over is asked for
      have hfin := finishEviction_pursues (hf.kept (hk.trans hk'))
        (fun _ _ hq => h.aligned_of_wants hf hq) hd
      exact ⟨hminds.pursue rfl hfin, .inl hfin.responses⟩
    · cases hd
      exact ⟨hminds, .inl rfl⟩
  · cases tx with
    | none =>
      dsimp only [Option.map] at hd
      split at hd
      · cases hd
        exact ⟨minds_of_message hm hX ht (fun _ _ hq => hq) ho, .inl rfl⟩
      · cases hd
        exact ⟨hminds, .inl rfl⟩
    | some rv =>
      obtain ⟨r, v⟩ := rv
      dsimp only [Option.map] at hd
      split at hd
      · next hst =>
        cases hd
        obtain ⟨-, way, q, rfl⟩ := upgrade_of_filed h.toFiled hp
        exact completeUpgrade_minds h hm hX hp ht hst (x := x) rfl rfl rfl ho rfl
      · cases hd
        exact ⟨hminds, .inl rfl⟩

/-- What a message makes a cache do. -/
theorem handle_minds (hf : Follows P c) (h : Rests P none c place)
    (hm : p.payload = .coherence msg) (hd : c.handle msg = .ok d) :
    Minds P {p} c d ∧ Answers c d (P.lineOf msg.addr) msg.op := by
  have hline : c.table.lineAddr msg.addr = P.lineOf msg.addr := hf.lineOf msg.addr
  have hout := h.outstanding?_eq (P.lineOf msg.addr)
  have hres := h.resident?_eq (P.lineOf msg.addr)
  rw [hf.lineOf, P.lineOf_lineOf] at hres
  have hgo := hd
  unfold handle at hgo
  dsimp only at hgo
  rw [hline, hout, hres] at hgo
  cases hp : place (P.lineOf msg.addr) with
  | absent =>
    -- only a demand reaches a line that is not there, and it is answered all the same
    rw [handle_absent hf h.toFiled rfl hp] at hd
    split at hd <;> cases hd
    refine ⟨⟨fun _ _ hq => .inl hq, fun p' hp' => ?_⟩, .inl rfl⟩
    have hp' : p' ∈ ((c.outlet.post _ _).toList : Multiset Packet) := hp'
    rw [Outlet.toList_post, ← Multiset.coe_add] at hp'
    refine (Multiset.mem_add.1 hp').imp_right fun hp' X n hn => ?_
    obtain rfl := List.mem_singleton.1 hp'
    exact absurd hn (Plan.not_sharesWith_of_answers rfl rfl)
  | filed i e tx =>
    rw [hp] at hgo
    cases tx with
    | none => exact handleResident_minds hf h hm rfl hp hgo
    | some rv =>
      obtain ⟨r, v⟩ := rv
      obtain ⟨-, way, q, rfl⟩ := upgrade_of_filed h.toFiled hp
      exact handleResident_minds hf h hm rfl hp hgo
  | reserved i r v =>
    obtain ⟨m, rfl, -⟩ := miss_of_reserved h.toFiled hp
    rw [hp] at hgo
    exact handleMiss_minds hf h hm rfl (.inl hp) hgo
  | waiting i r v =>
    obtain ⟨m, rfl, -⟩ := miss_of_waiting h.toFiled hp
    rw [hp] at hgo
    exact handleMiss_minds hf h hm rfl (.inr hp) hgo

end PrivateCache

end CacheCoherence
