import CacheCoherence.Proofs.PrivateCache.Filed
import CacheCoherence.Proofs.Protocol.Acceptance

/-!
# Accesses — a processor request never faults

What a private cache makes of a request fits the places of its lines: it looks before it
acts, and what it found is still so when it acts. So a request leads to a run of accesses
and to no fault, whatever is outstanding.
-/

namespace CacheCoherence.PrivateCache

open Function (update update_self update_of_ne)

variable {P : Wiring} {K : Option Addr} {c d : PrivateCache}
  {place : Addr → Place ClientState ClientTransaction}
  {X V : Addr} {i r : Nat} {e : LineEntry ClientState} {t : ClientTransition} {m : ClientMiss}
  {q : Request} {fresh : Bool}

/-! ## What is decided -/

/-- A decision on the request `q` for the line `X` that fits the places of the lines. -/
inductive Sensible (c : PrivateCache) (place : Addr → Place ClientState ClientTransaction)
    (q : Request) (X : Addr) : Admission → Prop
  | park {reason : StallReason} {watch : Addr}
      (hb : c.backlog.Blocks (.ofPlaces c.mshr place) none
        { item := q, line := X, reason, watch, since := c.cycle }) :
      Sensible c place q X (.park reason watch)
  | hit {i : Nat} {e : LineEntry ClientState} {t : ClientTransition}
      (hp : place X = .filed i e none) (hev : e.evicting = false)
      (ht : e.controller.onProcessor q.access.operation = some t) (hs : t.next.isStable = true) :
      Sensible c place q X (.hit (c.table.slots.handleAt i) t.next)
  | upgrade {i r : Nat} {e : LineEntry ClientState} {t : ClientTransition}
      (hp : place X = .filed i e none) (hev : e.evicting = false)
      (ht : e.controller.onProcessor q.access.operation = some t) (hs : t.next.isStable = false)
      (hr : c.mshr.slots.contentAt r = .free) (hlt : r < c.mshr.slots.capacity) :
      Sensible c place q X (.upgrade (c.mshr.slots.handleAt r) (c.table.slots.handleAt i) t)
  | fill {i r : Nat} {table : LineTable ClientState} (hp : place X = .absent)
      (hi : c.table.InSet i X)
      (hc : c.table.slots.contentAt i = .free) (hw : c.table.Writes table i (.reserved X))
      (hr : c.mshr.slots.contentAt r = .free) (hlt : r < c.mshr.slots.capacity) :
      Sensible c place q X (.fill (c.mshr.slots.handleAt r) (c.table.slots.handleAt i) table)
  | replace {i r : Nat} {e : LineEntry ClientState} {V : Addr} (hp : place X = .absent)
      (hi : c.table.InSet i X)
      (hV : place V = .filed i e none) (hev : e.evicting = false)
      (hs : e.controller.isStable = true)
      (hr : c.mshr.slots.contentAt r = .free) (hlt : r < c.mshr.slots.capacity) :
      Sensible c place q X
        (.replace (c.mshr.slots.handleAt r) (c.table.slots.handleAt i) V e)

theorem admissionResident_sensible (h : Filed c place) (hp : place X = .filed i e none)
    (q : Request) :
    ∃ a, c.admissionResident q X (c.table.slots.handleAt i) e = .ok a ∧
      Sensible c place q X a := by
  unfold admissionResident
  by_cases hev : e.evicting = true
  · rw [if_pos hev]
    exact ⟨_, rfl, .park ⟨rfl, Blockers.leaving_of_filed hp hev⟩⟩
  · rw [if_neg hev]
    have hev : e.evicting = false := by simpa using hev
    have hfit : Place.Fits discipline c.table X (.filed i e none) := hp ▸ h.fits X
    obtain ⟨t, ht⟩ := ClientState.accepts_access (hfit.2 hev) q.access.operation
    rw [step_processor ht]
    show ∃ a, (if t.next.isStable then _ else _) = _ ∧ _
    by_cases hs : t.next.isStable = true
    · rw [if_pos hs]
      exact ⟨_, rfl, .hit hp hev ht hs⟩
    · rw [if_neg hs]
      have hs : t.next.isStable = false := by simpa using hs
      cases hfree : c.mshr.free? with
      | none => exact ⟨_, rfl, .park hfree⟩
      | some register =>
        obtain ⟨r, rfl, hr, hlt⟩ := h.registers.of_free? hfree
        exact ⟨_, rfl, .upgrade hp hev ht hs hr hlt⟩

theorem admissionAbsent_sensible (h : Filed c place) (hp : place X = .absent)
    (hX : c.table.lineAddr X = X) (q : Request) :
    Sensible c place q X (c.admissionAbsent X) := by
  unfold admissionAbsent
  cases hfree : c.mshr.free? with
  | none => exact .park hfree
  | some register =>
    obtain ⟨r, rfl, hr, hlt⟩ := h.registers.of_free? hfree
    dsimp only
    have hres := LineTable.reserve_reserves h.table X
    rw [hX] at hres
    generalize c.table.reserve X = answer at hres ⊢
    cases hres with
    | free hi hc hw => exact .fill hp hi hc hw hr hlt
    | busy hi hc => exact .park (.inl (Blockers.tracked_of_reserved h.toFiling hc))
    | @victim V e i hi hc =>
      dsimp only
      have hline : (c.table.lineOf? (c.table.slots.handleAt i)).getD X = V := by
        rw [LineTable.lineOf?, SlotTable.lineOf?_handleAt, hc]
        rfl
      have hentry : c.table.entry? (c.table.slots.handleAt i) = some e := by
        rw [LineTable.entry?, SlotTable.get?_handleAt, hc]
        rfl
      rw [hline, hentry]
      by_cases hgo : (!e.evicting && e.controller.isStable) = true
      · rw [Option.filter_some_pos (p := fun e : LineEntry ClientState =>
          !e.evicting && e.controller.isStable) hgo]
        simp at hgo
        obtain ⟨tx, hV⟩ := h.filed_of_content hc
        cases tx with
        | none => exact .replace hp hi hV hgo.1 hgo.2 hr hlt
        | some rv =>
          have hfit : Place.Fits discipline c.table V (.filed i e (some rv)) := hV ▸ h.fits V
          have := hfit.2.2.1
          simp [discipline, hgo.2] at this
      · rw [Option.filter_some_neg (p := fun e : LineEntry ClientState =>
          !e.evicting && e.controller.isStable) (by simpa using hgo)]
        exact .park (Blockers.busy_of_filled h.toFiling hc hgo)

/-- Every request is decided on, and the decision fits the places of the lines. -/
theorem admission_sensible (h : Guards P K c place) (hK : fresh = true → K = none)
    (q : Request) :
    ∃ a, c.admission q fresh = .ok a ∧ Sensible c place q (c.table.lineAddr q.addr) a := by
  unfold admission
  dsimp only
  split
  · -- there is a transaction on the line, or an earlier request for it is parked
    next hwait =>
    refine ⟨_, rfl, .park ⟨rfl, ?_⟩⟩
    rw [h.tracks_eq, Bool.or_eq_true, Bool.and_eq_true] at hwait
    rcases hwait with htr | ⟨hfresh, haddr⟩
    · exact .inl (Option.isSome_iff_ne_none.1 htr)
    · obtain rfl := hK hfresh
      exact (h.guarded.turn haddr).imp_right .inr
  · next hwait =>
    have hnone : (place (c.table.lineAddr q.addr)).register? = none := by
      have htr := h.tracks_eq (c.table.lineAddr q.addr)
      rw [htr] at hwait
      simp at hwait
      exact hwait.1
    have hres := h.resident?_eq (c.table.lineAddr q.addr)
    have hX : c.table.lineAddr (c.table.lineAddr q.addr) = c.table.lineAddr q.addr :=
      AddressLayout.lineAddr_lineAddr ..
    rw [hX] at hres
    rw [hres]
    cases hp : place (c.table.lineAddr q.addr) with
    | absent => exact ⟨_, rfl, admissionAbsent_sensible h.toFiled hp hX q⟩
    | filed i e tx =>
      rw [hp] at hnone
      obtain rfl : tx = none := hnone
      exact admissionResident_sensible h.toFiled hp q
    | reserved i r v => simp [hp, Place.register?] at hnone
    | waiting i r v => simp [hp, Place.register?] at hnone

/-! ## What is carried out -/

/-- A parked request has something in its way. -/
theorem park_reaches (h : Rests P K c place) (hX : P.lineOf q.addr = X)
    (hK : K = none ∨ K = some X) {reason : StallReason} {watch : Addr}
    (hb : c.backlog.Blocks (.ofPlaces c.mshr place) none
      { item := q, line := X, reason, watch, since := c.cycle }) :
    Reaches P c (view place, c.out) (c.park q X reason watch) := by
  have hguarded := h.guarded.parkAtHand hK hX.symm hb
  have hd : Rests P none (c.park q X reason watch) place :=
    ⟨⟨⟨h.toLedger, h.unasked⟩, hguarded⟩, h.calm⟩
  exact .of_eq hd ⟨rfl, rfl, rfl, rfl, rfl, rfl⟩ rfl

/-- A hit leaves the line where it is. -/
theorem serve_reaches (h : Rests P K c place) (hX : P.lineOf X = X) (hK : K = none ∨ K = some X)
    (hp : place X = .filed i e none) (hev : e.evicting = false)
    (ht : e.controller.onProcessor q.access.operation = some t)
    (hs : t.next.isStable = true) :
    Reaches P c (view place, c.out) (c.serve q X (c.table.slots.handleAt i) t.next) := by
  have hw := commit_writes h.toFiled hp t.next
  have htouch := LineTable.touch_touches (c.commit (c.table.slots.handleAt i) t.next).table
    (c.table.slots.handleAt i)
  have hlayout := htouch.layout.trans hw.layout
  have hled := (h.modify hp hw rfl fun _ => hs).touch htouch
  have hguarded := h.guarded.served hK
    (Blockers.ofPlaces_le_filed (f := committed e t.next) hp fun hev' => hev')
  have hview : (view place X).onProcessor q.access.operation = some t := by
    rw [view, hp]
    exact ht
  have hcalm := calm_update (X := X) (fun Y _ => h.calm Y)
    (calm_of_staying (i := i) (e := committed e t.next) (x := none) hev
      (ClientState.not_departs_of_access ht))
  refine .single ⟨⟨⟨hled, h.unasked.update (by simp)⟩, hguarded⟩, hcalm⟩
    ⟨rfl, rfl, rfl, hlayout, rfl, rfl⟩ hX hview (view_update ..) ?_
  -- the line waits for nothing after the access, so the access has sent nothing
  rw [ClientState.actions_of_onProcessor ht hs]
  exact (Multiset.add_zero c.out).symm

/-- An upgrade leaves the line where it is and opens a transaction on it. -/
theorem startUpgrade_reaches (hf : Follows P c) (h : Rests P K c place) (hX : P.lineOf X = X)
    (hK : K = none ∨ K = some X) (hp : place X = .filed i e none) (hev : e.evicting = false)
    (ht : e.controller.onProcessor q.access.operation = some t) (hs : t.next.isStable = false)
    (hr : c.mshr.slots.contentAt r = .free) (hlt : r < c.mshr.slots.capacity) :
    Reaches P c (view place, c.out)
      (c.startUpgrade q X (c.mshr.slots.handleAt r) (c.table.slots.handleAt i) t) := by
  have hw := commit_writes h.toFiled hp t.next
  have hm := Mshr.assign_sets hlt X (ClientTransaction.upgrade (c.table.slots.handleAt i) q)
  have htouch := LineTable.touch_touches (c.commit (c.table.slots.handleAt i) t.next).table
    (c.table.slots.handleAt i)
  have hled := (h.start hp hev hm hr hw hev hs rfl).touch htouch
  let d : PrivateCache :=
    { c.countMiss with
      mshr := c.mshr.assign (c.mshr.slots.handleAt r) X (.upgrade (c.table.slots.handleAt i) q)
      table := (c.commit (c.table.slots.handleAt i) t.next).table.touch (c.table.slots.handleAt i) }
  have hk : Kept c d := ⟨rfl, rfl, rfl, htouch.layout.trans hw.layout, rfl, rfl⟩
  have hguarded := h.guarded.enter (p := .filed i (committed e t.next) (some (r, _))) hK hm
    h.registers (by rw [hp, Ledger.leaves?_filed hev]) rfl
  have hcalm := fun tx => calm_update (X := X) (fun Y _ => h.calm Y)
    (calm_of_staying (i := i) (e := committed e t.next) (x := tx) hev
      (ClientState.not_departs_of_access ht))
  obtain ⟨o, k, hperf, hk', ho⟩ := perform_kept (hf.kept hk) X t.actions
  have hview : (view place X).onProcessor q.access.operation = some t := by
    rw [view, hp]
    exact ht
  have hstart : c.startUpgrade q X (c.mshr.slots.handleAt r) (c.table.slots.handleAt i) t
      = { d with outlet := o, counters := k } := hperf
  rw [hstart]
  exact .single ⟨⟨⟨hled, h.unasked.update (by simp)⟩, hguarded⟩, hcalm _⟩ (hk.trans hk') hX hview
    (view_update ..) ho

/-- An access to a line that is not there asks for it. -/
theorem asks_of_absent (a : Access) :
    ∃ t, ClientState.I.onProcessor a.operation = some t ∧ t.next = .IE := by
  cases a <;> exact ⟨_, rfl, rfl⟩

/-- A free way is reserved for the line, and the line is asked for. -/
theorem startFill_reaches (hf : Follows P c) (h : Rests P K c place) (hX : P.lineOf X = X)
    (hK : K = none ∨ K = some X) {table : LineTable ClientState} (hp : place X = .absent)
    (hi : c.table.InSet i X)
    (hc : c.table.slots.contentAt i = .free) (hw : c.table.Writes table i (.reserved X))
    (hr : c.mshr.slots.contentAt r = .free) (hlt : r < c.mshr.slots.capacity) :
    ∃ d, c.startFill q X (c.mshr.slots.handleAt r) (c.table.slots.handleAt i) table = .ok d ∧
      Reaches P c (view place, c.out) d := by
  obtain ⟨t, ht, hnext⟩ := asks_of_absent q.access
  let m : ClientMiss :=
    { state := .I, way := c.table.slots.handleAt i, request := q, awaitsVictim := false }
  have hm := Mshr.assign_sets hlt X (ClientTransaction.miss { m with state := t.next })
  have hled := h.reserve hp (by rw [hf.lineOf, hX]) hi hc hw hm hr rfl
  let d : PrivateCache :=
    { c.countMiss with
      table
      mshr := c.mshr.assign (c.mshr.slots.handleAt r) X (.miss { m with state := t.next }) }
  have hk : Kept c d := ⟨rfl, rfl, rfl, hw.layout, rfl, rfl⟩
  have hguarded := h.guarded.enter (p := .reserved i r _) hK hm h.registers (by rw [hp]; rfl) rfl
  have hcalm := calm_update (X := X) (p := .reserved i r (.miss { m with state := t.next }))
    (fun Y _ => h.calm Y) hnext
  obtain ⟨o, k, hperf, hk', ho⟩ := perform_kept (hf.kept hk) X t.actions
  refine ⟨{ d with outlet := o, counters := k }, ?_, ?_⟩
  · rw [startFill, issueFill, step_processor ht, ← hperf]
    rfl
  · have hview : (view place X).onProcessor q.access.operation = some t := by
      rw [view, hp]
      exact ht
    exact .single ⟨⟨⟨hled, h.unasked.update (by simp)⟩, hguarded⟩, hcalm⟩ (hk.trans hk') hX
      hview (view_update ..) ho

/-! ## Replacement -/

/-- An evicted line that nobody holds leaves its way to the line that waits for it, which
is now asked for. -/
theorem finishEviction_reaches (hf : Follows P c) (h : Guards P none c place)
    (hcalm : ∀ Y, Y ≠ V → Calm (place Y)) (hV : place V = .filed i e none) (hev : e.evicting = true)
    (hI : e.controller = .I) :
    ∃ d, c.finishEviction (c.table.slots.handleAt i) V = .ok d ∧
      Reaches P c (view place, c.out) d := by
  -- somebody waits for the way, since the line is being evicted
  obtain ⟨X, r, v, hpX, hne, hreg⟩ := h.waiter hV hev
  obtain ⟨m, rfl, haw, hway, hs⟩ := miss_of_waiting h.toFiled hpX
  have hfind := h.findSome?_eq (f := (·.waitingFor? (c.table.slots.handleAt i))) (x := m) hpX
    (by simp [ClientTransaction.waitingFor?, haw, hway]) fun w y hw => by
      cases w with
      | upgrade => cases hw
      | miss m' =>
        obtain ⟨⟨haw', hway'⟩, -⟩ := Option.ite_none_right_eq_some.1 hw
        simp [discipline, ClientTransaction.claim, haw', hway']
  have hline : c.table.lineAddr X = X := h.aligned_of hpX (by simp)
  obtain ⟨table, hreplace, hret⟩ := LineTable.replace?_retires (h.content_filed hV) X
  rw [hline] at hret
  obtain ⟨t, ht, hnext⟩ := asks_of_absent m.request.access
  let m' : ClientMiss := { m with
    state := t.next, way := table.slots.handleAt i, awaitsVictim := false }
  have hm := Mshr.assign_sets hreg X (ClientTransaction.miss m')
  have hled := h.replace hV hpX hret hm rfl
  let d : PrivateCache :=
    { c with table, mshr := c.mshr.assign (c.mshr.slots.handleAt r) X (.miss m') }
  have hk : Kept c d := ⟨rfl, rfl, rfl, hret.layout, rfl, rfl⟩
  have hguarded := h.guarded.replace hV hpX hm h.registers
  have hcalm' := calm_update (X := X) (p := .reserved i r (.miss m'))
    (fun Y _ => calm_update (p := .absent) hcalm trivial Y) hnext
  obtain ⟨o, k, hperf, hk', ho⟩ := perform_kept (hf.kept hk) X t.actions
  let d' : PrivateCache := { d with outlet := o, counters := k }
  refine ⟨d'.wake (.evictionDone V), ?_, ?_⟩
  · unfold finishEviction
    rw [hfind]
    dsimp only
    rw [hreplace]
    dsimp only
    rw [issueFill, hs, step_processor ht]
    exact congrArg (fun d : PrivateCache => Except.ok (d.wake (.evictionDone V))) hperf
  · have hview : (view place X).onProcessor m.request.access.operation = some t := by
      rw [view, hpX]
      show m.state.onProcessor _ = _
      rw [hs, ht]
    have hd : Rests P none (d'.wake (.evictionDone V)) _ :=
      ⟨⟨⟨hled, .update (.update h.unasked (by simp)) (by simp)⟩, hguarded⟩, hcalm'⟩
    -- the line that leaves is invalid already, so all that is seen is the access to `X`
    refine .single hd (hk.trans ⟨hk'.id, hk'.tags, hk'.managers, hk'.layout, hk'.link, hk'.inbound⟩)
      (by rw [← hf.lineOf, hline]) hview ?_ ho
    rw [view_update, view_update_same]
    · rfl
    · rw [hV]
      exact hI.symm

/-- An evicted line is gone, or it waits for the word that it may leave. -/
theorem evicted_reaches (hf : Follows P c) (h : Guards P none c place)
    (hcalm : ∀ Y, Y ≠ V → Calm (place Y)) (hV : place V = .filed i e none)
    (hev : e.evicting = true) (hout : e.controller = .I ∨ e.controller.departs = true) :
    ∃ d, (if e.controller.isInvalid then c.finishEviction (c.table.slots.handleAt i) V else .ok c)
        = .ok d ∧ Reaches P c (view place, c.out) d := by
  by_cases hI : e.controller.isInvalid = true
  · obtain ⟨d, hfin, hreach⟩ := finishEviction_reaches hf h hcalm hV hev
      (by simpa [ClientState.isInvalid] using hI)
    exact ⟨d, (if_pos hI).trans hfin, hreach⟩
  · have hdeparts : e.controller.departs = true :=
      hout.resolve_left (by simpa [ClientState.isInvalid] using hI)
    have hrests : Rests P none c place := by
      refine ⟨h, fun Y => ?_⟩
      by_cases hY : Y = V
      · rw [hY, hV]
        exact hdeparts.trans hev.symm
      · exact hcalm Y hY
    exact ⟨c, if_neg hI, .of_eq hrests (.refl c) rfl⟩

/-- A miss that waits for the victim in the way `i`. -/
def awaiting (c : PrivateCache) (q : Request) (i : Nat) : ClientMiss where
  state := .I
  way := c.table.slots.handleAt i
  request := q
  awaitsVictim := true

/-- The table once the victim in the way `i` has gone on to the state `next` to be evicted. -/
def evictingTable (c : PrivateCache) (i : Nat) (next : ClientState) : LineTable ClientState :=
  (c.table.modify (c.table.slots.handleAt i) fun e => { e with evicting := true }).modify
    (c.table.slots.handleAt i) (committed · next)

theorem evictingTable_writes (h : Filed c place) (hV : place V = .filed i e none)
    (next : ClientState) : c.table.Writes (c.evictingTable i next) i
      (.filled V (committed { e with evicting := true } next)) :=
  (LineTable.modify_writes (h.content_filed hV) _).modify _

/-- The line `X` waits in its register, and the victim `V` is to leave. -/
theorem guards_evicting (h : Rests P K c place) (hXX : c.table.lineAddr X = X)
    (hK : K = none ∨ K = some X) (hp : place X = .absent) (hi : c.table.InSet i X)
    (hV : place V = .filed i e none) (hev : e.evicting = false)
    (hr : c.mshr.slots.contentAt r = .free) (hlt : r < c.mshr.slots.capacity)
    (next : ClientState) (q : Request) (o : Outlet) (k : Counters) :
    Guards P none
      { c with
        mshr := c.mshr.assign (c.mshr.slots.handleAt r) X (.miss (c.awaiting q i))
        table := c.evictingTable i next
        outlet := o
        counters := k }
      (update (update place X (.waiting i r (.miss (c.awaiting q i)))) V
        (.filed i (committed { e with evicting := true } next) none)) := by
  have hm := Mshr.assign_sets hlt X (ClientTransaction.miss (c.awaiting q i))
  have hw := evictingTable_writes h.toFiled hV next
  have hled := h.evict hp hXX hV hev hi hm hr rfl hw rfl
  have hunasked : Unasked (update place X (.waiting i r (.miss (c.awaiting q i)))) :=
    h.unasked.update (by rintro _ _ _ ⟨⟩; rfl)
  exact ⟨⟨hled, hunasked.update nofun⟩, h.guarded.evict hK hm h.registers hp hV hev _⟩

/-- The victim starts to leave: a shared one at once, an exclusive one in a transaction of
its own. -/
theorem startReplacement_reaches (hf : Follows P c) (h : Rests P K c place)
    (hX : P.lineOf X = X) (hK : K = none ∨ K = some X) (hp : place X = .absent)
    (hi : c.table.InSet i X) (hV : place V = .filed i e none)
    (hev : e.evicting = false) (hs : e.controller.isStable = true)
    (hr : c.mshr.slots.contentAt r = .free) (hlt : r < c.mshr.slots.capacity) :
    ∃ d, c.startReplacement q X (c.mshr.slots.handleAt r) (c.table.slots.handleAt i) V e = .ok d ∧
      Reaches P c (view place, c.out) d := by
  have hVline : P.lineOf V = V := by
    rw [← hf.lineOf]
    exact h.aligned_of hV nofun
  obtain ⟨t, ht⟩ := ClientState.accepts_access hs .evict
  have hw := evictingTable_writes h.toFiled hV t.next
  let d : PrivateCache :=
    { c.countMiss with
      mshr := c.mshr.assign (c.mshr.slots.handleAt r) X (.miss (c.awaiting q i))
      table := c.evictingTable i t.next
      counters := { c.countMiss.counters with
        evictions := c.countMiss.counters.evictions + 1
        writebacks := c.countMiss.counters.writebacks + e.dirty.toNat } }
  have hk : Kept c d := ⟨rfl, rfl, rfl, hw.layout, rfl, rfl⟩
  obtain ⟨o, k, hperf, hk', ho⟩ := perform_kept (hf.kept hk) V t.actions
  let d' : PrivateCache := { d with outlet := o, counters := k }
  have hstart : c.startReplacement q X (c.mshr.slots.handleAt r) (c.table.slots.handleAt i) V e
      = if t.next.isInvalid then d'.finishEviction (c.table.slots.handleAt i) V else .ok d' := by
    have hgo : c.startReplacement q X (c.mshr.slots.handleAt r) (c.table.slots.handleAt i) V e
        = if t.next.isInvalid then
            (d.perform V t.actions).finishEviction (c.table.slots.handleAt i) V
          else .ok (d.perform V t.actions) := by
      rw [startReplacement, startEviction, step_processor ht]
      rfl
    rw [hgo, hperf]
  have hd' := guards_evicting h (by rw [hf.lineOf, hX]) hK hp hi hV hev hr hlt t.next q o k
  have hview : view (update (update place X (.waiting i r (.miss (c.awaiting q i)))) V
      (.filed i (committed { e with evicting := true } t.next) none))
      = update (view place) V t.next := by
    rw [view_update, view_update_same (by rw [hp]; rfl)]
    rfl
  have hstep : ClientView.Access P c.id (view place, c.out)
      (update (view place) V t.next, c.out + P.clientPosts c.id V t.actions) :=
    .mk hVline (show (view place V).onProcessor .evict = some t by rw [view, hV]; exact ht)
  rw [← hview, ← show d'.out = c.out + P.clientPosts c.id V t.actions from ho] at hstep
  rw [hstart]
  obtain ⟨d'', hgo, hreach⟩ := evicted_reaches (hf.kept (hk.trans hk')) hd'
    (calm_elsewhere (calm_update (p := .waiting i r (.miss (c.awaiting q i)))
      (fun Y _ => h.calm Y) trivial) V _) (update_self ..) rfl (ClientState.departs_of_evict ht)
  have hhandle : (c.evictingTable i t.next).slots.handleAt i = c.table.slots.handleAt i :=
    congrFun hw.handle i
  rw [hhandle] at hgo
  exact ⟨d'', hgo, .after (hk.trans hk') (.single hstep) hreach⟩

/-! ## Requests -/

/-- A request never faults, and what it does to the lines is a run of accesses. -/
theorem process_reaches (hf : Follows P c) (h : Rests P K c place) (fresh : Bool)
    (hK : K = none ∨ K = some (P.lineOf q.addr)) (hfresh : fresh = true → K = none) :
    ∃ d, c.process q fresh = .ok d ∧ Reaches P c (view place, c.out) d := by
  obtain ⟨a, ha, hsens⟩ := admission_sensible h.toGuards hfresh q
  have hX : P.lineOf (P.lineOf q.addr) = P.lineOf q.addr := P.lineOf_lineOf q.addr
  rw [hf.lineOf] at hsens
  have hproc : c.process q fresh = c.carryOut q (P.lineOf q.addr) a := by
    rw [process_eq, ha, ← hf.lineOf]
    rfl
  rw [hproc]
  cases hsens with
  | park hb => exact ⟨_, rfl, park_reaches h rfl hK hb⟩
  | hit hp hev ht hs => exact ⟨_, rfl, serve_reaches h hX hK hp hev ht hs⟩
  | upgrade hp hev ht hs hr hlt =>
    exact ⟨_, rfl, startUpgrade_reaches hf h hX hK hp hev ht hs hr hlt⟩
  | fill hp hi hc hw hr hlt => exact startFill_reaches hf h hX hK hp hi hc hw hr hlt
  | replace hp hi hV hev hs hr hlt =>
    exact startReplacement_reaches hf h hX hK hp hi hV hev hs hr hlt

/-- The first request to be tried again is at hand. -/
theorem rests_retrying (h : Rests P none c place) {x : Parked Request}
    {rest : List (Parked Request)} (hq : c.backlog.retries = x :: rest) :
    Rests P (some (P.lineOf x.item.addr)) (c.retrying rest) place := by
  have haddr := h.guarded.addressed x (.inr (hq ▸ List.mem_cons_self))
  exact ⟨⟨⟨h.toLedger, h.unasked⟩, haddr ▸ h.guarded.pop hq⟩, h.calm⟩

/-- Trying woken requests again never faults, either. -/
theorem drain_reaches (hf : Follows P c) (h : Rests P none c place) :
    ∃ d, c.drain = .done d ∧ Reaches P c (view place, c.out) d := by
  induction c using drain.induct generalizing place with
  | case1 c hq => exact ⟨c, drain_nil hq, .of_eq h (.refl c) rfl⟩
  -- not the case, since no request faults
  | case2 c x rest hq fault hp =>
    have hk : Kept c (c.retrying rest) := ⟨rfl, rfl, rfl, rfl, rfl, rfl⟩
    obtain ⟨d, hd, -⟩ := process_reaches (hf.kept hk) (rests_retrying h hq) false (.inr rfl)
      nofun
    rw [hp] at hd
    cases hd
  | case3 c x rest hq d hp hdec ih =>
    have hk' : Kept c (c.retrying rest) := ⟨rfl, rfl, rfl, rfl, rfl, rfl⟩
    obtain ⟨d', hd, hk, place', hrests, hrun⟩ :=
      process_reaches (hf.kept hk') (rests_retrying h hq) false (.inr rfl) nofun
    rw [hp] at hd
    cases hd
    obtain ⟨d', hdrain, hreach⟩ := ih (hf.kept (hk'.trans hk)) hrests
    refine ⟨d', ?_, .after hk' .refl (.after hk hrun hreach)⟩
    rw [drain_cons hq, hp, ← hdrain]
    exact Work.andThen_done ..

end CacheCoherence.PrivateCache
