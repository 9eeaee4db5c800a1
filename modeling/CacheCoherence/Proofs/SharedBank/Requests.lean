import CacheCoherence.Proofs.SharedBank.Deeds

/-!
# Requests — what a bank makes of the requests it holds back

A bank looks at the places of its lines before it acts on a request. What it does then is a
run of steps, or ends where the table of a stable line has no entry: that a request of the
hierarchy never meets such a line is a matter of the protocol and not of the bank.
-/

namespace CacheCoherence.SharedBank

open Function (update update_self update_of_ne)

variable {P : Wiring} {K : Option Addr} {c d : SharedBank}
  {place : Addr → Place ManagerLine ManagerTransaction}
  {X V : Addr} {i r : Nat} {e : LineEntry ManagerLine} {t : ManagerTransition} {m : ManagerMiss}
  {q : CoherenceMessage} {fresh : Bool}

/-- The work on `w` comes to its end or is stuck on the way, though not for want of a way. -/
def Ends (P : Wiring) (c : SharedBank) (w : BankView) (result : Except Fault SharedBank) : Prop :=
  (∃ d, result = .ok d ∧ Reaches P c w d) ∨
    ∃ f w', result = .error f ∧ f.losesWay = false ∧
      Relation.ReflTransGen (BankView.Step P c.id) w w' ∧ w'.Stuck P

theorem Reaches.ends {w : BankView} (h : Reaches P c w d) : Ends P c w (.ok d) :=
  .inl ⟨d, rfl, h⟩

/-! ## What is decided -/

/-- A decision on the request `q` for the line `X` that fits the places of the lines. -/
inductive Sensible (c : SharedBank) (place : Addr → Place ManagerLine ManagerTransaction)
    (q : CoherenceMessage) (X : Addr) : Admission → Prop
  | park {reason : StallReason} {watch : Addr}
      (hb : c.backlog.Blocks (.ofPlaces c.mshr place) none
        { item := q, line := X, reason, watch, since := c.cycle }) :
      Sensible c place q X (.park reason watch)
  | settle {i : Nat} {e : LineEntry ManagerLine} {t : ManagerTransition}
      (hp : place X = .filed i e none) (hev : e.evicting = false)
      (ht : e.controller.onRequest q.op q.src = some t) (hs : t.next.isStable = true) :
      Sensible c place q X (.settle (c.table.slots.handleAt i) t)
  | arbitrate {i r : Nat} {e : LineEntry ManagerLine} {t : ManagerTransition}
      (hp : place X = .filed i e none) (hev : e.evicting = false)
      (ht : e.controller.onRequest q.op q.src = some t) (hs : t.next.isStable = false)
      (hr : c.mshr.slots.contentAt r = .free) (hlt : r < c.mshr.slots.capacity) :
      Sensible c place q X (.arbitrate (c.mshr.slots.handleAt r) (c.table.slots.handleAt i) t)
  | drop (hp : place X = .absent) (hop : q.op.isEviction = true) : Sensible c place q X .drop
  | fetch {i r : Nat} {table : LineTable ManagerLine} (hp : place X = .absent)
      (hop : q.op.isEviction = false) (hi : c.table.InSet i X)
      (hc : c.table.slots.contentAt i = .free) (hw : c.table.Writes table i (.reserved X))
      (hr : c.mshr.slots.contentAt r = .free) (hlt : r < c.mshr.slots.capacity) :
      Sensible c place q X (.fetch (c.mshr.slots.handleAt r) (c.table.slots.handleAt i) table)
  | replace {i r : Nat} {e : LineEntry ManagerLine} {V : Addr} (hp : place X = .absent)
      (hop : q.op.isEviction = false) (hi : c.table.InSet i X)
      (hV : place V = .filed i e none) (hev : e.evicting = false)
      (hs : e.controller.isStable = true)
      (hr : c.mshr.slots.contentAt r = .free) (hlt : r < c.mshr.slots.capacity) :
      Sensible c place q X
        (.replace (c.mshr.slots.handleAt r) (c.table.slots.handleAt i) V e)

/-- A resident line settles a request, takes it up, or has no entry for it. -/
theorem admissionResident_sensible (h : Filed c place) (hp : place X = .filed i e none)
    (q : CoherenceMessage) :
    (∃ a, c.admissionResident q X (c.table.slots.handleAt i) e = .ok a ∧
      Sensible c place q X a) ∨
    ∃ f, c.admissionResident q X (c.table.slots.handleAt i) e = .error f ∧ f.losesWay = false ∧
      e.controller.isStable = true ∧ e.controller.onRequest q.op q.src = none := by
  unfold admissionResident
  by_cases hev : e.evicting = true
  · rw [if_pos hev]
    exact .inl ⟨_, rfl, .park ⟨rfl, Blockers.leaving_of_filed hp hev⟩⟩
  · rw [if_neg hev]
    have hev : e.evicting = false := by simpa using hev
    have hfit : Place.Fits discipline c.table X (.filed i e none) := hp ▸ h.fits X
    cases ht : e.controller.onRequest q.op q.src with
    | none =>
      right
      simp only [step, ManagerLine.transition, ht, Except.mapError]
      exact ⟨_, rfl, rfl, hfit.2 hev, trivial⟩
    | some t =>
      left
      rw [step_request ht]
      show ∃ a, (if t.next.isStable then _ else _) = _ ∧ _
      by_cases hs : t.next.isStable = true
      · rw [if_pos hs]
        exact ⟨_, rfl, .settle hp hev ht hs⟩
      · rw [if_neg hs]
        have hs : t.next.isStable = false := by simpa using hs
        cases hfree : c.mshr.free? with
        | none => exact ⟨_, rfl, .park hfree⟩
        | some register =>
          obtain ⟨r, rfl, hr, hlt⟩ := h.registers.of_free? hfree
          exact ⟨_, rfl, .arbitrate hp hev ht hs hr hlt⟩

theorem admissionAbsent_sensible (h : Filed c place) (hp : place X = .absent)
    (hX : c.table.lineAddr X = X) (q : CoherenceMessage) :
    Sensible c place q X (c.admissionAbsent q X) := by
  unfold admissionAbsent
  by_cases hop : q.op.isEviction = true
  · rw [if_pos hop]
    exact .drop hp hop
  rw [if_neg hop]
  have hop : q.op.isEviction = false := by simpa using hop
  cases hfree : c.mshr.free? with
  | none => exact .park hfree
  | some register =>
    obtain ⟨r, rfl, hr, hlt⟩ := h.registers.of_free? hfree
    dsimp only
    have hres := LineTable.reserve_reserves h.table X
    rw [hX] at hres
    generalize c.table.reserve X = answer at hres ⊢
    cases hres with
    | free hi hc hw => exact .fetch hp hop hi hc hw hr hlt
    | busy hi hc => exact .park (.inl (Blockers.tracked_of_reserved h.toFiling hc))
    | @victim V e i hi hc =>
      dsimp only
      have hline : (c.table.lineOf? (c.table.slots.handleAt i)).getD X = V := by
        rw [LineTable.lineOf?, SlotTable.lineOf?_handleAt, hc]
        rfl
      have hentry : c.table.entry? (c.table.slots.handleAt i) = some e := by
        rw [LineTable.entry?, SlotTable.get?_handleAt, hc]
        rfl
      rw [hline, hentry]
      by_cases hgo : (!e.evicting && e.controller.isStable) = true
      · rw [Option.filter_some_pos (p := fun e : LineEntry ManagerLine =>
          !e.evicting && e.controller.isStable) hgo]
        simp at hgo
        obtain ⟨tx, hV⟩ := h.filed_of_content hc
        cases tx with
        | none => exact .replace hp hop hi hV hgo.1 hgo.2 hr hlt
        | some rv =>
          have hfit : Place.Fits discipline c.table V (.filed i e (some rv)) := hV ▸ h.fits V
          have := hfit.2.2.1
          simp [discipline, hgo.2] at this
      · rw [Option.filter_some_neg (p := fun e : LineEntry ManagerLine =>
          !e.evicting && e.controller.isStable) (by simpa using hgo)]
        exact .park (Blockers.busy_of_filled h.toFiling hc hgo)

/-- Every request is decided on, unless its line is stable and has no entry for it. -/
theorem admission_sensible (h : Guards P K c place) (hK : fresh = true → K = none)
    (q : CoherenceMessage) (hX : c.table.lineAddr q.addr = X) :
    (∃ a, c.admission q fresh = .ok a ∧ Sensible c place q X a) ∨
    ∃ f i e, c.admission q fresh = .error f ∧ f.losesWay = false ∧ place X = .filed i e none ∧
      e.controller.isStable = true ∧ e.controller.onRequest q.op q.src = none := by
  have hXX : c.table.lineAddr X = X := by
    rw [← hX]
    exact AddressLayout.lineAddr_lineAddr ..
  unfold admission
  rw [hX]
  dsimp only
  split
  · next hwait =>
    refine .inl ⟨_, rfl, .park ⟨rfl, ?_⟩⟩
    rw [h.tracks_eq, Bool.or_eq_true, Bool.and_eq_true] at hwait
    rcases hwait with htr | ⟨hfresh, haddr⟩
    · exact .inl (Option.isSome_iff_ne_none.1 htr)
    · obtain rfl := hK hfresh
      exact (h.guarded.turn haddr).imp_right .inr
  · next hwait =>
    have hnone : (place X).register? = none := by
      rw [h.tracks_eq X] at hwait
      simp at hwait
      exact hwait.1
    have hres := h.resident?_eq X
    rw [hXX] at hres
    rw [hres]
    cases hp : place X with
    | absent => exact .inl ⟨_, rfl, admissionAbsent_sensible h.toFiled hp hXX q⟩
    | filed i e tx =>
      rw [hp] at hnone
      obtain rfl : tx = none := hnone
      rcases admissionResident_sensible h.toFiled hp q with hok | ⟨f, herr, hways, hs, ht⟩
      · exact .inl hok
      · exact .inr ⟨f, i, e, herr, hways, rfl, hs, ht⟩
    | reserved i r v => simp [hp, Place.register?] at hnone
    | waiting i r v => simp [hp, Place.register?] at hnone

/-! ## What is carried out -/

/-- A parked request has something in its way. -/
theorem park_leads (h : Rests P K c place) (hX : P.lineOf q.addr = X)
    (hK : K = none ∨ K = some X) {reason : StallReason} {watch : Addr}
    (hb : c.backlog.Blocks (.ofPlaces c.mshr place) none
      { item := q, line := X, reason, watch, since := c.cycle }) :
    Leads P c { held := {q} } place (c.park q X reason watch) where
  kept := ⟨rfl, rfl, rfl, rfl, rfl, rfl⟩
  does := {
    held := by
      rw [add_comm, Multiset.singleton_add]
      exact Backlog.items_park ..
    posts := (List.append_nil _).symm
    hits := by cases reason <;> rfl
    misses := by cases reason <;> rfl
    ignored := by cases reason <;> rfl
    dropped := by cases reason <;> rfl }
  rests := ⟨⟨⟨h.toLedger, h.proper⟩, h.guarded.parkAtHand hK hX.symm hb⟩, h.calm⟩

/-- A request that is settled at once. -/
theorem settle_leads (hf : Follows P c) (h : Rests P K c place) (hK : K = none ∨ K = some X)
    (hp : place X = .filed i e none) (hev : e.evicting = false) (hs : t.next.isStable = true)
    (q : CoherenceMessage) :
    Leads P c ({ hits := (!q.op.isEviction).toNat } ++ .acting P c.id X t.actions)
      (update place X (.filed i (committed e t) none))
      ((c.apply q X (c.table.slots.handleAt i) t).wake (.transactionDone X)) := by
  obtain ⟨o, k, happly, hl, hdoes⟩ := apply_eq hf q X (c.table.slots.handleAt i) t
  rw [happly]
  have hw := LineTable.modify_writes (h.content_filed hp) (committed · t)
  have hw' := hw.touch (LineTable.touch_touches _ (c.table.slots.handleAt i))
  have hled := h.modify hp hw' rfl fun _ => hs
  have hguarded := h.guarded.served hK
    (Blockers.ofPlaces_le_filed (f := committed e t) hp fun hev' => hev')
  have hcalm := calm_update (X := X) (fun Y _ => h.calm Y)
    (calm_of_staying (i := i) (e := committed e t) (x := none) hev)
  have hproper := proper_update (X := X) (p := .filed i (committed e t) none) h.proper fun hev' =>
    absurd (show e.evicting = true from hev') (by simp [hev])
  refine ⟨⟨rfl, rfl, rfl, hw'.layout, hl, rfl⟩, .wake ?_ _, ⟨⟨hled, hproper⟩, hguarded⟩, hcalm⟩
  exact hdoes.congr rfl rfl rfl

/-- A request that is taken up and waits for the clients' word. -/
theorem arbitrate_leads (hf : Follows P c) (h : Rests P K c place) (hK : K = none ∨ K = some X)
    (hp : place X = .filed i e none) (hev : e.evicting = false) (hs : t.next.isStable = false)
    (hr : c.mshr.slots.contentAt r = .free) (hlt : r < c.mshr.slots.capacity)
    (q : CoherenceMessage) :
    Leads P c ({ hits := (!q.op.isEviction).toNat } ++ .acting P c.id X t.actions)
      (update place X
        (.filed i (committed e t) (some (r, .resident (c.table.slots.handleAt i)))))
      (({ c with
          mshr := c.mshr.assign (c.mshr.slots.handleAt r) X (.resident (c.table.slots.handleAt i)) }
        : SharedBank).apply q X (c.table.slots.handleAt i) t) := by
  have hk : Kept c { c with
      mshr := c.mshr.assign (c.mshr.slots.handleAt r) X
        (.resident (c.table.slots.handleAt i)) } := ⟨rfl, rfl, rfl, rfl, rfl, rfl⟩
  obtain ⟨o, k, happly, hl, hdoes⟩ := apply_eq (hf.kept hk) q X (c.table.slots.handleAt i) t
  rw [happly]
  have hw := LineTable.modify_writes (h.content_filed hp) (committed · t)
  have hw' := hw.touch (LineTable.touch_touches _ (c.table.slots.handleAt i))
  have hm := Mshr.assign_sets hlt X (ManagerTransaction.resident (c.table.slots.handleAt i))
  have hled := h.start hp hev hm hr hw' hev hs rfl
  have hguarded := h.guarded.enter (p := .filed i (committed e t) (some (r, _))) hK hm
    h.registers (by rw [hp, Ledger.leaves?_filed hev]) rfl
  have hcalm := fun tx => calm_update (X := X) (fun Y _ => h.calm Y)
    (calm_of_staying (i := i) (e := committed e t) (x := tx) hev)
  have hproper := fun tx => proper_update (X := X) (p := .filed i (committed e t) tx) h.proper
    fun hev' => absurd (show e.evicting = true from hev') (by simp [hev])
  refine ⟨⟨rfl, rfl, rfl, hw'.layout, hl, rfl⟩, ?_, ⟨⟨hled, hproper _⟩, hguarded⟩, hcalm _⟩
  exact .start (hdoes.congr rfl rfl rfl) rfl rfl rfl

/-- A notice that is dropped. -/
theorem dropNotice_leads (h : Rests P K c place) (hK : K = none ∨ K = some X) :
    Leads P c { dropped := 1 } place (c.dropNotice X) where
  kept := ⟨rfl, rfl, rfl, rfl, rfl, rfl⟩
  does := .wake ⟨(add_zero _).symm, (List.append_nil _).symm, rfl, rfl, rfl, rfl⟩ _
  rests := ⟨⟨⟨h.toLedger, h.proper⟩, h.guarded.served hK (.refl _)⟩, h.calm⟩

/-- The miss that the request `q` opens. -/
def opened (q : CoherenceMessage) (way : Handle) (stage : FillStage) : ManagerMiss where
  controller := .initial
  way
  request := q
  stage

/-- A free way is reserved for the line, and memory is asked. -/
theorem startFetch_leads (hf : Follows P c) (h : Rests P K c place) (hX : P.lineOf X = X)
    (hK : K = none ∨ K = some X) {table : LineTable ManagerLine} (hp : place X = .absent)
    (hi : c.table.InSet i X) (hc : c.table.slots.contentAt i = .free)
    (hw : c.table.Writes table i (.reserved X)) (hr : c.mshr.slots.contentAt r = .free)
    (hlt : r < c.mshr.slots.capacity) (q : CoherenceMessage) :
    Leads P c ({ misses := 1 } ++ .asking P c.id X)
      (update place X
        (.reserved i r (.miss (opened q (c.table.slots.handleAt i) .awaitingMemory))))
      (c.startFetch q X (c.mshr.slots.handleAt r) (c.table.slots.handleAt i) table) := by
  let m := opened q (c.table.slots.handleAt i) .awaitingMemory
  have hm := Mshr.assign_sets hlt X (ManagerTransaction.miss m)
  have hled := h.reserve hp (by rw [hf.lineOf, hX]) hi hc hw hm hr rfl
  let d : SharedBank :=
    { c.countMiss with table, mshr := c.mshr.assign (c.mshr.slots.handleAt r) X (.miss m) }
  have hk : Kept c d := ⟨rfl, rfl, rfl, hw.layout, rfl, rfl⟩
  have hcounted : c.Does { misses := 1 } d :=
    ⟨(add_zero _).symm, (List.append_nil _).symm, rfl, rfl, rfl, rfl⟩
  obtain ⟨o, k, hmem, hl, hdoes⟩ := toMemory_eq (hf.kept hk) .read X
  have hstart : c.startFetch q X (c.mshr.slots.handleAt r) (c.table.slots.handleAt i) table
      = d.toMemory .read X := rfl
  rw [hstart, hmem]
  have hguarded := h.guarded.enter (p := .reserved i r (.miss m)) hK hm h.registers
    (by rw [hp]; rfl) rfl
  have hcalm := calm_update (X := X) (p := .reserved i r (.miss m)) (fun Y _ => h.calm Y)
    (by simp [Calm, m, opened])
  have hproper := proper_update (X := X) (p := .reserved i r (.miss m)) h.proper fun _ => ⟨rfl, rfl⟩
  exact ⟨⟨rfl, rfl, rfl, hw.layout, hl, rfl⟩, hcounted.trans hdoes, ⟨⟨hled, hproper⟩, hguarded⟩,
    hcalm⟩

/-! ## Replacement -/

/-- What becomes of the line `V`, which is being evicted and has the entry `e` in the way `i`: it
waits for its clients, or nobody holds it and it leaves its way to the line that waits for it. -/
inductive Vacates (P : Wiring) (me : NodeId) (place : Addr → Place ManagerLine ManagerTransaction)
    (V : Addr) (i : Nat) (e : LineEntry ManagerLine) :
    Deed → (Addr → Place ManagerLine ManagerTransaction) → Prop
  | wait (hs : e.controller.isStable = false) : Vacates P me place V i e {} place
  | leave {X : Addr} {r : Nat} {m : ManagerMiss} {way : Handle} (hI : e.controller.state = .I)
      (hne : X ≠ V) (hX : place X = .waiting i r (.miss m)) (hst : m.stage = .awaitingVictim) :
      Vacates P me place V i e (.returning P me V e.dirty ++ .asking P me X)
        (update (update place V .absent) X
          (.reserved i r (.miss { m with way, stage := .awaitingMemory })))

/-- An evicted line that nobody holds leaves its way to the line that waits for it, and
memory is asked for that one. -/
theorem finishEviction_leads (hf : Follows P c) (h : Guards P none c place)
    (hcalm : ∀ Y, Y ≠ V → Calm (place Y)) (hV : place V = .filed i e none) (hev : e.evicting = true)
    (hI : e.controller.state = .I) :
    ∃ d w place', c.finishEviction (c.table.slots.handleAt i) V = .ok d ∧
      Vacates P c.id place V i e w place' ∧ Leads P c w place' d := by
  -- somebody waits for the way, since the line is being evicted
  obtain ⟨X, r, v, hpX, hne, hreg⟩ := h.waiter hV hev
  obtain ⟨m, rfl, hst, hway, hinit, hclean⟩ := miss_of_waiting h.toFiled hpX
  have hfind := h.findSome?_eq (f := (·.waitingFor? (c.table.slots.handleAt i))) (x := m) hpX
    (by simp [ManagerTransaction.waitingFor?, hst, hway]) fun w y hw => by
      cases w with
      | resident => cases hw
      | miss m' =>
        obtain ⟨⟨hst', hway'⟩, -⟩ := Option.ite_none_right_eq_some.1 hw
        simp [discipline, ManagerTransaction.claim, hst', hway']
  have hXline : P.lineOf X = X := by rw [← hf.lineOf]; exact h.aligned_of hpX (by simp)
  obtain ⟨table, hreplace, hret⟩ := LineTable.replace?_retires (h.content_filed hV) X
  rw [hf.lineOf, hXline] at hret
  let m' : ManagerMiss := { m with way := table.slots.handleAt i, stage := .awaitingMemory }
  have hm := Mshr.assign_sets hreg X (ManagerTransaction.miss m')
  have hled := h.replace hV hpX hret hm rfl
  let d : SharedBank :=
    { c with table, mshr := c.mshr.assign (c.mshr.slots.handleAt r) X (.miss m') }
  have hk : Kept c d := ⟨rfl, rfl, rfl, hret.layout, rfl, rfl⟩
  obtain ⟨o, k, hwrite, hl, hdoes⟩ := writeBack_eq (hf.kept hk) V e.dirty
  -- the line is handed to memory if it is newer, then the one that waited is asked for
  have hk' : Kept c { d with outlet := o, counters := k } :=
    ⟨rfl, rfl, rfl, hret.layout, hl, rfl⟩
  obtain ⟨o', k', hread, hl', hdoes'⟩ := toMemory_eq (hf.kept hk') .read X
  have hfinish : c.finishEviction (c.table.slots.handleAt i) V
      = .ok (((d.writeBack V e.dirty).toMemory .read X).wake (.evictionDone V)) := by
    unfold finishEviction
    rw [hfind]
    dsimp only
    rw [hreplace]
  refine ⟨_, _, update (update place V .absent) X (.reserved i r (.miss m')), hfinish,
    .leave hI hne hpX hst, ?_⟩
  rw [hwrite, hread]
  have hguarded := h.guarded.replace hV hpX hm h.registers
  have hcalm' := calm_update (X := X) (p := .reserved i r (.miss m'))
    (fun Y _ => calm_update (p := .absent) hcalm trivial Y) (by simp [Calm, m'])
  have hproper := proper_update (X := X) (p := .reserved i r (.miss m'))
    (proper_update (X := V) (p := .absent) h.proper trivial) fun _ => ⟨hinit, hclean⟩
  have hall : c.Does (.returning P c.id V e.dirty ++ .asking P c.id X) _ :=
    .start (hdoes.trans hdoes') rfl rfl rfl
  exact ⟨⟨rfl, rfl, rfl, hret.layout, hl'.trans hl, rfl⟩, .wake (hall.congr rfl rfl rfl) _,
    ⟨⟨hled, hproper⟩, hguarded⟩, hcalm'⟩

/-- A line that starts to be replaced is given to nobody any more. -/
theorem state_of_onEvict {l : ManagerLine} (h : l.onEvict = some t) :
    t.next.state = .I ∨ t.next.state = .EIEvict ∨ t.next.state = .SIEvict := by
  unfold ManagerLine.onEvict at h
  split at h
  · next hs =>
    cases h
    exact .inl hs
  · obtain ⟨o, -, rfl⟩ := Option.map_eq_some_iff.1 h
    exact .inr (.inl rfl)
  · cases h
    dsimp only
    split
    · exact .inl rfl
    · exact .inr (.inr rfl)
  · cases h

theorem state_I_of_stable {l : ManagerLine}
    (h : l.state = .I ∨ l.state = .EIEvict ∨ l.state = .SIEvict) (hs : l.isStable = true) :
    l.state = .I := by
  rcases h with h | h | h
  · exact h
  · simp [ManagerLine.isStable, h, ManagerState.isStable] at hs
  · simp [ManagerLine.isStable, h, ManagerState.isStable] at hs

/-- Nobody may hold an evicted line any more when its way is given away; until then the bank
waits. -/
theorem evicted_leads (hf : Follows P c) (h : Guards P none c place)
    (hcalm : ∀ Y, Y ≠ V → Calm (place Y)) (hV : place V = .filed i e none)
    (hev : e.evicting = true) :
    ∃ d w place', (if e.controller.isStable then c.finishEviction (c.table.slots.handleAt i) V
        else .ok c) = .ok d ∧
      Vacates P c.id place V i e w place' ∧ Leads P c w place' d := by
  by_cases hs : e.controller.isStable = true
  · have hproper : Proper (.filed i e none) := hV ▸ h.proper V
    rw [if_pos hs]
    exact finishEviction_leads hf h hcalm hV hev (state_I_of_stable (hproper hev) hs)
  · have hrests : Rests P none c place := by
      refine ⟨h, fun Y => ?_⟩
      by_cases hY : Y = V
      · rw [hY, hV]
        exact fun _ => Bool.eq_false_iff.2 hs
      · exact hcalm Y hY
    exact ⟨c, _, _, if_neg hs, .wait (Bool.eq_false_iff.2 hs), .refl c, .refl c, hrests⟩

/-- The entry of a line that starts to be evicted with the transition `t`. -/
def evicting (e : LineEntry ManagerLine) (t : ManagerTransition) : LineEntry ManagerLine :=
  committed { e with evicting := true } t

/-- The table once the victim in the way `i` has taken the transition `t` that starts to
evict it. -/
def evictingTable (c : SharedBank) (i : Nat) (t : ManagerTransition) : LineTable ManagerLine :=
  (c.table.modify (c.table.slots.handleAt i) fun e => { e with evicting := true }).modify
    (c.table.slots.handleAt i) (committed · t)

theorem evictingTable_writes (h : Filed c place) (hV : place V = .filed i e none)
    (t : ManagerTransition) : c.table.Writes (c.evictingTable i t) i (.filled V (evicting e t)) :=
  (LineTable.modify_writes (h.content_filed hV) _).modify _

/-- The line `X` waits in its register, and the victim `V` is to leave. -/
theorem guards_evicting (h : Rests P K c place) (hXX : c.table.lineAddr X = X)
    (hK : K = none ∨ K = some X) (hp : place X = .absent) (hi : c.table.InSet i X)
    (hV : place V = .filed i e none) (hev : e.evicting = false)
    (hr : c.mshr.slots.contentAt r = .free) (hlt : r < c.mshr.slots.capacity)
    (ht : e.controller.onEvict = some t) {m : ManagerMiss}
    (hm : m = opened q (c.table.slots.handleAt i) .awaitingVictim) (o : Outlet) (k : Counters) :
    Guards P none
      { c with
        mshr := c.mshr.assign (c.mshr.slots.handleAt r) X (.miss m)
        table := c.evictingTable i t
        outlet := o
        counters := k }
      (update (update place X (.waiting i r (.miss m))) V (.filed i (evicting e t) none)) := by
  subst hm
  have hm := Mshr.assign_sets hlt X (ManagerTransaction.miss
    (opened q (c.table.slots.handleAt i) .awaitingVictim))
  have hw := evictingTable_writes h.toFiled hV t
  have hled := h.evict hp hXX hV hev hi hm hr rfl hw rfl
  have hproper := proper_update (X := V) (p := .filed i (evicting e t) none)
    (proper_update (X := X) (p := .waiting i r (.miss
      (opened q (c.table.slots.handleAt i) .awaitingVictim))) h.proper
      fun _ => ⟨rfl, rfl⟩) fun _ => state_of_onEvict ht
  exact ⟨⟨hled, hproper⟩, h.guarded.evict hK hm h.registers hp hV hev _⟩

/-- The missing line is counted and waits, the victim starts to leave, and goes at once if nobody
holds it. -/
theorem startReplacement_leads (hf : Follows P c) (h : Rests P K c place) (hX : P.lineOf X = X)
    (hK : K = none ∨ K = some X) (hp : place X = .absent) (hi : c.table.InSet i X)
    (hV : place V = .filed i e none) (hev : e.evicting = false)
    (hr : c.mshr.slots.contentAt r = .free) (hlt : r < c.mshr.slots.capacity)
    (ht : e.controller.onEvict = some t) {m : ManagerMiss}
    (hm : m = opened q (c.table.slots.handleAt i) .awaitingVictim) :
    ∃ d w place',
      c.startReplacement q X (c.mshr.slots.handleAt r) (c.table.slots.handleAt i) V e = .ok d ∧
      Vacates P c.id
        (update (update place X (.waiting i r (.miss m))) V (.filed i (evicting e t) none))
        V i (evicting e t) w place' ∧
      Leads P c ({ misses := 1 } ++ .acting P c.id V t.actions ++ w) place' d := by
  have hw := evictingTable_writes h.toFiled hV t
  let d : SharedBank :=
    { c.countMiss with
      mshr := c.mshr.assign (c.mshr.slots.handleAt r) X (.miss m)
      table := c.table.modify (c.table.slots.handleAt i) fun e => { e with evicting := true }
      counters := { c.countMiss.counters with evictions := c.countMiss.counters.evictions + 1 } }
  have hk : Kept c d :=
    ⟨rfl, rfl, rfl, (LineTable.modify_writes (h.content_filed hV) _).layout, rfl, rfl⟩
  have hcounted : c.Does { misses := 1 } d :=
    ⟨(add_zero _).symm, (List.append_nil _).symm, rfl, rfl, rfl, rfl⟩
  obtain ⟨o, k, hcommit, hl, hdoes⟩ := commit_eq (hf.kept hk) (c.table.slots.handleAt i) V t
  let d' : SharedBank := { d with table := c.evictingTable i t, outlet := o, counters := k }
  have hk' : Kept c d' := ⟨rfl, rfl, rfl, hw.layout, hl, rfl⟩
  have hhandle : d'.table.slots.handleAt i = c.table.slots.handleAt i := congrFun hw.handle i
  have hstart : c.startReplacement q X (c.mshr.slots.handleAt r) (c.table.slots.handleAt i) V e
      = if t.next.isStable then d'.finishEviction (d'.table.slots.handleAt i) V else .ok d' := by
    have hgo : c.startReplacement q X (c.mshr.slots.handleAt r) (c.table.slots.handleAt i) V e
        = if t.next.isStable then
            (d.commit (c.table.slots.handleAt i) V t).finishEviction (c.table.slots.handleAt i) V
          else .ok (d.commit (c.table.slots.handleAt i) V t) := by
      rw [startReplacement, startEviction, step_evict ht]
      subst hm
      rfl
    rw [hgo, hcommit, hhandle]
    rfl
  rw [hstart]
  have hd := guards_evicting h (by rw [hf.lineOf, hX]) hK hp hi hV hev hr hlt ht hm o k
  have hcalm : ∀ Y, Y ≠ V → Calm (update (update place X (.waiting i r (.miss m))) V
      (.filed i (evicting e t) none) Y) :=
    calm_elsewhere (calm_update (X := X) (p := .waiting i r (.miss m)) (fun Y _ => h.calm Y)
      trivial) V _
  obtain ⟨d'', w, place', hgo, hv, hleads⟩ :=
    evicted_leads (hf.kept hk') hd hcalm (update_self ..) rfl
  exact ⟨d'', w, place', hgo, hv, hleads.after hk' ((hcounted.trans hdoes).congr rfl rfl rfl)⟩

/-! ## Requests -/

/-- What a bank makes of the request `q` for the line `X`. -/
inductive Serves (P : Wiring) (me : NodeId) (place : Addr → Place ManagerLine ManagerTransaction)
    (q : CoherenceMessage) (X : Addr) :
    Deed → (Addr → Place ManagerLine ManagerTransaction) → Prop
  | park : Serves P me place q X { held := {q} } place
  /-- The resident line settles it, now or once its clients have answered. -/
  | serve {i : Nat} {e : LineEntry ManagerLine} {t : ManagerTransition}
      {tx : Option (Nat × ManagerTransaction)} (hp : place X = .filed i e none)
      (ht : e.controller.onRequest q.op q.src = some t) :
      Serves P me place q X
        ({ hits := (!q.op.isEviction).toNat } ++ .acting P me X t.actions)
        (update place X (.filed i (committed e t) tx))
  | drop (hp : place X = .absent) (hop : q.op.isEviction = true) :
      Serves P me place q X { dropped := 1 } place
  /-- The line is fetched into a free way. -/
  | fetch {i r : Nat} {way : Handle} (hp : place X = .absent) (hop : q.op.isEviction = false) :
      Serves P me place q X ({ misses := 1 } ++ .asking P me X)
        (update place X (.reserved i r (.miss (opened q way .awaitingMemory))))
  /-- The line is fetched into the way of the victim `V`, once that is gone. -/
  | replace {i r : Nat} {V : Addr} {e : LineEntry ManagerLine} {t : ManagerTransition} {w : Deed}
      {way : Handle} {place' : Addr → Place ManagerLine ManagerTransaction}
      (hp : place X = .absent) (hop : q.op.isEviction = false) (hV : place V = .filed i e none)
      (ht : e.controller.onEvict = some t)
      (hv : Vacates P me
        (update (update place X (.waiting i r (.miss (opened q way .awaitingVictim)))) V
          (.filed i (evicting e t) none)) V i (evicting e t) w place') :
      Serves P me place q X ({ misses := 1 } ++ .acting P me V t.actions ++ w) place'

/-- A request is served, or its line or the victim's is stable and has no entry for it. -/
theorem process_serves (hf : Follows P c) (h : Rests P K c place) (fresh : Bool)
    (hK : K = none ∨ K = some (P.lineOf q.addr)) (hfresh : fresh = true → K = none) :
    (∃ d w place', c.process q fresh = .ok d ∧
      Serves P c.id place q (P.lineOf q.addr) w place' ∧ Leads P c w place' d) ∨
    ∃ f, c.process q fresh = .error f ∧ f.losesWay = false ∧
      ∃ X i e, place X = .filed i e none ∧ e.controller.isStable = true ∧
        (X = P.lineOf q.addr ∧ e.controller.onRequest q.op q.src = none ∨
          place (P.lineOf q.addr) = .absent ∧ q.op.isEviction = false ∧
            e.controller.onEvict = none) := by
  have hX : P.lineOf (P.lineOf q.addr) = P.lineOf q.addr := P.lineOf_lineOf q.addr
  have hline := hf.lineOf q.addr
  rcases admission_sensible h.toGuards hfresh q hline with
    ⟨a, ha, hsens⟩ | ⟨f, i, e, ha, hways, hp, hs, ht⟩
  · have hproc : c.process q fresh = c.carryOut q (P.lineOf q.addr) a := by
      rw [process_eq, ha, ← hline]
      rfl
    rw [hproc]
    cases hsens with
    | park hb => exact .inl ⟨_, _, _, rfl, .park, park_leads h rfl hK hb⟩
    | settle hp hev ht hs =>
      exact .inl ⟨_, _, _, rfl, .serve hp ht, settle_leads hf h hK hp hev hs q⟩
    | arbitrate hp hev ht hs hr hlt =>
      exact .inl ⟨_, _, _, rfl, .serve hp ht, arbitrate_leads hf h hK hp hev hs hr hlt q⟩
    | drop hp hop => exact .inl ⟨_, _, _, rfl, .drop hp hop, dropNotice_leads h hK⟩
    | fetch hp hop hi hc hw hr hlt =>
      exact .inl ⟨_, _, _, rfl, .fetch hp hop, startFetch_leads hf h hX hK hp hi hc hw hr hlt q⟩
    | @replace i r e V hp hop hi hV hev hs hr hlt =>
      -- whether the victim can leave is up to its table
      cases ht : e.controller.onEvict with
      | none =>
        refine .inr ⟨.managerViolation c.id V { state := e.controller.state, event := .evict }, ?_,
          rfl, V, i, e, hV, hs, .inr ⟨hp, hop, ht⟩⟩
        simp [carryOut, startReplacement, startEviction, step, ManagerLine.transition, ht,
          Except.mapError]
        rfl
      | some t =>
        obtain ⟨d, w, place', hd, hv, hleads⟩ :=
          startReplacement_leads hf h hX hK hp hi hV hev hr hlt ht rfl
        exact .inl ⟨d, _, place', hd, .replace hp hop hV ht hv, hleads⟩
  · right
    refine ⟨f, ?_, hways, P.lineOf q.addr, i, e, hp, hs, .inl ⟨rfl, ht⟩⟩
    rw [process_eq, ha]
    rfl

/-! ## Runs of steps

Seen from outside all of this is a run of steps. -/

theorem recordAt_filed (i : Nat) (e : LineEntry ManagerLine)
    (tx : Option (Nat × ManagerTransaction)) :
    recordAt (.filed i e tx) = some { controller := e.controller, dirty := e.dirty } := rfl

theorem records_of_filed {tx : Option (Nat × ManagerTransaction)} (hp : place X = .filed i e tx) :
    records place X = some { controller := e.controller, dirty := e.dirty } := by
  rw [records, hp, recordAt_filed]

/-- What is seen of a bank once it has done `w` and left its lines as `place` says. -/
def seen (v : BankView) (w : Deed) (place : Addr → Place ManagerLine ManagerTransaction) :
    BankView where
  line := records place
  held := v.held + w.held
  out := v.out + (w.posts : Multiset Packet)

/-- One line changes, and packets are posted about it. -/
theorem seen_update {v : BankView} {w : Deed} {p : Place ManagerLine ManagerTransaction}
    (hv : v.line = records place) (hw : w.held = 0) :
    seen v w (update place X p) = v.put X (recordAt p) (w.posts : Multiset Packet) := by
  rw [seen, records_update, ← hv, hw, add_zero]
  rfl

/-- Of two pieces of work both are seen. -/
theorem seen_seen (v : BankView) (w w' : Deed)
    (place place' : Addr → Place ManagerLine ManagerTransaction) :
    seen (seen v w place) w' place' = seen v (w ++ w') place' := by
  rw [seen, seen, seen, Deed.held_append, Deed.posts_append, ← Multiset.coe_add, add_assoc,
    add_assoc]

variable {v : BankView} {w : Deed} {me : NodeId}
  {place' : Addr → Place ManagerLine ManagerTransaction}

/-- What is seen of a bank once its work is done. -/
theorem Leads.view_eq (h : Leads P c w place' d) :
    d.view place' = seen (c.view place) w place' := by
  rw [view, h.does.held, h.does.out h.kept.link, ← Multiset.coe_add]
  rfl

theorem Leads.reaches (h : Leads P c w place' d)
    (hrun : Relation.ReflTransGen (BankView.Step P c.id) v (seen (c.view place) w place')) :
    Reaches P c v d :=
  .run h.rests h.kept hrun h.view_eq

/-- A line that nobody holds is forgotten, and the one that waited for its way is asked for. -/
theorem Vacates.run (hline : v.line = records place)
    (haligned : ∀ Y, place Y ≠ .absent → P.lineOf Y = Y) (hV : place V = .filed i e none)
    (h : Vacates P me place V i e w place') :
    Relation.ReflTransGen (BankView.Step P me) v (seen v w place') := by
  cases h with
  | wait hs =>
    rw [seen, ← hline]
    simp [Relation.ReflTransGen.refl]
  | @leave X r m way hI hne hX hst =>
    have hback : ((Deed.returning P me V e.dirty).posts : Multiset Packet)
        = if e.dirty then {P.memoryPacket me .write V} else 0 := by
      rw [Deed.returning]
      cases e.dirty <;> rfl
    have hforget : BankView.Step P me v
        (seen v (.returning P me V e.dirty) (update place V .absent)) := by
      rw [seen_update hline rfl, hback]
      refine .forget (haligned V (by simp [hV])) ?_ hI
      rw [hline, records_of_filed hV]
    have hask : BankView.Step P me (seen v (.returning P me V e.dirty) (update place V .absent)) _ :=
      .ask (haligned X (by simp [hX])) (l := m.controller) (d := m.dirty) (m := m.request) (by
        show recordAt (update place V .absent X) = _
        rw [update_of_ne hne, hX, recordAt, hst]
        rfl)
    rw [← seen_seen v _ _ (update place V .absent), seen_update rfl rfl]
    exact .tail (.single hforget) hask

/-- A request for a line that is to be fetched is kept with the line from now on. -/
theorem step_enrol (hline : v.line = records place) (hq : P.lineOf q.addr = X)
    (hp : place X = .absent) (hop : q.op.isEviction = false) (i r : Nat) (way : Handle) :
    BankView.Step P me (v.hold q) (seen v { misses := 1 }
      (update place X (.waiting i r (.miss (opened q way .awaitingVictim))))) := by
  have hnone : v.line X = none := by
    rw [hline, records, hp]
    rfl
  rw [seen_update hline rfl]
  exact .enrol hq hnone hop

/-- The line is fetched at once. -/
theorem fetch_run (hline : v.line = records place) (hq : P.lineOf q.addr = X)
    (hp : place X = .absent) (hop : q.op.isEviction = false) (i r : Nat) (way : Handle) :
    Relation.ReflTransGen (BankView.Step P me) (v.hold q)
      (seen v ({ misses := 1 } ++ .asking P me X)
        (update place X (.reserved i r (.miss (opened q way .awaitingMemory))))) := by
  have hX : P.lineOf X = X := by rw [← hq, P.lineOf_lineOf]
  have hask : BankView.Step P me (seen v { misses := 1 }
      (update place X (.waiting i r (.miss (opened q way .awaitingVictim))))) _ :=
    .ask hX (l := .initial) (d := false) (m := q) (by
      show recordAt (update place X _ X) = _
      rw [update_self]
      rfl)
  have hasked := seen_update (X := X) (w := .asking P me X)
    (p := .reserved i r (.miss (opened q way .awaitingMemory)))
    (v := seen v { misses := 1 }
      (update place X (.waiting i r (.miss (opened q way .awaitingVictim))))) rfl rfl
  rw [seen_seen, Function.update_idem] at hasked
  rw [hasked]
  exact .tail (.single (step_enrol hline hq hp hop i r way)) hask

/-- The line waits for the way of the victim, which starts to leave. -/
theorem replace_run {w : Deed} (hline : v.line = records place)
    (haligned : ∀ Y, place Y ≠ .absent → P.lineOf Y = Y) (hq : P.lineOf q.addr = X)
    (hp : place X = .absent) (hop : q.op.isEviction = false) (hV : place V = .filed i e none)
    (ht : e.controller.onEvict = some t) (r : Nat) (way : Handle)
    (hv : Vacates P me (update (update place X (.waiting i r (.miss
      (opened q way .awaitingVictim)))) V (.filed i (evicting e t) none)) V i (evicting e t) w
        place') :
    Relation.ReflTransGen (BankView.Step P me) (v.hold q)
      (seen v ({ misses := 1 } ++ .acting P me V t.actions ++ w) place') := by
  have hX : P.lineOf X = X := by rw [← hq, P.lineOf_lineOf]
  have hne : V ≠ X := by
    rintro rfl
    rw [hp] at hV
    cases hV
  have hVline := haligned V (by simp [hV])
  have hevict : BankView.Step P me (seen v { misses := 1 }
      (update place X (.waiting i r (.miss (opened q way .awaitingVictim))))) _ :=
    .evict hVline (l := e.controller) (d := e.dirty) (by
      show recordAt (update place X _ V) = _
      rw [update_of_ne hne, hV]
      rfl) ht
  have hleaving := seen_update (X := V) (w := .acting P me V t.actions)
    (p := .filed i (evicting e t) none)
    (v := seen v { misses := 1 }
      (update place X (.waiting i r (.miss (opened q way .awaitingVictim))))) rfl rfl
  have hrest := hv.run (v := seen v ({ misses := 1 } ++ .acting P me V t.actions) _) rfl
    (fun Y hY => ?_) (update_self ..)
  · rw [seen_seen] at hleaving hrest
    rw [hleaving] at hrest
    exact .trans (.tail (.single (step_enrol hline hq hp hop i r way)) hevict) hrest
  · by_cases hYV : Y = V
    · rwa [hYV]
    · rw [update_of_ne hYV] at hY
      by_cases hYX : Y = X
      · rwa [hYX]
      · rw [update_of_ne hYX] at hY
        exact haligned Y hY

/-- A request that is served is consumed. -/
theorem Serves.run (hline : v.line = records place)
    (haligned : ∀ Y, place Y ≠ .absent → P.lineOf Y = Y) (hq : P.lineOf q.addr = X)
    (h : Serves P me place q X w place') :
    Relation.ReflTransGen (BankView.Step P me) (v.hold q) (seen v w place') := by
  cases h with
  | park =>
    have hheld : seen v { held := {q} } place = v.hold q := by
      rw [seen, ← hline, add_comm, Multiset.singleton_add]
      simp [BankView.hold]
    rw [hheld]
  | @serve i e t tx hp ht =>
    rw [seen_update hline rfl]
    refine .single (.serve hq (by rw [← hq, P.lineOf_lineOf]) ?_ ht)
    rw [hline, records_of_filed hp]
  | drop hp hop =>
    have hdropped : seen v { dropped := 1 } place = v := by
      rw [seen, ← hline]
      simp
    have hnone : v.line X = none := by
      rw [hline, records, hp]
      rfl
    rw [hdropped]
    exact .single (.drop hq hnone hop)
  | fetch hp hop => exact fetch_run hline hq hp hop _ _ _
  | replace hp hop hV ht hv => exact replace_run hline haligned hq hp hop hV ht _ _ hv

theorem Follows.aligned (hf : Follows P c) (h : Filed c place) :
    ∀ Y, place Y ≠ .absent → P.lineOf Y = Y := fun Y hY => by
  rw [← hf.lineOf]
  exact h.aligned Y hY

/-- A request leads to a run of steps, which may be stuck in the end. -/
theorem process_ends (hf : Follows P c) (h : Rests P K c place) (fresh : Bool)
    (hK : K = none ∨ K = some (P.lineOf q.addr)) (hfresh : fresh = true → K = none) :
    Ends P c ((c.view place).hold q) (c.process q fresh) := by
  rcases process_serves hf h fresh hK hfresh with
    ⟨d, w, place', hd, hserves, hleads⟩ | ⟨f, hd, hways, X, i, e, hp, hs, hstuck⟩
  · rw [hd]
    exact (hleads.reaches (hserves.run rfl (hf.aligned h.toFiled) rfl)).ends
  · right
    rcases hstuck with ⟨rfl, ht⟩ | ⟨habsent, hop, ht⟩
    · -- no table entry: the request is still held when the bank is stuck
      have hq : q ∈ ((c.view place).hold q).held := by
        show q ∈ q ::ₘ (c.view place).held
        exact Multiset.mem_cons_self ..
      exact ⟨f, (c.view place).hold q, hd, hways, .refl,
        .inl ⟨q, hq, e.controller, e.dirty, records_of_filed hp, hs, ht⟩⟩
    · -- the missing line is enrolled, and the victim cannot leave
      have hnone : records place (P.lineOf q.addr) = none := by rw [records, habsent]; rfl
      refine ⟨f, _, hd, hways, .single (.enrol rfl hnone hop),
        .inr ⟨X, e.controller, e.dirty, ?_, hs, ht⟩⟩
      rw [BankView.put_line_ne _ (by rintro rfl; rw [hp] at habsent; cases habsent)]
      exact records_of_filed hp

/-- The first request to be tried again is held besides the others. -/
theorem view_retrying {x : Parked CoherenceMessage} {rest : List (Parked CoherenceMessage)}
    (hq : c.backlog.retries = x :: rest) :
    c.view place = ((c.retrying rest).view place).hold x.item := by
  rw [view, Backlog.items_cons hq]
  rfl

/-- The first request to be tried again is at hand. -/
theorem rests_retrying (h : Rests P none c place) {x : Parked CoherenceMessage}
    {rest : List (Parked CoherenceMessage)} (hq : c.backlog.retries = x :: rest) :
    Rests P (some (P.lineOf x.item.addr)) (c.retrying rest) place := by
  have haddr := h.guarded.addressed x (.inr (hq ▸ List.mem_cons_self))
  exact ⟨⟨⟨h.toLedger, h.proper⟩, haddr ▸ h.guarded.pop hq⟩, h.calm⟩

/-- Trying woken requests again is a run of steps, which may be stuck in the end. -/
theorem drain_ends (hf : Follows P c) (h : Rests P none c place) :
    (∃ d, c.drain = .done d ∧ Reaches P c (c.view place) d) ∨
      (∃ f, c.drain.fault = some f ∧ f.losesWay = false) ∧
        ∃ w', Relation.ReflTransGen (BankView.Step P c.id) (c.view place) w' ∧ w'.Stuck P := by
  induction c using drain.induct generalizing place with
  | case1 c hq => exact .inl ⟨c, drain_nil hq, .of_eq h (.refl c) rfl⟩
  -- the first request fails, and so does the whole
  | case2 c x rest hq fault hp =>
    right
    have hk : Kept c (c.retrying rest) := ⟨rfl, rfl, rfl, rfl, rfl, rfl⟩
    rcases process_ends (hf.kept hk) (rests_retrying h hq) false (.inr rfl) nofun with
      ⟨d, hd, -⟩ | ⟨f, w', hf', hways, hrun, hstuck⟩
    · rw [hp] at hd
      cases hd
    · rw [hp] at hf'
      cases hf'
      refine ⟨⟨fault, ?_, hways⟩, w', by rwa [view_retrying hq], hstuck⟩
      rw [drain_cons hq, hp]
      rfl
  -- it is taken up, and the others are tried from where that has led
  | case3 c x rest hq d hp hdec ih =>
    have hk' : Kept c (c.retrying rest) := ⟨rfl, rfl, rfl, rfl, rfl, rfl⟩
    have hdrain : c.drain = d.drain := by
      rw [drain_cons hq, hp]
      exact Work.andThen_done ..
    rcases process_ends (hf.kept hk') (rests_retrying h hq) false (.inr rfl) nofun with
      ⟨d', hd, hk, place', hrests, hrun⟩ | ⟨f, w', hf', -⟩
    · rw [hp] at hd
      cases hd
      rw [hdrain, view_retrying hq]
      rcases ih (hf.kept (hk'.trans hk)) hrests with ⟨d', hd', hreach⟩ | ⟨hfault, w', hrun', hstuck⟩
      · exact .inl ⟨d', hd', .after (hk'.trans hk) hrun hreach⟩
      · refine .inr ⟨hfault, w', hrun.trans ?_, hstuck⟩
        rwa [hk.id] at hrun'
    · rw [hp] at hf'
      cases hf'

end CacheCoherence.SharedBank
