import CacheCoherence.Proofs.SharedBank.Requests

/-!
# Replies — what a reply does to the lines of a shared bank

The reply of a client meets the one record of its line, wherever the line stands, and
moves it as the table says. Memory's reply settles the request that asked for the line.
Whatever the bank then does, the next eviction's end included, is a run of steps.
-/

namespace CacheCoherence

open Function (update update_self update_of_ne)

namespace ManagerLine

variable {l : ManagerLine} {op : Opcode} {src : NodeId} {t : ManagerTransition}

/-- A line that is being evicted stays so until nobody holds it. -/
theorem evicting_of_onReply
    (hs : l.state = .I ∨ l.state = .EIEvict ∨ l.state = .SIEvict)
    (h : l.onReply op src = some t) :
    t.next.state = .I ∨ t.next.state = .EIEvict ∨ t.next.state = .SIEvict := by
  unfold onReply at h
  rcases hs with hs | hs | hs <;> rw [hs] at h <;> cases op <;> simp at h
  · subst h
    exact .inl rfl
  · subst h
    exact .inl rfl
  · obtain ⟨l', hl', rfl⟩ := h
    dsimp only
    split
    · exact .inl rfl
    · unfold acknowledged? at hl'
      split at hl' <;> cases hl'
      exact .inr (.inr hs)

end ManagerLine

namespace SharedBank

variable {P : Wiring} {c d : SharedBank} {place : Addr → Place ManagerLine ManagerTransaction}
  {X V : Addr} {i r : Nat} {e : LineEntry ManagerLine} {t : ManagerTransition} {m : ManagerMiss}
  {op : Opcode} {src : NodeId}

/-! ## Lines that are being fetched -/

/-- What becomes of the line `X` whose record takes the transition `t`. -/
inductive Heeds (P : Wiring) (me : NodeId) (place : Addr → Place ManagerLine ManagerTransaction)
    (X : Addr) (t : ManagerTransition) :
    Deed → (Addr → Place ManagerLine ManagerTransaction) → Prop
  /-- Its entry changes, and its transaction may be over. -/
  | settle {i : Nat} {e : LineEntry ManagerLine} {tx tx' : Option (Nat × ManagerTransaction)}
      (hp : place X = .filed i e tx) :
      Heeds P me place X t (.acting P me X t.actions)
        (update place X (.filed i (committed e t) tx'))
  /-- It is being evicted. -/
  | leave {i : Nat} {e : LineEntry ManagerLine} {w : Deed}
      {place' : Addr → Place ManagerLine ManagerTransaction} (hp : place X = .filed i e none)
      (hv : Vacates P me (update place X (.filed i (committed e t) none)) X i (committed e t) w
        place') :
      Heeds P me place X t (.acting P me X t.actions ++ w) place'
  /-- It is being fetched, and its data is there from now on. -/
  | advance {i r : Nat} {m : ManagerMiss} (hp : place X = .reserved i r (.miss m)) :
      Heeds P me place X t (.acting P me X t.actions)
        (update place X (.reserved i r (.miss { m with
          controller := t.next, dirty := m.dirty || t.returnsData, stage := .awaitingClients })))
  /-- It is filed. -/
  | fill {i r : Nat} {m : ManagerMiss} (hp : place X = .reserved i r (.miss m))
      (hs : t.next.isStable = true) :
      Heeds P me place X t (.acting P me X t.actions)
        (update place X (.filed i
          { haveData := true, dirty := m.dirty || t.returnsData, evicting := false
            controller := t.next } none))

/-- The entry of a line that has been fetched. -/
def filledEntry (m : ManagerMiss) : LineEntry ManagerLine :=
  { haveData := true, dirty := m.dirty, evicting := false, controller := m.controller }

/-- A fetched line is filed, and what waited goes on. -/
theorem completeFill_leads (h : Guards P none c place) (hcalm : ∀ Y, Y ≠ X → Calm (place Y))
    (hp : place X = .reserved i r (.miss m)) (hs : m.controller.isStable = true) :
    ∃ d, c.completeFill (c.mshr.slots.handleAt r) X m = .ok d ∧
      Leads P c {} (update place X (.filed i (filledEntry m) none)) d := by
  obtain ⟨_, ⟨⟩, -, hway⟩ := miss_of_reserved h.toFiled hp
  obtain ⟨table, hinstall, hw⟩ := LineTable.install?_writes (h.content_reserved hp) (filledEntry m)
  have hrel := Mshr.release_sets (m := c.mshr) (r := r)
    (by rw [h.content_register (X := X) (r := r) (v := .miss m) (by rw [hp]; rfl)]; exact nofun)
  have hled := h.fill hp hrel hw rfl hs
  let d : SharedBank := { c with table, mshr := (c.mshr.release (c.mshr.slots.handleAt r)).2 }
  let d' : SharedBank := (d.wake .registerReleased).wake (.transactionDone X)
  have hd : Rests P none d' (update place X (.filed i (filledEntry m) none)) :=
    ⟨⟨⟨hled, proper_update h.proper (by nofun)⟩, h.guarded.leave _ (by rw [hp]; rfl)⟩,
      calm_update hcalm (calm_of_staying rfl)⟩
  have hdoes : c.Does {} d := (Does.refl c).congr rfl rfl rfl
  refine ⟨d', ?_, ⟨rfl, rfl, rfl, hw.layout, rfl, rfl⟩, .wake (hdoes.wake _) _, hd⟩
  rw [filledEntry] at hinstall
  unfold completeFill
  dsimp only
  rw [hway, hinstall]
  rfl

/-- An event that the table of a line being fetched accepts. -/
theorem advanceMiss_leads (hf : Follows P c) (h : Rests P none c place)
    (hp : place X = .reserved i r (.miss m)) {event : ManagerEvent}
    (ht : c.step X m.controller event = .ok t) :
    ∃ d w place', c.advanceMiss (c.mshr.slots.handleAt r) X m event = .ok d ∧
      Heeds P c.id place X t w place' ∧ Leads P c w place' d := by
  obtain ⟨_, ⟨⟩, hst, -⟩ := miss_of_reserved h.toFiled hp
  let m' : ManagerMiss :=
    { m with
      controller := t.next
      dirty := m.dirty || t.returnsData
      stage := .awaitingClients }
  have hset := Mshr.modify_sets (h.content_register (X := X) (r := r) (v := .miss m)
    (by rw [hp]; rfl)) fun _ => ManagerTransaction.miss m'
  have hclaim : ManagerTransaction.claim (.miss m') = ManagerTransaction.claim (.miss m) := by
    simp [ManagerTransaction.claim, m', hst]
  have hled := h.advance hp hset hclaim
  let d₀ : SharedBank :=
    { c with mshr := c.mshr.modify (c.mshr.slots.handleAt r) fun _ => .miss m' }
  have hk₀ : Kept c d₀ := ⟨rfl, rfl, rfl, rfl, rfl, rfl⟩
  obtain ⟨o, k, hperf, hl, hdoes⟩ := perform_eq (hf.kept hk₀) X t.actions
  let d : SharedBank := { d₀ with outlet := o, counters := k }
  have hk : Kept c d := ⟨rfl, rfl, rfl, rfl, hl, rfl⟩
  have hw : c.Does (.acting P c.id X t.actions) d := .start hdoes rfl rfl rfl
  let place' := update place X (.reserved i r (.miss m'))
  have hd : Guards P none d place' :=
    ⟨⟨hled, proper_update h.proper fun hne => absurd rfl hne⟩,
      h.guarded.advance hset h.registers (by rw [hp]; rfl) rfl⟩
  have hcalm : ∀ Y, Y ≠ X → Calm (place' Y) := calm_elsewhere h.calm X _
  have hadv : c.advanceMiss (c.mshr.slots.handleAt r) X m event
      = if t.next.isStable then d.completeFill (c.mshr.slots.handleAt r) X m' else .ok d := by
    have hgo : c.advanceMiss (c.mshr.slots.handleAt r) X m event
        = if t.next.isStable then
            (d₀.perform X t.actions).completeFill (c.mshr.slots.handleAt r) X m'
          else .ok (d₀.perform X t.actions) := by
      rw [advanceMiss, ht]
      rfl
    rw [hgo, hperf]
  rw [hadv]
  -- the line is filed once its clients have answered
  by_cases hs : t.next.isStable = true
  · rw [if_pos hs]
    obtain ⟨d', hfill, hleads⟩ := completeFill_leads hd hcalm (update_self ..) hs
    have hhandle : d.mshr.slots.handleAt r = c.mshr.slots.handleAt r :=
      Mshr.handleAt_modify (c.mshr.slots.handleAt r) _ r
    rw [hhandle] at hfill
    have hall := hleads.after hk hw
    rw [Function.update_idem, Deed.append_nothing] at hall
    exact ⟨d', _, _, hfill, .fill hp hs, hall⟩
  · rw [if_neg hs]
    have hrests : Rests P none d place' :=
      ⟨hd, calm_update (fun Y _ => h.calm Y) fun _ => Bool.eq_false_iff.2 hs⟩
    exact ⟨d, _, _, rfl, .advance hp, hk, hw, hrests⟩

/-! ## Resident lines -/

/-- A reply on a resident line that a transaction waits for. -/
theorem advanceResident_leads (hf : Follows P c) (h : Rests P none c place)
    {v : ManagerTransaction}
    (hp : place X = .filed i e (some (r, v)))
    (ht : e.controller.onReply op src = some t) :
    ∃ d w place', c.advanceResident (c.mshr.slots.handleAt r) X (c.table.slots.handleAt i)
        (.reply op src) = .ok d ∧
      Heeds P c.id place X t w place' ∧ Leads P c w place' d := by
  have hfit : Place.Fits discipline c.table X (.filed i e (some (r, v))) := hp ▸ h.fits X
  have hev : e.evicting = false := hfit.2.1
  have hentry : c.table.entry? (c.table.slots.handleAt i) = some e := by
    rw [LineTable.entry?, SlotTable.get?_handleAt, h.content_filed hp]
    rfl
  obtain ⟨o, k, hcommit, hl, hdoes⟩ := commit_eq hf (c.table.slots.handleAt i) X t
  have hw := LineTable.modify_writes (h.content_filed hp) (committed · t)
  have hadv : c.advanceResident (c.mshr.slots.handleAt r) X (c.table.slots.handleAt i)
        (.reply op src)
      = .ok (if t.next.isStable then
          (c.commit (c.table.slots.handleAt i) X t).conclude (c.mshr.slots.handleAt r) X
        else c.commit (c.table.slots.handleAt i) X t) := by
    unfold advanceResident
    rw [hentry]
    dsimp only
    rw [step_reply ht]
    show (if t.next.isStable then _ else _) = _
    split <;> rfl
  rw [hadv, hcommit]
  have hcalm := fun tx => calm_update (X := X) (fun Y _ => h.calm Y)
    (calm_of_staying (i := i) (e := committed e t) (x := tx) hev)
  have hproper := fun tx => proper_update (X := X) (p := .filed i (committed e t) tx) h.proper
    fun hev' => absurd (show e.evicting = true from hev') (by simp [hev])
  -- with the last reply the transaction is over and its register free
  by_cases hs : t.next.isStable = true
  · rw [if_pos hs]
    have hrel := Mshr.release_sets (m := c.mshr) (r := r)
      (by rw [h.content_register (X := X) (r := r) (by rw [hp]; rfl)]; simp)
    have hled := h.close hp hrel hw hev hs
    have hguarded := h.guarded.leave (c.mshr.release (c.mshr.slots.handleAt r)).2 (X := X)
      (p := .filed i (committed e t) none) (by rw [hp, Ledger.leaves?_filed hev])
    refine ⟨_, _, update place X (.filed i (committed e t) none), rfl, .settle hp,
      ⟨rfl, rfl, rfl, hw.layout, hl, rfl⟩, .wake (.wake ?_ _) _,
      ⟨⟨hled, hproper none⟩, hguarded⟩, hcalm none⟩
    exact hdoes.congr rfl rfl rfl
  · rw [if_neg hs]
    have hled := h.modify hp hw rfl fun _ => by simpa [discipline, committed] using hs
    have hguarded := h.guarded.mono
      (Blockers.ofPlaces_le_filed (f := committed e t) hp fun hev' => hev')
    exact ⟨_, _, _, rfl, .settle hp, ⟨rfl, rfl, rfl, hw.layout, hl, rfl⟩,
      hdoes.congr rfl rfl rfl, ⟨⟨hled, hproper _⟩, hguarded⟩, hcalm _⟩

/-- A reply on a line that is being evicted. -/
theorem advanceEviction_leads (hf : Follows P c) (h : Rests P none c place)
    (hp : place X = .filed i e none) (ht : e.controller.onReply op src = some t) :
    ∃ d w place', c.advanceEviction X (c.table.slots.handleAt i) e (.reply op src) = .ok d ∧
      Heeds P c.id place X t w place' ∧ Leads P c w place' d := by
  have hfit : Place.Fits discipline c.table X (.filed i e none) := hp ▸ h.fits X
  -- a reply is awaited, and a line without a transaction awaits one only while it is evicted
  have hev : e.evicting = true := by
    by_contra hev
    have hstable := hfit.2 (by simpa using hev)
    have := ManagerLine.not_stable_of_onReply ht
    simp [discipline, this] at hstable
  have hproper : Proper (.filed i e none) := hp ▸ h.proper X
  have hnext := ManagerLine.evicting_of_onReply (hproper hev) ht
  obtain ⟨o, k, hcommit, hl, hdoes⟩ := commit_eq hf (c.table.slots.handleAt i) X t
  have hw := LineTable.modify_writes (h.content_filed hp) (committed · t)
  let d : SharedBank :=
    { c with
      table := c.table.modify (c.table.slots.handleAt i) (committed · t)
      outlet := o
      counters := k }
  let place' := update place X (.filed i (committed e t) none)
  have hk : Kept c d := ⟨rfl, rfl, rfl, hw.layout, hl, rfl⟩
  have hled := h.modify hp hw rfl fun hev' =>
    absurd (show e.evicting = false from hev') (by simp [hev])
  have hd : Guards P none d place' :=
    ⟨⟨hled, proper_update h.proper fun _ => hnext⟩,
      h.guarded.mono (Blockers.ofPlaces_le_filed hp fun hev => hev)⟩
  have hadv : c.advanceEviction X (c.table.slots.handleAt i) e (.reply op src)
      = if t.next.isStable then d.finishEviction (c.table.slots.handleAt i) X else .ok d := by
    unfold advanceEviction
    rw [step_reply ht]
    show (if (e.evicting && t.next.isStable) = true then _ else _) = _
    rw [hev, Bool.true_and, hcommit]
    rfl
  rw [hadv]
  obtain ⟨d', w, place'', hgo, hv, hleads⟩ :=
    evicted_leads (hf.kept hk) hd (calm_elsewhere h.calm X _) (update_self ..) hev
  have hhandle : d.table.slots.handleAt i = c.table.slots.handleAt i := congrFun hw.handle i
  rw [hhandle] at hgo
  exact ⟨d', _, _, hgo, .leave hp hv, hleads.after hk (hdoes.congr rfl rfl rfl)⟩

/-! ## Replies -/

/-- A line that memory has been asked for has a way of its own. -/
theorem reserved_of_asked (h : Filed c place) {l : ManagerLine} {b : Bool} {q : CoherenceMessage}
    (hl : records place X
      = some { controller := l, dirty := b, request := some q, asked := true }) :
    ∃ i r m, place X = .reserved i r (.miss m) ∧ m.stage = .awaitingMemory ∧ m.controller = l ∧
      m.dirty = b ∧ m.request = q := by
  cases hp : place X with
  | absent => simp [records, hp, recordAt] at hl
  | filed i e tx => simp [records, hp, recordAt] at hl
  | reserved i r v =>
    obtain ⟨m, rfl, -⟩ := miss_of_reserved h hp
    simp only [records, hp, recordAt, Option.some.injEq, BankLine.mk.injEq] at hl
    obtain ⟨rfl, rfl, hreq, hst⟩ := hl
    simp only [decide_eq_true_eq] at hst
    rw [hst, if_neg (by simp)] at hreq
    exact ⟨i, r, m, rfl, hst, rfl, rfl, Option.some.inj hreq⟩
  | waiting i r v =>
    obtain ⟨m, rfl, hvictim, -⟩ := miss_of_waiting h hp
    simp [records, hp, recordAt, hvictim] at hl

/-- Memory's reply settles the request that asked for the line. -/
theorem handleMemory_leads (hf : Follows P c) (h : Rests P none c place) {msg : MemoryMessage}
    (hX : P.lineOf msg.addr = X) (hp : place X = .reserved i r (.miss m))
    (hst : m.stage = .awaitingMemory)
    (ht : m.controller.onRequest m.request.op m.request.src = some t) :
    ∃ d w place', c.handleMemory msg = .ok d ∧ Heeds P c.id place X t w place' ∧
      Leads P c w place' d := by
  have hline : c.table.lineAddr msg.addr = X := by rw [hf.lineOf, hX]
  have hout := h.outstanding?_eq X
  unfold handleMemory
  dsimp only
  rw [hline, hout, hp]
  show ∃ d w place', (if m.stage = .awaitingMemory then _ else _) = _ ∧ _
  rw [if_pos hst]
  exact advanceMiss_leads hf h hp (step_request ht)

/-- A reply that the table of its line accepts is taken. -/
theorem handleReply_leads (hf : Follows P c) (h : Rests P none c place) {msg : CoherenceMessage}
    (hX : P.lineOf msg.addr = X) {l : ManagerLine} {b : Bool}
    (hl : records place X = some { controller := l, dirty := b })
    (ht : l.onReply msg.op msg.src = some t) :
    ∃ d w place', c.handleReply msg = .ok d ∧ Heeds P c.id place X t w place' ∧
      Leads P c w place' d := by
  have hline : c.table.lineAddr msg.addr = X := by rw [hf.lineOf, hX]
  have hout := h.outstanding?_eq X
  have hres := h.resident?_eq X
  rw [hf.lineOf, ← hX, P.lineOf_lineOf, hX] at hres
  unfold handleReply
  dsimp only
  rw [hline, hout, hres]
  cases hp : place X with
  | absent => simp [records, hp, recordAt] at hl
  | filed i e tx =>
    simp only [records, hp, recordAt, Option.some.injEq, BankLine.mk.injEq] at hl
    obtain ⟨rfl, rfl, -, -⟩ := hl
    cases tx with
    | none => exact advanceEviction_leads hf h hp ht
    | some rv =>
      obtain ⟨r, v⟩ := rv
      obtain rfl := resident_of_filed h.toFiled hp
      exact advanceResident_leads hf h hp ht
  | reserved i r v =>
    obtain ⟨m, rfl, -⟩ := miss_of_reserved h.toFiled hp
    simp only [records, hp, recordAt, Option.some.injEq, BankLine.mk.injEq] at hl
    obtain ⟨rfl, rfl, hreq, -⟩ := hl
    have hst : m.stage = .awaitingClients := by
      by_contra hst
      simp [hst] at hreq
    show ∃ d w place', (if m.stage = .awaitingClients then _ else _) = _ ∧ _
    rw [if_pos hst]
    exact advanceMiss_leads hf h hp (step_reply ht)
  -- a line that waits for a victim has asked nobody yet
  | waiting i r v =>
    obtain ⟨m, rfl, hvictim, -⟩ := miss_of_waiting h.toFiled hp
    simp [records, hp, recordAt, hvictim] at hl

/-! ## Runs of steps -/

/-- Once the record of a line has changed, the rest is a run of steps. -/
theorem Heeds.run {v : BankView} {w : Deed} {me : NodeId}
    {place' : Addr → Place ManagerLine ManagerTransaction} {l : BankLine}
    (hline : v.line = records place) (haligned : ∀ Y, place Y ≠ .absent → P.lineOf Y = Y)
    (hl : records place X = some l) (h : Heeds P me place X t w place') :
    Relation.ReflTransGen (BankView.Step P me)
      (v.put X (some { controller := t.next, dirty := l.dirty || t.returnsData })
        (P.managerPosts me X t.actions)) (seen v w place') := by
  rw [records] at hl
  cases h with
  | settle hp =>
    rw [hp] at hl
    cases hl
    rw [seen_update hline rfl]
    rfl
  | @leave i e w _ hp hv =>
    rw [hp] at hl
    cases hl
    have hput := seen_update (X := X) (w := .acting P me X t.actions)
      (p := .filed i (committed e t) none) hline rfl
    have hrest := hv.run (v := seen v (.acting P me X t.actions) _) rfl (fun Y hY => ?_)
      (update_self ..)
    · rw [seen_seen, hput] at hrest
      exact hrest
    · by_cases hYX : Y = X
      · rw [hYX]
        exact haligned X (by simp [hp])
      · rw [update_of_ne hYX] at hY
        exact haligned Y hY
  | advance hp =>
    rw [hp] at hl
    cases hl
    rw [seen_update hline rfl]
    rfl
  | fill hp hs =>
    rw [hp] at hl
    cases hl
    rw [seen_update hline rfl]
    rfl

/-- Memory's reply settles the request that asked for the line. -/
theorem handleMemory_reaches (hf : Follows P c) (h : Rests P none c place) {msg : MemoryMessage}
    (hX : P.lineOf msg.addr = X) {l : ManagerLine} {b : Bool} {q : CoherenceMessage}
    (hl : records place X = some { controller := l, dirty := b, request := some q, asked := true })
    (ht : l.onRequest q.op q.src = some t) :
    ∃ d, c.handleMemory msg = .ok d ∧
      Reaches P c ((c.view place).put X (some { controller := t.next, dirty := b || t.returnsData })
        (P.managerPosts c.id X t.actions)) d := by
  obtain ⟨i, r, m, hp, hst, rfl, rfl, rfl⟩ := reserved_of_asked h.toFiled hl
  obtain ⟨d, w, place', hd, hheeds, hleads⟩ := handleMemory_leads hf h hX hp hst ht
  exact ⟨d, hd, hleads.reaches (hheeds.run rfl (hf.aligned h.toFiled) hl)⟩

/-- A reply that the table of its line accepts is taken, and work goes on from there. -/
theorem handleReply_reaches (hf : Follows P c) (h : Rests P none c place) {msg : CoherenceMessage}
    (hX : P.lineOf msg.addr = X) {l : ManagerLine} {b : Bool}
    (hl : records place X = some { controller := l, dirty := b })
    (ht : l.onReply msg.op msg.src = some t) :
    ∃ d, c.handleReply msg = .ok d ∧
      Reaches P c ((c.view place).put X (some { controller := t.next, dirty := b || t.returnsData })
        (P.managerPosts c.id X t.actions)) d := by
  obtain ⟨d, w, place', hd, hheeds, hleads⟩ := handleReply_leads hf h hX hl ht
  exact ⟨d, hd, hleads.reaches (hheeds.run rfl (hf.aligned h.toFiled) hl)⟩

end SharedBank

end CacheCoherence
