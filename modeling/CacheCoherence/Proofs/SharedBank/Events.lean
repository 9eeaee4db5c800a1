import CacheCoherence.Proofs.SharedBank.Replies

/-!
# Events — a bank among nodes it cannot rely on

What a bank does to its lines depends on nobody else. Whatever packets arrive, as long as it
meets no fault every line keeps its one place, and no fault comes of a way that is gone. So much
holds of a bank by itself, before anything is known of the hierarchy around it.
-/

namespace CacheCoherence.SharedBank

variable {P : Wiring} {c d : SharedBank} {place : Addr → Place ManagerLine ManagerTransaction}
  {X : Addr}

/-- The wiring that a bank follows. -/
def wiring (c : SharedBank) : Wiring where
  tags := c.tags
  lineOf := c.table.lineAddr
  home := fun _ => c.id
  store := c.memories.lookup
  lineOf_lineOf := c.table.layout.lineAddr_lineAddr

/-! ## What a reply meets -/

/-- A line that is being fetched goes on, unless the table of its manager has no entry for what
happens. -/
theorem advanceMiss_cases (c : SharedBank) (register : Handle) (X : Addr) (m : ManagerMiss)
    (event : ManagerEvent) : (∃ t, m.controller.transition event = .ok t) ∨
      ∃ f, c.advanceMiss register X m event = .error f ∧ f.losesWay = false := by
  cases hs : c.step X m.controller event with
  | ok t => exact .inl ⟨t, mapError_eq_ok hs⟩
  | error f =>
    obtain ⟨r, rfl⟩ := mapError_eq_error hs
    exact .inr ⟨_, by rw [advanceMiss, hs]; rfl, rfl⟩

/-- Memory's reply is about a line that memory was asked for, or it is refused. -/
theorem handleMemory_cases (hf : Follows P c) (h : Filed c place) {msg : MemoryMessage}
    (hX : P.lineOf msg.addr = X) :
    (∃ l b q t, records place X
        = some { controller := l, dirty := b, request := some q, asked := true } ∧
      l.onRequest q.op q.src = some t) ∨
    ∃ f, c.handleMemory msg = .error f ∧ f.losesWay = false := by
  have hout := h.outstanding?_eq X
  unfold handleMemory
  dsimp only
  rw [show c.table.lineAddr msg.addr = X by rw [hf.lineOf, hX], hout]
  cases hp : place X with
  | absent => exact .inr ⟨.unexpectedMemoryReply c.id X, rfl, rfl⟩
  | filed i e tx =>
    right
    cases tx with
    | none => exact ⟨_, rfl, rfl⟩
    | some rv =>
      obtain ⟨r, v⟩ := rv
      obtain rfl := resident_of_filed h hp
      exact ⟨_, rfl, rfl⟩
  | reserved i r v =>
    obtain ⟨m, rfl, -⟩ := miss_of_reserved h hp
    by_cases hst : m.stage = .awaitingMemory
    · rcases advanceMiss_cases c (c.mshr.slots.handleAt r) X m
        (.request m.request.op m.request.src) with ⟨t, ht⟩ | hrefused
      · refine .inl ⟨m.controller, m.dirty, m.request, t, ?_, ManagerLine.transition_request.1 ht⟩
        rw [records, hp, recordAt, hst]
        rfl
      · right
        simpa [Place.register?, hst] using hrefused
    · right
      simp [Place.register?, hst, Fault.losesWay]
  | waiting i r v =>
    obtain ⟨m, rfl, hvictim, -⟩ := miss_of_waiting h hp
    right
    simp [Place.register?, hvictim, Fault.losesWay]

/-- A client's reply is about a line whose manager waits for it, or it is refused. -/
theorem handleReply_cases (hf : Follows P c) (h : Filed c place) {msg : CoherenceMessage}
    (hX : P.lineOf msg.addr = X) :
    (∃ l b t, records place X = some { controller := l, dirty := b } ∧
      l.onReply msg.op msg.src = some t) ∨
    ∃ f, c.handleReply msg = .error f ∧ f.losesWay = false := by
  have hout := h.outstanding?_eq X
  have hres := h.resident?_eq X
  rw [hf.lineOf, ← hX, P.lineOf_lineOf, hX] at hres
  unfold handleReply
  dsimp only
  rw [show c.table.lineAddr msg.addr = X by rw [hf.lineOf, hX], hout, hres]
  cases hp : place X with
  | absent => exact .inr ⟨.unexpectedReply c.id msg.op X, rfl, rfl⟩
  | filed i e tx =>
    cases hs : c.step X e.controller (.reply msg.op msg.src) with
    | ok t =>
      have ht := ManagerLine.transition_reply.1 (mapError_eq_ok hs)
      exact .inl ⟨e.controller, e.dirty, t, by rw [records, hp]; rfl, ht⟩
    | error f =>
      obtain ⟨rejection, rfl⟩ := mapError_eq_error hs
      refine .inr ⟨.managerViolation c.id X rejection, ?_, rfl⟩
      cases tx with
      | none =>
        show c.advanceEviction X _ e _ = _
        rw [advanceEviction, hs]
        rfl
      | some rv =>
        obtain ⟨r, v⟩ := rv
        obtain rfl := resident_of_filed h hp
        have hentry : c.table.entry? (c.table.slots.handleAt i) = some e := by
          rw [LineTable.entry?, SlotTable.get?_handleAt, h.content_filed hp]
          rfl
        show c.advanceResident _ X (c.table.slots.handleAt i) _ = _
        rw [advanceResident, hentry]
        dsimp only
        rw [hs]
        rfl
  | reserved i r v =>
    obtain ⟨m, rfl, -⟩ := miss_of_reserved h hp
    by_cases hst : m.stage = .awaitingClients
    · rcases advanceMiss_cases c (c.mshr.slots.handleAt r) X m (.reply msg.op msg.src) with
        ⟨t, ht⟩ | hrefused
      · refine .inl ⟨m.controller, m.dirty, t, ?_, ManagerLine.transition_reply.1 ht⟩
        rw [records, hp, recordAt, hst]
        rfl
      · right
        simpa [Place.register?, hst] using hrefused
    · right
      simp [Place.register?, hst, Fault.losesWay]
  | waiting i r v =>
    obtain ⟨m, rfl, hvictim, -⟩ := miss_of_waiting h hp
    right
    simp [Place.register?, hvictim, Fault.losesWay]

/-! ## Places -/

/-- Every line has a place, and no request is at hand. -/
def Settled (c : SharedBank) : Prop := ∃ P place, Follows P c ∧ Rests P none c place

namespace Settled

/-- What happens to the way out and to what is counted does not matter. -/
theorem congr (h : Settled c) (htags : d.tags = c.tags) (hmemories : d.memories = c.memories)
    (htable : d.table = c.table) (hmshr : d.mshr = c.mshr) (hbacklog : d.backlog = c.backlog) :
    Settled d := by
  obtain ⟨P, place, hf, hrests⟩ := h
  exact ⟨P, place, hf.congr htags hmemories (congrArg LineTable.layout htable),
    hrests.congr htable hmshr hbacklog⟩

/-- Work that does no more than that. -/
theorem secure (h : Settled c) {sent : List Packet} (htags : d.tags = c.tags)
    (hmemories : d.memories = c.memories) (htable : d.table = c.table) (hmshr : d.mshr = c.mshr)
    (hbacklog : d.backlog = c.backlog) : (Work.done d sent).Secure Settled :=
  .done (h.congr htags hmemories htable hmshr hbacklog) sent

theorem of_reaches {w : BankView} (hf : Follows P c) (h : Reaches P c w d) : Settled d := by
  obtain ⟨hk, place, hrests, -⟩ := h
  exact ⟨P, place, hf.kept hk, hrests⟩

/-- A request, whoever makes it. -/
theorem process (h : Settled c) (n : SharedBank) (q : CoherenceMessage) :
    (Work.ofExcept n (c.process q true)).Secure Settled := by
  obtain ⟨P, place, hf, hrests⟩ := h
  rcases process_ends hf hrests true (.inl rfl) fun _ => rfl with
    ⟨d, hd, hreach⟩ | ⟨f, -, hrefused, hways, -⟩
  · rw [hd]
    exact .done (of_reaches hf hreach) []
  · rw [hrefused]
    exact .faulted hways

/-- Requests that were woken. -/
theorem drain (h : Settled c) : c.drain.Secure Settled := by
  obtain ⟨P, place, hf, hrests⟩ := h
  rcases drain_ends hf hrests with ⟨d, hd, hreach⟩ | ⟨⟨f, hfault, hways⟩, -⟩
  · rw [hd]
    exact .done (of_reaches hf hreach) []
  · exact .of_fault hfault hways

/-- A message, whoever sent it. -/
theorem handle (h : Settled c) (n : SharedBank) (msg : CoherenceMessage) :
    (Work.ofExcept n (c.handle msg)).Secure Settled := by
  unfold SharedBank.handle
  split
  · exact h.process n msg
  · obtain ⟨P, place, hf, hrests⟩ := h
    rcases handleReply_cases hf hrests.toFiled rfl with ⟨l, b, t, hl, ht⟩ | ⟨f, hrefused, hways⟩
    · obtain ⟨d, hd, hreach⟩ := handleReply_reaches hf hrests rfl hl ht
      rw [hd]
      exact .done (of_reaches hf hreach) []
    · rw [hrefused]
      exact .faulted hways

/-- A reply of memory, whichever it comes from. -/
theorem handleMemory (h : Settled c) (n : SharedBank) (msg : MemoryMessage) :
    (Work.ofExcept n (c.handleMemory msg)).Secure Settled := by
  obtain ⟨P, place, hf, hrests⟩ := h
  rcases handleMemory_cases hf hrests.toFiled rfl with ⟨l, b, q, t, hl, ht⟩ | ⟨f, hrefused, hways⟩
  · obtain ⟨d, hd, hreach⟩ := handleMemory_reaches hf hrests rfl hl ht
    rw [hd]
    exact .done (of_reaches hf hreach) []
  · rw [hrefused]
    exact .faulted hways

theorem takeCredit (h : Settled c) : c.takeCredit.Secure Settled := by
  unfold SharedBank.takeCredit
  dsimp only
  split
  · exact h.secure rfl rfl rfl rfl rfl
  · exact .faulted rfl

/-- A packet of any content. -/
theorem dispatch (h : Settled c) (p : Packet) : (c.dispatch p).Secure Settled := by
  have hrefused : (Work.faulted c (c.tags.refuse c.id p)).Secure Settled :=
    .faulted (MessageTags.losesWay_refuse ..)
  have hgiven : (c.giveCredit p.src).Secure Settled := h.secure rfl rfl rfl rfl rfl
  unfold SharedBank.dispatch
  split
  · split
    · exact h.takeCredit
    · exact hrefused
  · next msg _ =>
    split
    · exact hgiven.andThen fun n hn => hn.handle n msg
    · exact hrefused
  · next msg _ =>
    split
    · exact hgiven.andThen fun n hn => hn.handleMemory n msg
    · exact hrefused

/-- A packet, with all that it causes. -/
theorem react (h : Settled c) (p : Packet) : (c.react p).Secure Settled :=
  (h.dispatch p).andThen fun _ hn => hn.drain

/-- A cycle. -/
theorem tick (h : Settled c) : c.tick.Secure Settled := by
  have hbegun : Settled c.beginCycle := h.congr rfl rfl rfl rfl rfl
  have hevents : (Work.through (fun c queue => { c with inbound := queue }) SharedBank.react
      c.beginCycle c.beginCycle.inbound).Secure Settled :=
    .through (fun n queue hn => hn.congr rfl rfl rfl rfl rfl) (fun n p hn => hn.react p) hbegun _
  exact hevents.andThen fun n hn => hn.secure rfl rfl rfl rfl rfl

end Settled

end CacheCoherence.SharedBank
