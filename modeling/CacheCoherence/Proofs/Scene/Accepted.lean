import CacheCoherence.Proofs.Scene.Sound

/-!
# Accepted — what arrives is awaited

In a sound scene what is on its way agrees with the line that it is about. So the table of the
line has an entry for it where it arrives, and for a request once its turn comes. Only a client
may refuse a message: one that does not give its line up, and is told that it may.
-/

namespace CacheCoherence.Scene.Sound

variable {P : Plan} {s : Scene} {p : Packet} {T : Multiset Packet} {m : CoherenceMessage}
  {q : MemoryMessage}

/-- A message that is on its way is among what its line has to agree with. -/
theorem flight_pos (hp : s.transit = p ::ₘ T) (hm : p.payload = .coherence m)
    (ps : Multiset Packet) : 0 < P.count (P.lineOf m.addr) (s.transit + ps)
      { src := m.src, dst := p.dst, op := m.op, forwardTo := m.forwardTo } := by
  refine Plan.count_pos (p := p) (Multiset.mem_add.2 (.inl ?_)) ?_
  · rw [hp]
    exact Multiset.mem_cons_self p T
  · rw [note?_coherence hm, if_pos rfl]

/-- So is a request that a bank holds back. -/
theorem held_pos {b : NodeId} (hm : P.Asks b m)
    (hmem : m ∈ (s.bank b).held + BankLine.pending ((s.bank b).line (P.lineOf m.addr))) :
    0 < P.count (P.lineOf m.addr) (s.transit + (s.bank b).traffic P b (P.lineOf m.addr))
      { src := m.src, dst := b, op := m.op } := by
  refine Plan.count_pos (p := P.letter m.src b m) ?_ hm.note?
  exact Multiset.mem_add.2 (.inr (Multiset.mem_add.2 (.inr (Multiset.mem_map.2 ⟨m, hmem, rfl⟩))))

/-! ## Clients -/

/-- A client accepts a message, unless it is alone with the line, keeps it, and is told that its
eviction is accepted. -/
theorem accepts_message (hs : s.Sound P) (hp : s.transit = p ::ₘ T)
    (hrole : P.role p.dst = some .client) (hm : p.payload = .coherence m) :
    (∃ t, ((s.node p.dst).state (P.lineOf m.addr)).onMessage m.op m.forwardTo = some t) ∨
      m.op = .grantI ∧ m.forwardTo = none ∧
        ((s.node p.dst).state (P.lineOf m.addr) = .E ∨
          (s.node p.dst).state (P.lineOf m.addr) = .M) := by
  obtain ⟨-, hop, -⟩ := message_fits (hs.fits_taken hp) hrole hm
  have hagree := hs.agree (P.lineOf m.addr)
  have hflight := flight_pos (P := P) hp hm
    ((s.bank (P.home (P.lineOf m.addr))).traffic P (P.home (P.lineOf m.addr)) (P.lineOf m.addr))
  rcases Agreement.accepts_message hagree hflight hop with haccept | ⟨hgrant, hst⟩
  · exact .inl haccept
  · obtain ⟨-, -, -, -, hnone⟩ := Agreement.returning_of_grantI hagree hflight hgrant
    exact .inr ⟨hgrant, hnone, hst⟩

/-! ## Banks -/

/-- A bank keeps the line of a reply of a client, and the manager of the line accepts it. -/
theorem accepts_reply (hs : s.Sound P) (hp : s.transit = p ::ₘ T)
    (hrole : P.role p.dst = some .bank) (hm : p.payload = .coherence m)
    (hop : m.op.answers = true) :
    ∃ l d t, (s.bank p.dst).line (P.lineOf m.addr) = some { controller := l, dirty := d } ∧
      l.onReply m.op m.src = some t := by
  obtain ⟨-, -, -, hhome, -⟩ := request_fits (hs.fits_taken hp) hrole hm
  have hagree := hs.agree (P.lineOf m.addr)
  rw [hhome] at hagree
  obtain ⟨-, t, ht⟩ := Agreement.accepts_reply hagree (flight_pos hp hm _) hop
  -- the manager waits for the reply, so the line has its data
  have hwaits := ManagerLine.not_stable_of_onReply ht
  cases hline : (s.bank p.dst).line (P.lineOf m.addr) with
  | none =>
    rw [BankView.manager_none hline] at hwaits
    cases hwaits
  | some l =>
    have hfit := (hs.orderly p.dst).lines _ _ hline
    rw [BankView.manager_eq hline] at hwaits ht
    obtain ⟨l, d, request, asked⟩ := l
    cases request with
    | some q =>
      obtain ⟨-, -, hinit, -⟩ := hfit.request q rfl
      rw [hinit] at hwaits
      cases hwaits
    | none =>
      cases asked with
      | true => exact absurd rfl (hfit.asked rfl)
      | false => exact ⟨l, d, t, rfl, ht⟩

/-- A request waits for the data that memory sends, and the manager of the line accepts it. -/
theorem accepts_supplied (hs : s.Sound P) (hp : s.transit = p ::ₘ T)
    (hrole : P.role p.dst = some .bank) (hm : p.payload = .memory q) :
    ∃ l d r t, (s.bank p.dst).line q.addr
        = some { controller := l, dirty := d, request := some r, asked := true } ∧
      l.onRequest r.op r.src = some t := by
  obtain ⟨hpq, hX, hreply⟩ := supplied_fits (hs.fits_taken hp) hrole hm
  have hhome : P.home q.addr = p.dst := by
    rw [hpq]
    rfl
  -- memory sends only what it was asked for
  have hasked : BankLine.isAsked ((s.bank p.dst).line q.addr) = true := by
    have hfetches := hs.fetches q.addr
    have hsupplied : Packet.fetches q.addr p = true := by simp [Packet.fetches, hm, hreply]
    rw [hhome, hp, Packet.tally_cons, hsupplied, Bool.toNat_true] at hfetches
    exact Bool.toNat_eq_one.1
      (by have := Bool.toNat_le (BankLine.isAsked ((s.bank p.dst).line q.addr)); omega)
  cases hline : (s.bank p.dst).line q.addr with
  | none =>
    rw [hline] at hasked
    cases hasked
  | some l =>
    have hfit := (hs.orderly p.dst).lines _ _ hline
    rw [hline] at hasked
    obtain ⟨l, d, request, asked⟩ := l
    obtain rfl : asked = true := hasked
    cases request with
    | none => exact absurd rfl (hfit.asked rfl)
    | some r =>
      obtain ⟨hasks, hr, hinit, -⟩ := hfit.request r rfl
      have hagree := hs.agree q.addr
      have hflight := held_pos (s := s) hasks
        (Multiset.mem_add.2 (.inr (by rw [hr, hline]; exact Multiset.mem_singleton_self r)))
      rw [hhome, BankView.Agrees, BankView.manager_eq hline] at hagree
      rw [hr] at hflight
      obtain ⟨t, ht⟩ := hagree.accepts_request hflight hasks.opens
        (by rw [show l = ManagerLine.initial from hinit]; rfl)
      exact ⟨l, d, r, t, rfl, ht⟩

/-- No bank is stuck: the table of a line has an entry for a request whose turn comes, and for
an eviction. -/
theorem not_stuck (hs : s.Sound P) (b : NodeId) : ¬ (s.bank b).Stuck P := by
  rintro (⟨m, hm, l, d, hl, hst, ht⟩ | ⟨X, l, d, hl, hst, ht⟩)
  · have hasks := (hs.orderly b).held m hm
    have hagree := hs.agree (P.lineOf m.addr)
    rw [hasks.home, BankView.Agrees, BankView.manager_eq hl] at hagree
    obtain ⟨t, ht'⟩ := hagree.accepts_request
      (held_pos (s := s) hasks (Multiset.mem_add.2 (.inl hm))) hasks.opens hst
    rw [ht] at ht'
    cases ht'
  · have hagree := hs.agree X
    rw [((hs.orderly b).lines X _ hl).home, BankView.Agrees, BankView.manager_eq hl] at hagree
    obtain ⟨t, ht'⟩ := hagree.accepts_evict hst
    rw [ht] at ht'
    cases ht'

end CacheCoherence.Scene.Sound
