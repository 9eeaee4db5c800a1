import CacheCoherence.Proofs.PrivateCache.Receipt

/-!
# Events — a private cache among nodes it cannot rely on

What a cache does to its lines depends on nobody else. Whatever it is asked by its processor and
whatever packets arrive, as long as it meets no fault every line keeps its one place, and no
fault comes of a way that is gone. So much holds of a cache by itself, before anything is known
of the hierarchy around it.
-/

namespace CacheCoherence.PrivateCache

variable {P : Wiring} {c d : PrivateCache}

/-- The wiring that a cache follows. -/
def wiring (c : PrivateCache) : Wiring where
  tags := c.tags
  lineOf := c.table.lineAddr
  home := c.managers.lookup
  store := fun _ => c.id
  lineOf_lineOf := c.table.layout.lineAddr_lineAddr

/-- The work of a cycle is that of its events, then what leaves, then the answers. -/
theorem tick_eq (c : PrivateCache) :
    c.tick.1 = ((Work.through (fun c queue => { c with inbound := queue }) react c.beginCycle
      c.beginCycle.inbound).andThen flush).andThen fun c => .done c.collect := by
  unfold tick
  dsimp only
  generalize (Work.through _ react c.beginCycle c.beginCycle.inbound).andThen flush = w
  cases hf : w.fault <;> simp [Work.andThen, Work.done, hf]

/-- Every line has a place, and no request is at hand. -/
def Settled (c : PrivateCache) : Prop := ∃ P place, Follows P c ∧ Rests P none c place

namespace Settled

/-- What happens to the way out and to what is counted does not matter. -/
theorem congr (h : Settled c) (htags : d.tags = c.tags) (hmanagers : d.managers = c.managers)
    (htable : d.table = c.table) (hmshr : d.mshr = c.mshr) (hbacklog : d.backlog = c.backlog) :
    Settled d := by
  obtain ⟨P, place, hf, hrests⟩ := h
  exact ⟨P, place, hf.congr htags hmanagers (congrArg LineTable.layout htable),
    hrests.congr htable hmshr hbacklog⟩

/-- Work that does no more than that. -/
theorem secure (h : Settled c) {sent : List Packet} (htags : d.tags = c.tags)
    (hmanagers : d.managers = c.managers) (htable : d.table = c.table) (hmshr : d.mshr = c.mshr)
    (hbacklog : d.backlog = c.backlog) : (Work.done d sent).Secure Settled :=
  .done (h.congr htags hmanagers htable hmshr hbacklog) sent

theorem of_reaches {w : ClientView} (hf : Follows P c) (h : Reaches P c w d) : Settled d := by
  obtain ⟨hk, place, hrests, -⟩ := h
  exact ⟨P, place, hf.kept hk, hrests⟩

/-- A request of the processor. -/
theorem process (h : Settled c) (q : Request) : ∃ d, c.process q true = .ok d ∧ Settled d := by
  obtain ⟨P, place, hf, hrests⟩ := h
  obtain ⟨d, hd, hreach⟩ := process_reaches hf hrests true (.inl rfl) fun _ => rfl
  exact ⟨d, hd, of_reaches hf hreach⟩

/-- Requests that were woken. -/
theorem drain (h : Settled c) : c.drain.Secure Settled := by
  obtain ⟨P, place, hf, hrests⟩ := h
  obtain ⟨d, hd, hreach⟩ := drain_reaches hf hrests
  rw [hd]
  exact .done (of_reaches hf hreach) []

/-- A message, whoever sent it. -/
theorem handle (h : Settled c) (n : PrivateCache) (msg : CoherenceMessage) :
    (Work.ofExcept n (c.handle msg)).Secure Settled := by
  obtain ⟨P, place, hf, hrests⟩ := h
  by_cases habs : place (P.lineOf msg.addr) = .absent
  · -- a line that is not there stays away, whatever becomes of the answer
    rw [handle_absent hf hrests.toFiled rfl habs]
    split
    · exact .done ⟨P, place, hf.congr rfl rfl rfl, hrests.congr rfl rfl rfl⟩ []
    · exact .faulted rfl
  · cases ht : (view place (P.lineOf msg.addr)).onMessage msg.op msg.forwardTo with
    | none =>
      rcases handle_refused hf hrests.toFiled rfl ht with hrefused | ⟨-, hrefused⟩ <;>
        rw [hrefused] <;> exact .faulted rfl
    | some t =>
      obtain ⟨d, hd, hreach⟩ := handle_reaches hf hrests rfl (fun h => absurd h habs) ht
      rw [hd]
      exact .done (of_reaches hf hreach) []

theorem takeCredit (h : Settled c) : c.takeCredit.Secure Settled := by
  unfold PrivateCache.takeCredit
  dsimp only
  split
  · exact h.secure rfl rfl rfl rfl rfl
  · exact .faulted rfl

/-- A packet of any content. -/
theorem dispatch (h : Settled c) (p : Packet) : (c.dispatch p).Secure Settled := by
  have hrefused : (Work.faulted c (c.tags.refuse c.id p)).Secure Settled :=
    .faulted (MessageTags.losesWay_refuse ..)
  unfold PrivateCache.dispatch
  split
  · split
    · exact h.takeCredit
    · exact hrefused
  · next msg _ =>
    split
    · have hgiven : (c.giveCredit p.src).Secure Settled := h.secure rfl rfl rfl rfl rfl
      exact hgiven.andThen fun n hn => hn.handle n msg
    · exact hrefused
  · exact hrefused

/-- An event, with all that it causes. -/
theorem react (h : Settled c) (e : ClientInput) : (c.react e).Secure Settled := by
  cases e with
  | request q =>
    have hcounted : Settled (c.countRequest q) := by
      unfold countRequest
      split <;> exact h.congr rfl rfl rfl rfl rfl
    obtain ⟨d, hd, hsettled⟩ := hcounted.process q
    rw [PrivateCache.react, hd]
    exact (Work.Secure.done hsettled []).andThen fun _ hn => hn.drain
  | packet p => exact (h.dispatch p).andThen fun _ hn => hn.drain

/-- A cycle. -/
theorem tick (h : Settled c) : c.tick.1.Secure Settled := by
  rw [tick_eq]
  have hbegun : Settled c.beginCycle := h.congr rfl rfl rfl rfl rfl
  have hevents : (Work.through (fun c queue => { c with inbound := queue }) PrivateCache.react
      c.beginCycle c.beginCycle.inbound).Secure Settled :=
    .through (fun n queue hn => hn.congr rfl rfl rfl rfl rfl) (fun n e hn => hn.react e) hbegun _
  have hflushed := hevents.andThen (R := Settled) fun n hn =>
    show n.flush.Secure Settled from hn.secure rfl rfl rfl rfl rfl
  exact hflushed.andThen fun n hn => hn.secure rfl rfl rfl rfl rfl

end Settled

end CacheCoherence.PrivateCache
