import CacheCoherence.Proofs.Protocol.Sharing
import CacheCoherence.Proofs.Scene.Sound

/-!
# Shares — shared copies on their way in a scene

In a scene a client is to get a shared copy of a line if a packet says so, whether it is in
transit, about to leave a node or held back by the bank of the line. A client that awaits no copy
is to get none, and what banks and memory do promises a shared copy to nobody anew.
-/

namespace CacheCoherence

open Function (update update_self update_of_ne)

/-- What the packet says about the line `X` is to bring the client `c` a shared copy. -/
def Plan.SharesWith (P : Plan) (X : Addr) (c : NodeId) (p : Packet) : Prop :=
  ∃ n, P.note? X p = some n ∧ n.SharesWith (P.home X) c

namespace Plan

variable {P : Plan} {X Y : Addr} {c me : NodeId} {p : Packet}

theorem not_sharesWith_of_note? (h : P.note? X p = none) : ¬ P.SharesWith X c p := by
  rintro ⟨n, hn, -⟩
  rw [h] at hn
  cases hn

/-- An answer to the manager brings no shared copy. -/
theorem not_sharesWith_of_answers {m : CoherenceMessage} (hm : p.payload = .coherence m)
    (hop : m.op.answers = true) : ¬ P.SharesWith X c p := by
  rintro ⟨n, hn, hs⟩
  rw [Scene.note?_coherence hm] at hn
  obtain ⟨-, ⟨⟩⟩ := Option.ite_none_right_eq_some.1 hn
  refine Note.not_sharesWith ?_ hs
  revert hop
  cases m.op <;> simp [Opcode.answers, Opcode.shares]

/-- A packet of a client's transition is about its line, and carries one of its notes. -/
theorem SharesWith.of_clientPosts {t : ClientTransition} (hX : P.lineOf X = X)
    (hp : p ∈ P.clientPosts me X t.actions) (h : P.SharesWith Y c p) :
    Y = X ∧ ∃ n ∈ t.notes (P.home X) me, n.SharesWith (P.home X) c := by
  obtain ⟨n, hn, hs⟩ := h
  have hpos := count_pos hp hn
  by_cases hYX : Y = X
  · subst hYX
    rw [count_clientPosts hX] at hpos
    exact ⟨rfl, n, List.count_pos_iff.1 hpos, hs⟩
  · rw [count_clientPosts_ne hX (Ne.symm hYX)] at hpos
    cases hpos

/-- So is a packet of a manager's transition. -/
theorem SharesWith.of_managerPosts {t : ManagerTransition} (hX : P.lineOf X = X)
    (hp : p ∈ P.managerPosts me X t.actions) (h : P.SharesWith Y c p) :
    Y = X ∧ ∃ n ∈ t.notes me, n.SharesWith (P.home X) c := by
  obtain ⟨n, hn, hs⟩ := h
  have hpos := count_pos hp hn
  by_cases hYX : Y = X
  · subst hYX
    rw [count_managerPosts hX] at hpos
    exact ⟨rfl, n, List.count_pos_iff.1 hpos, hs⟩
  · rw [count_managerPosts_ne hX (Ne.symm hYX)] at hpos
    cases hpos

/-- The letter that a held request once was asks for a shared copy if the request does. -/
theorem Asks.sharesWith {m : CoherenceMessage} (h : P.Asks (P.home X) m)
    (hX : P.lineOf m.addr = X) (hop : m.op = .getS) :
    P.SharesWith X m.src (P.letter m.src (P.home X) m) := by
  have hnote := h.note?
  rw [hX] at hnote
  exact ⟨_, hnote, .inl (by rw [hop])⟩

/-- What is posted on a request brings a shared copy to the client that asked for it. -/
theorem SharesWith.of_request {t : ManagerTransition} {l : ManagerLine} {m : CoherenceMessage}
    (h : P.SharesWith Y c p) (hX : P.lineOf X = X) (hp : p ∈ P.managerPosts (P.home X) X t.actions)
    (ht : l.onRequest m.op m.src = some t) (ha : P.Asks (P.home X) m) (hm : P.lineOf m.addr = X) :
    Y = X ∧ P.SharesWith Y c (P.letter m.src (P.home Y) m) := by
  obtain ⟨rfl, n, hn, hs⟩ := h.of_managerPosts hX hp
  obtain ⟨hop, rfl⟩ := ManagerLine.sharesWith_of_onRequest ht hn hs
  exact ⟨rfl, ha.sharesWith hm hop⟩

end Plan

/-! ## Banks -/

namespace BankView

variable {P : Plan} {b c : NodeId} {w w' : BankView} {X Y : Addr} {p : Packet}
  {m : CoherenceMessage}

theorem mem_traffic : p ∈ w.traffic P b X ↔
    p ∈ w.out ∨ (∃ m ∈ w.held, P.letter m.src b m = p) ∨
      ∃ l m, w.line X = some l ∧ l.request = some m ∧ P.letter m.src b m = p := by
  simp only [traffic, Plan.letters, Multiset.mem_add, Multiset.mem_map, BankLine.pending,
    Multiset.mem_coe, Option.mem_toList, Option.bind_eq_some_iff]
  grind

theorem mem_traffic_hold :
    p ∈ (w.hold m).traffic P b X ↔ P.letter m.src b m = p ∨ p ∈ w.traffic P b X := by
  simp only [mem_traffic, hold, Multiset.mem_cons]
  grind

/-- Once a line has changed, what is new is what was posted and the request that now waits. -/
theorem of_mem_traffic_put {l : Option BankLine} {posts : Multiset Packet}
    (h : p ∈ (w.put X l posts).traffic P b Y) : p ∈ w.traffic P b Y ∨ p ∈ posts ∨
      ∃ l' m, l = some l' ∧ l'.request = some m ∧ P.letter m.src b m = p := by
  simp only [mem_traffic, put, Multiset.mem_add] at h ⊢
  rcases h with (h | h) | h | ⟨l', m, hl, hm, hletter⟩
  · exact .inl (.inl h)
  · exact .inr (.inl h)
  · exact .inl (.inr (.inl h))
  · by_cases hYX : Y = X
    · subst hYX
      rw [update_self] at hl
      exact .inr (.inr ⟨l', m, hl, hm, hletter⟩)
    · rw [update_of_ne hYX] at hl
      exact .inl (.inr (.inr ⟨l', m, hl, hm, hletter⟩))

/-- What a bank does by itself promises a shared copy to nobody anew. -/
theorem Step.sharesWith (h : Step P b w w') (ho : w.Orderly P b) (hp : p ∈ w'.traffic P b Y)
    (hs : P.SharesWith Y c p) : ∃ q ∈ w.traffic P b Y, P.SharesWith Y c q := by
  cases h with
  | @serve w m X l d t hm hX hl ht =>
    have hasks := ho.held m (Multiset.mem_cons_self m w.held)
    rcases of_mem_traffic_put hp with hp | hp | ⟨l', m', hl', hm', -⟩
    · exact ⟨p, mem_traffic_hold.2 (.inr hp), hs⟩
    · -- what is handed out is what the request asked for
      obtain rfl : P.home X = b := hm ▸ hasks.home
      obtain ⟨rfl, hs'⟩ := hs.of_request hX hp ht hasks hm
      exact ⟨_, mem_traffic_hold.2 (.inl rfl), hs'⟩
    · cases hl'
      cases hm'
  | drop => exact ⟨p, mem_traffic_hold.2 (.inr hp), hs⟩
  | @enrol w m X hm hl hop =>
    rcases of_mem_traffic_put hp with hp | hp | ⟨l', m', hl', hm', hletter⟩
    · exact ⟨p, mem_traffic_hold.2 (.inr hp), hs⟩
    · cases hp
    · cases hl'
      cases hm'
      exact ⟨p, mem_traffic_hold.2 (.inl hletter), hs⟩
  | @ask w X l d m hX hl =>
    rcases of_mem_traffic_put hp with hp | hp | ⟨l', m', hl', hm', hletter⟩
    · exact ⟨p, hp, hs⟩
    · rw [Multiset.mem_singleton.1 hp] at hs
      exact absurd hs (Plan.not_sharesWith_of_note? rfl)
    · -- the request that waits is the one that waited before
      cases hl'
      cases hm'
      obtain ⟨hasks, hmX, -⟩ := (ho.lines X _ hl).request m rfl
      obtain ⟨n, hnote, hshare⟩ := hs
      obtain rfl : X = Y := by
        rw [← hletter, Plan.note?_letter, hmX] at hnote
        exact (Option.ite_none_right_eq_some.1 hnote).1
      exact ⟨p, mem_traffic.2 (.inr (.inr ⟨_, m, hl, rfl, hletter⟩)), n, hnote, hshare⟩
  | @evict w X l d t hX hl ht =>
    rcases of_mem_traffic_put hp with hp | hp | ⟨l', m', hl', hm', -⟩
    · exact ⟨p, hp, hs⟩
    · obtain ⟨-, n, hn, hshare⟩ := hs.of_managerPosts hX hp
      exact absurd hshare (Note.not_sharesWith (by
        rw [ManagerLine.demandI_of_onEvict b ht n hn]
        rfl))
    · cases hl'
      cases hm'
  | @forget w X l d hX hl hI =>
    rcases of_mem_traffic_put hp with hp | hp | ⟨l', m', hl', -⟩
    · exact ⟨p, hp, hs⟩
    · refine absurd hs (Plan.not_sharesWith_of_note? ?_)
      split at hp
      · rw [Multiset.mem_singleton.1 hp]
        rfl
      · cases hp
    · cases hl'

/-- Other packets are about to leave, and the bank keeps what it kept. -/
theorem mem_traffic_withOut {out : Multiset Packet} (h : p ∈ (w.withOut out).traffic P b X) :
    p ∈ out ∨ p ∈ w.traffic P b X := by
  rw [mem_traffic] at h ⊢
  exact h.imp id .inr

end BankView

/-! ## Scenes -/

namespace Scene

variable {P : Plan} {s s' : Scene} {X Y : Addr} {b c : NodeId} {p : Packet} {T : Multiset Packet}
  {r : Role}

/-- The client `c` is to get a shared copy of the line `X`. -/
def SharesWith (P : Plan) (s : Scene) (X : Addr) (c : NodeId) : Prop :=
  ∃ p ∈ s.transit + (s.bank (P.home X)).traffic P (P.home X) X, P.SharesWith X c p

/-- A client that awaits no copy is not to get a shared one. -/
theorem Sound.not_sharesWith (hs : s.Sound P) (hc : ((s.node c).state X).awaits = false) :
    ¬ s.SharesWith P X c := by
  rintro ⟨p, hp, n, hn, hshare⟩
  exact (hs.agree X).not_sharesWith hc (Plan.count_pos hp hn) hshare

theorem SharesWith.of_transit (hp : p ∈ s.transit) (h : P.SharesWith X c p) :
    s.SharesWith P X c :=
  ⟨p, Multiset.mem_add.2 (.inl hp), h⟩

theorem SharesWith.of_traffic (hp : p ∈ (s.bank (P.home X)).traffic P (P.home X) X)
    (h : P.SharesWith X c p) : s.SharesWith P X c :=
  ⟨p, Multiset.mem_add.2 (.inr hp), h⟩

theorem SharesWith.of_outgoing (hp : p ∈ s.outgoing) (h : P.SharesWith X c p) :
    s.SharesWith P X c :=
  .of_traffic (BankView.mem_traffic.2 (.inl hp)) h

/-- Only what leaves and what is in transit has changed. -/
theorem SharesWith.of_withOut (h : s'.SharesWith P X c)
    (hb : s'.bank (P.home X) = (s.bank (P.home X)).withOut s'.outgoing)
    (hout : ∀ p ∈ s'.outgoing + s'.transit, P.SharesWith X c p → s.SharesWith P X c) :
    s.SharesWith P X c := by
  obtain ⟨p, hp, hshare⟩ := h
  rw [hb] at hp
  rcases Multiset.mem_add.1 hp with hp | hp
  · exact hout p (Multiset.mem_add.2 (.inr hp)) hshare
  · rcases BankView.mem_traffic_withOut hp with hp | hp
    · exact hout p (Multiset.mem_add.2 (.inl hp)) hshare
    · exact .of_traffic hp hshare

/-- The credit for a packet says nothing. -/
theorem SharesWith.of_consume (hp : s.transit = p ::ₘ T) {q : Packet}
    (hq : q ∈ P.creditTo p.dst p.src ::ₘ T) (h : P.SharesWith X c q) : s.SharesWith P X c := by
  rcases Multiset.mem_cons.1 hq with rfl | hq
  · exact absurd h (Plan.not_sharesWith_of_note? rfl)
  · exact .of_transit (by rw [hp]; exact Multiset.mem_cons_of_mem hq) h

/-- Whatever bank keeps a packet, the packet counts for its line. -/
theorem SharesWith.of_bank (hs : s.Sound P) (hp : p ∈ (s.bank b).traffic P b X)
    (h : P.SharesWith X c p) : s.SharesWith P X c := by
  -- a bank keeps requests for its own lines alone
  have hown : ∀ m, P.Asks b m → P.letter m.src b m = p → P.home X = b := by
    rintro m hasks rfl
    obtain ⟨n, hn, -⟩ := h
    rw [Plan.note?_letter] at hn
    rw [← (Option.ite_none_right_eq_some.1 hn).1]
    exact hasks.home
  rcases BankView.mem_traffic.1 hp with hout | ⟨m, hm, hletter⟩ | ⟨l, m, hl, hm, hletter⟩
  · exact .of_outgoing hout h
  · obtain rfl := hown m ((hs.orderly b).held m hm) hletter
    exact .of_traffic hp h
  · obtain rfl := hown m (((hs.orderly b).lines X l hl).request m hm).1 hletter
    exact .of_traffic hp h

/-- A bank has become `w`, and other packets are in transit. -/
theorem SharesWith.of_setBank {s₀ : Scene} {w : BankView}
    (h : (s₀.setBank b w).SharesWith P X c) (hbank : s₀.bank = s.bank)
    (hT : ∀ q ∈ s₀.transit, P.SharesWith X c q → s.SharesWith P X c)
    (hw : ∀ q ∈ w.traffic P b X, P.SharesWith X c q → s.SharesWith P X c) :
    s.SharesWith P X c := by
  obtain ⟨q, hq, hshare⟩ := h
  rcases Multiset.mem_add.1 hq with hq | hq
  · exact hT q hq hshare
  · by_cases hX : P.home X = b
    · rw [hX, bank_setBank] at hq
      exact hw q hq hshare
    · rw [bank_setBank_ne hX, hbank] at hq
      rcases BankView.mem_traffic_withOut hq with hq | hq
      · exact hw q (BankView.mem_traffic.2 (.inl hq)) hshare
      · exact .of_traffic hq hshare

/-- What banks and memory do promises a shared copy to nobody anew. -/
theorem Step.sharesWith (h : Step P r s s') (hr : r ≠ .client) (hs : s.Sound P)
    (hshare : s'.SharesWith P X c) : s.SharesWith P X c := by
  cases h with
  | access | message => exact absurd rfl hr
  | @work _ b w hb hw =>
    refine hshare.of_setBank rfl (fun q hq => .of_transit hq) fun q hq hshare => ?_
    obtain ⟨q', hq', hshare'⟩ := hw.sharesWith (hs.orderly b) hq hshare
    exact .of_bank hs hq' hshare'
  | @arrive _ p m T hb hp hm hk =>
    obtain ⟨hletter, -⟩ := request_fits (hs.fits_taken hp) hb hm
    refine hshare.of_setBank rfl (fun q hq => .of_consume hp hq) fun q hq hshare => ?_
    rcases BankView.mem_traffic_hold.1 hq with rfl | hq
    · rw [← hletter] at hshare
      exact .of_transit (by rw [hp]; exact Multiset.mem_cons_self p T) hshare
    · exact .of_bank hs hq hshare
  | @reply _ p m Y l d t T hb hp hm hY hl ht =>
    have hYY : P.lineOf Y = Y := by rw [← hY, P.lineOf_lineOf]
    refine hshare.of_setBank rfl (fun q hq => .of_consume hp hq) fun q hq hshare => ?_
    rcases BankView.of_mem_traffic_put hq with hq | hq | ⟨l', m', hl', hm', -⟩
    · exact .of_bank hs hq hshare
    · -- a reply is answered by an exclusive grant, if by anything
      obtain ⟨-, n, hn, hnote⟩ := hshare.of_managerPosts hYY hq
      exact absurd hnote (Note.not_sharesWith (by
        rw [ManagerLine.grantE_of_onReply p.dst ht n hn]
        rfl))
    · cases hl'
      cases hm'
  | @fetched _ p m k Y l d t T hb hp hm hY hl ht =>
    obtain ⟨-, hYY, -⟩ := supplied_fits (hs.fits_taken hp) hb hm
    rw [hY] at hYY
    subst hYY
    have hfit := (hs.orderly p.dst).lines m.addr _ hl
    obtain ⟨hasks, hkY, -⟩ := hfit.request k rfl
    refine hshare.of_setBank rfl (fun q hq => .of_consume hp hq) fun q hq hshare => ?_
    rcases BankView.of_mem_traffic_put hq with hq | hq | ⟨l', m', hl', hm', -⟩
    · exact .of_bank hs hq hshare
    · -- what is handed out is what the request that waited asked for
      rw [← hfit.home] at hq hasks
      obtain ⟨rfl, hshare'⟩ := hshare.of_request hY hq ht hasks hkY
      rw [← hfit.home] at hl
      exact .of_traffic (BankView.mem_traffic.2 (.inr (.inr ⟨_, k, hl, rfl, rfl⟩))) hshare'
    · cases hl'
      cases hm'
  | @read _ p m T _ hp =>
    refine hshare.of_withOut rfl fun q hq hshare => ?_
    rcases Multiset.mem_add.1 hq with hq | hq
    · rcases Multiset.mem_add.1 hq with hq | hq
      · exact .of_outgoing hq hshare
      · rw [Multiset.mem_singleton.1 hq] at hshare
        exact absurd hshare (Plan.not_sharesWith_of_note? rfl)
    · exact .of_consume hp hq hshare
  | @write _ p m T _ hp =>
    refine hshare.of_withOut rfl fun q hq hshare => ?_
    rcases Multiset.mem_add.1 hq with hq | hq
    · exact .of_outgoing hq hshare
    · exact .of_consume hp hq hshare
  | @refund _ _ p T _ hp =>
    refine hshare.of_withOut (bank_setCredits ..) fun q hq hshare => ?_
    rcases Multiset.mem_add.1 hq with hq | hq
    · exact .of_outgoing hq hshare
    · exact .of_transit (by rw [hp]; exact Multiset.mem_cons_of_mem hq) hshare
  | @leave _ _ p R k _ hp =>
    refine hshare.of_withOut ?_ fun q hq hnote => ?_
    · show ((s.setCredits p.src k).bank (P.home X)).withOut R = _
      rw [bank_setCredits]
    · rcases Multiset.mem_add.1 hq with hq | hq
      · exact .of_outgoing (by rw [hp]; exact Multiset.mem_cons_of_mem hq) hnote
      · rcases Multiset.mem_cons.1 hq with rfl | hq
        · exact .of_outgoing (by rw [hp]; exact Multiset.mem_cons_self q R) hnote
        · exact .of_transit hq hnote

/-- So does a run of theirs. -/
theorem Run.sharesWith (h : Run P r s s') (hr : r ≠ .client) (hs : s.Sound P)
    (hshare : s'.SharesWith P X c) : s.SharesWith P X c := by
  induction h with
  | refl => exact hshare
  | tail hrun hstep ih => exact ih (hstep.sharesWith hr (Run.sound hrun hs) hshare)

end Scene

end CacheCoherence
