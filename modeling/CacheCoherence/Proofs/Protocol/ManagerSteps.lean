import CacheCoherence.Proofs.Protocol.ClientSteps

/-!
# Manager steps — what the manager does to the phase of its line

A request and a replacement open a new phase, a reply moves on the one that is
under way. None of them changes a client.
-/

namespace CacheCoherence

/-! ## Reading the manager table -/

namespace ManagerLine

variable {l : ManagerLine} {op : Opcode} {src home : NodeId} {t : ManagerTransition}

theorem transition_request :
    l.transition (.request op src) = .ok t ↔ l.onRequest op src = some t := by
  unfold transition
  cases h : l.onRequest op src <;> simp [h]

theorem transition_reply : l.transition (.reply op src) = .ok t ↔ l.onReply op src = some t := by
  unfold transition
  cases h : l.onReply op src <;> simp [h]

theorem transition_evict : l.transition .evict = .ok t ↔ l.onEvict = some t := by
  unfold transition
  cases l.onEvict <;> simp

theorem opens_of_onRequest (h : l.onRequest op src = some t) : op.opens = true := by
  unfold onRequest at h
  cases hs : l.state <;> cases op <;> simp [hs] at h <;> rfl

theorem answers_of_onReply (h : l.onReply op src = some t) : op.answers = true := by
  unfold onReply at h
  cases hs : l.state <;> cases op <;> simp [hs] at h <;> rfl

/-- A request is taken up only when nothing else is going on. -/
theorem stable_of_onRequest (h : l.onRequest op src = some t) : l.isStable = true := by
  unfold onRequest at h
  unfold isStable
  cases hs : l.state <;> first | rfl | (cases op <;> simp [hs] at h)

/-- A reply is taken only while it is awaited. -/
theorem not_stable_of_onReply (h : l.onReply op src = some t) : l.isStable = false := by
  unfold onReply at h
  unfold isStable
  split at h
  case h_13 => cases h
  all_goals
    next hs =>
    rw [hs]
    rfl

theorem stable_of_onEvict (h : l.onEvict = some t) : l.isStable = true := by
  unfold onEvict at h
  unfold isStable
  cases hs : l.state <;> first | rfl | simp [hs] at h

/-- Half of the word on a shared copy: the manager waits for one acknowledgement
less. -/
theorem onReply_confirm (home : NodeId) (hs : l.state = .ES)
    (hop : op = .unblockS ∨ op = .clean ∨ op = .writeback)
    (h : l.onReply op src = some t) :
    t.next = settleShared { l with pendingAcks := l.pendingAcks - 1 } ∧ t.notes home = [] := by
  unfold onReply acknowledged? at h
  rcases hop with rfl | rfl | rfl <;> simp only [hs] at h <;> split at h <;>
    simp at h <;> simp [← h, hs, ManagerTransition.notes, ManagerAction.note?]

theorem ownerOtherThan_eq_some {o : NodeId} :
    l.ownerOtherThan src = some o ↔ l.owner = some o ∧ o ≠ src := by
  simp [ownerOtherThan, Option.filter_eq_some_iff]

theorem demands_notes (home : NodeId) (ids : List NodeId) :
    (demands ids).filterMap (·.note? home) = demandsTo home ids := by
  rw [demands, List.filterMap_map]
  exact congrFun List.filterMap_eq_map ids

end ManagerLine

theorem SharerSet.mem_ofList_pair (a b : NodeId) :
    a ∈ (SharerSet.ofList [a, b]).members ∧ b ∈ (SharerSet.ofList [a, b]).members := by
  simp [SharerSet.ofList]

theorem Among.mono {cl : NodeId → ClientState} {ids ids' : List NodeId} (h : Among cl ids)
    (hi : ∀ c ∈ ids, c ∈ ids') : Among cl ids' :=
  fun c => ⟨(h c).1, fun hc => hi c ((h c).2 hc)⟩

theorem Hold.eq_nothing {x : Hold} (hs : x ≠ .sole) (hc : x ≠ .copy) : x = .nothing := by
  cases x
  · rfl
  · exact absurd rfl hc
  · exact absurd rfl hs

theorem Among.nobody {cl : NodeId → ClientState} (h : Among cl []) : Nobody cl :=
  fun c => Hold.eq_nothing (h c).1 fun hc => List.not_mem_nil ((h c).2 hc)

/-- The client that is served once a request of `src` is taken up. -/
def Opcode.serves (op : Opcode) (src : NodeId) : Option NodeId :=
  if op.asks then some src else none

/-- A client that asks for a copy and holds nothing is in `IE`. -/
theorem ClientState.eq_IE {s : ClientState} (ha : s.awaits = true) (hs : s ≠ .SE) : s = .IE := by
  cases s <;> simp_all [awaits]

theorem ClientState.ne_SE_of_nothing {s : ClientState} (h : s.hold = .nothing) : s ≠ .SE := by
  rintro rfl
  cases h

namespace Phase

variable {home : NodeId} {cl : NodeId → ClientState} {l : ManagerLine} {served : Option NodeId}
  {notes : List Note} {op : Opcode} {src : NodeId} {t : ManagerTransition}

/-! ## Requests -/

theorem request_invalid (hs : l.state = .I) (h : Nobody cl)
    (hask : op.asks = true → (cl src).awaits = true) (ht : l.onRequest op src = some t) :
    Phase home cl t.next (op.serves src) (t.notes home) := by
  have hopens := ManagerLine.opens_of_onRequest ht
  unfold ManagerLine.onRequest at ht
  cases op <;> simp [hs] at ht hopens <;> subst ht
  · exact .granting rfl rfl (hask rfl) (h.nobodyBut src)
  · exact .granting rfl rfl (hask rfl) (h.nobodyBut src)
  · exact .invalid hs h
  · exact .invalid hs h

theorem request_owned {o : NodeId} (hs : l.state = .E) (ho : l.owner = some o) (h : Sole cl o)
    (hask : op.asks = true → (cl src).awaits = true) (ht : l.onRequest op src = some t) :
    Phase home cl t.next (op.serves src) (t.notes home) := by
  have hopens := ManagerLine.opens_of_onRequest ht
  -- the requester holds nothing, since the owner holds the only copy
  have hIE : op.asks = true → o ≠ src → cl src = .IE := fun ha hos =>
    ClientState.eq_IE (hask ha) (ClientState.ne_SE_of_nothing (h.2 src hos.symm))
  unfold ManagerLine.onRequest at ht
  cases op <;> simp only [hs] at ht <;> try cases hopens
  · -- asked for a shared copy: the owner keeps one and passes one on
    obtain ⟨o', ho', rfl⟩ := Option.map_eq_some_iff.1 ht
    obtain ⟨ho', hos⟩ := ManagerLine.ownerOtherThan_eq_some.1 ho'
    obtain rfl : o = o' := Option.some.inj (ho.symm.trans ho')
    obtain ⟨hm, hm'⟩ := SharerSet.mem_ofList_pair o src
    exact .sharing rfl hm hm' rfl h (hIE rfl hos)
  · -- asked for the only copy: the owner passes it on
    obtain ⟨o', ho', rfl⟩ := Option.map_eq_some_iff.1 ht
    obtain ⟨ho', hos⟩ := ManagerLine.ownerOtherThan_eq_some.1 ho'
    obtain rfl : o = o' := Option.some.inj (ho.symm.trans ho')
    exact .passing rfl h (hIE rfl hos)
  -- the owner's own notice is granted, a late one of somebody else changes nothing
  all_goals
    split at ht
    · next heq =>
      obtain rfl : o = src := Option.some.inj (ho.symm.trans heq)
      cases ht
      exact .returning rfl h
    · cases ht
      exact .owned hs ho h

theorem request_shared (hs : l.state = .S) (h : Among cl l.sharers.members)
    (hask : op.asks = true → (cl src).awaits = true) (hup : op = .getS → cl src ≠ .SE)
    (ht : l.onRequest op src = some t) :
    Phase home cl t.next (op.serves src) (t.notes home) := by
  have hopens := ManagerLine.opens_of_onRequest ht
  unfold ManagerLine.onRequest at ht
  cases op <;> simp only [hs] at ht <;> try cases hopens
  · cases ht
    refine .widening rfl ?_ (h.mono fun c hc => ?_) (ClientState.eq_IE (hask rfl) (hup rfl))
    · exact SharerSet.mem_members_insert.2 (.inl rfl)
    · exact SharerSet.mem_members_insert.2 (.inr hc)
  · -- the sharers that are asked to give up are all but the requester itself, which may be
    -- one of them
    have hothers : ∀ c, c ≠ src →
        (cl c).hold ≠ .sole ∧ ((cl c).hold = .copy → c ∈ l.sharers.others src) := by
      intro c hc
      refine ⟨(h c).1, fun hcopy => ?_⟩
      simpa [SharerSet.others, hc] using (h c).2 hcopy
    split at ht
    · next hempty =>
      cases ht
      refine .granting rfl rfl (hask rfl) fun c hc => ?_
      obtain ⟨hsole, hcopy⟩ := hothers c hc
      rw [List.isEmpty_iff.1 hempty] at hcopy
      exact Hold.eq_nothing hsole fun hh => List.not_mem_nil (hcopy hh)
    · next hne =>
      cases ht
      have hpos : 0 < (l.sharers.others src).length := by
        simpa [List.length_pos_iff, List.isEmpty_iff] using hne
      have hphase : Phase home cl
          { state := .SIE, owner := some src, sharers := .empty,
            pendingAcks := (l.sharers.others src).length } (some src)
          (demandsTo home (l.sharers.others src) ++ returnsOf home []) :=
        .recalling rfl rfl (hask rfl) (by simp) hpos hothers
      rw [ManagerTransition.notes, ManagerLine.demands_notes]
      rwa [returnsOf, List.map_nil, List.append_nil] at hphase
  all_goals
    cases ht
    exact .shared hs h

/-- A request opens a phase in which its sender is being served, unless it is an
eviction notice. -/
theorem request (h : Phase home cl l served notes)
    (hask : op.asks = true → (cl src).awaits = true) (hup : op = .getS → cl src ≠ .SE)
    (ht : l.onRequest op src = some t) :
    served = none ∧ notes = [] ∧ Phase home cl t.next (op.serves src) (t.notes home) := by
  obtain ⟨⟨hserved, hnotes⟩, hcase⟩ := h.stable (ManagerLine.stable_of_onRequest ht)
  refine ⟨hserved, hnotes, ?_⟩
  rcases hcase with ⟨hs, h⟩ | ⟨o, hs, ho, h⟩ | ⟨hs, h⟩
  · exact request_invalid hs h hask ht
  · exact request_owned hs ho h hask ht
  · exact request_shared hs h hask hup ht

/-! ## Replacements -/

/-- A replacement calls the line in from whoever holds it. -/
theorem evict (h : Phase home cl l served notes) (ht : l.onEvict = some t) :
    served = none ∧ notes = [] ∧ Phase home cl t.next none (t.notes home) := by
  obtain ⟨⟨hserved, hnotes⟩, hcase⟩ := h.stable (ManagerLine.stable_of_onEvict ht)
  refine ⟨hserved, hnotes, ?_⟩
  unfold ManagerLine.onEvict at ht
  rcases hcase with ⟨hs, h⟩ | ⟨o, hs, ho, h⟩ | ⟨hs, h⟩ <;> simp only [hs] at ht
  · cases ht
    exact .invalid hs h
  · rw [ho] at ht
    cases ht
    exact .revoking rfl h
  · cases ht
    rw [ManagerTransition.notes, ManagerLine.demands_notes]
    -- a line that is recorded as shared by nobody is given up at once
    by_cases hsize : l.sharers.size = 0
    · have hnil : l.sharers.members = [] := SharerSet.size_eq_zero_iff.1 hsize
      rw [hnil] at h ⊢
      exact .invalid (if_pos hsize) h.nobody
    · have hphase : Phase home cl
          { l with
            state := if l.sharers.size = 0 then .I else .SIEvict
            sharers := .empty
            pendingAcks := l.sharers.size } none
          (demandsTo home l.sharers.members ++ returnsOf home []) :=
        .dissolving (if_neg hsize) l.sharers.size_eq (Nat.pos_of_ne_zero hsize) h
      rwa [returnsOf, List.map_nil, List.append_nil] at hphase

/-! ## Replies -/

/-- One client less has yet to give its word. -/
theorem count_erase_return (home : NodeId) {c : NodeId} (ids : List NodeId) {gone : List NodeId}
    (hc : c ∈ gone) (k : Note) :
    (demandsTo home ids ++ returnsOf home (gone.erase c)).count k
        + [({ src := c, dst := home, op := .unblockI } : Note)].count k
      = (demandsTo home ids ++ returnsOf home gone).count k := by
  have hp : (returnsOf home gone).count k = (returnsOf home (c :: gone.erase c)).count k :=
    ((List.perm_cons_erase hc).map _).count_eq k
  rw [List.count_append, List.count_append, hp]
  simp only [returnsOf, List.map_cons, List.count_cons, List.count_nil]
  omega

/-- The last word is that of the only client that has been asked. -/
theorem last_word {c : NodeId} {ids gone : List NodeId} (hc : c ∈ gone)
    (hz : ids.length + gone.length - 1 = 0) : ids = [] ∧ gone = [c] := by
  have hlen := List.length_erase_of_mem hc
  have hpos := List.length_pos_of_mem hc
  have hnil : gone.erase c = [] := List.length_eq_zero_iff.1 (by omega)
  exact ⟨List.length_eq_zero_iff.1 (by omega),
    List.perm_singleton.1 ((List.perm_cons_erase hc).trans (by rw [hnil]))⟩

theorem count_erase_self {n : Note} {acks : List Note} (hn : n ∈ acks) (k : Note) :
    (acks.erase n).count k + [n].count k = acks.count k := by
  rw [(List.perm_cons_erase hn).count_eq k]
  simp only [List.count_cons, List.count_nil]
  omega

/-- The word of a client that it keeps or has got a shared copy. -/
theorem reply_share {n : Note} {acks : List Note} (hs : l.state = .ES)
    (hc : ∀ n ∈ acks, ConfirmsShare home n) (hn : n ∈ acks)
    (ht : l.onReply n.op n.src = some t) :
    t.next.sharers = l.sharers ∧ t.next.pendingAcks = l.pendingAcks - 1 ∧
      t.next.state = (if l.pendingAcks - 1 = 0 then .S else .ES) ∧ t.notes home = [] := by
  obtain ⟨-, -, hop⟩ := hc n hn
  obtain ⟨hnext, hnotes⟩ := ManagerLine.onReply_confirm home hs hop ht
  rw [hnext]
  unfold ManagerLine.settleShared
  refine ⟨?_, ?_, ?_, hnotes⟩ <;> split <;> simp_all

/-- The word of a client that it no longer holds a line that all are giving up. -/
theorem reply_recall (home : NodeId) {o c : NodeId} (hs : l.state = .SIE) (ho : l.owner = some o)
    (ht : l.onReply .unblockI c = some t) :
    t.next.owner = some o ∧ t.next.pendingAcks = l.pendingAcks - 1 ∧
      t.next.state = (if l.pendingAcks - 1 = 0 then .IE else .SIE) ∧
      t.notes home = (if l.pendingAcks - 1 = 0 then
        [{ src := home, dst := o, op := .grantE }] else []) := by
  simp only [ManagerLine.onReply, hs, ManagerLine.acknowledged?] at ht
  split at ht
  · cases ht
  · by_cases hz : l.pendingAcks - 1 = 0
    · simp [hz, ho] at ht
      simp [← ht, hz, ManagerTransition.notes, ManagerAction.note?]
    · simp [hz] at ht
      simp [← ht, hz, ho, ManagerTransition.notes]

theorem reply_dissolve (home : NodeId) {c : NodeId} (hs : l.state = .SIEvict)
    (ht : l.onReply .unblockI c = some t) :
    t.next.pendingAcks = l.pendingAcks - 1 ∧
      t.next.state = (if l.pendingAcks - 1 = 0 then .I else .SIEvict) ∧ t.notes home = [] := by
  simp only [ManagerLine.onReply, hs, ManagerLine.acknowledged?] at ht
  split at ht
  · cases ht
  · by_cases hz : l.pendingAcks - 1 = 0
    · simp [hz] at ht
      simp [← ht, hz, ManagerTransition.notes]
    · simp [hz] at ht
      simp [← ht, hz, ManagerTransition.notes]

/-- A reply to the manager moves the phase on. -/
theorem reply {n : Note} (h : Phase home cl l served notes) (hn : n ∈ notes)
    (ht : l.onReply n.op n.src = some t) :
    ∃ notes', Phase home cl t.next served notes' ∧
      ∀ k, notes'.count k + [n].count k = notes.count k + (t.notes home).count k := by
  have hop := ManagerLine.answers_of_onReply ht
  cases h with
  | invalid | owned | shared => simp at hn
  -- all that is on its way here is for a client, and the manager takes none of it
  | granting | passing | sharing | widening | returning | revoking =>
    obtain rfl := List.mem_singleton.1 hn
    cases hop
  | passed _ _ _ hd =>
    obtain rfl := List.mem_singleton.1 hn
    rcases hd with rfl | rfl <;> cases hop
  -- the requester has its copy
  | granted hs ho h =>
    obtain rfl := List.mem_singleton.1 hn
    simp only [ManagerLine.onReply, hs] at ht
    cases ht
    exact ⟨[], .owned rfl ho h, fun k => Nat.add_comm ..⟩
  | taken hs h =>
    obtain rfl := List.mem_singleton.1 hn
    rcases hs with hs | hs <;> simp only [ManagerLine.onReply, hs] at ht <;> cases ht <;>
      exact ⟨[], .owned rfl rfl h, fun k => Nat.add_comm ..⟩
  -- the old owner's word may come before the requester has its copy
  | @halving o r acks hs hm ha hc h hr =>
    rcases List.mem_cons.1 hn with rfl | hn
    · cases hop
    · obtain ⟨hsh, hp, hst, hno⟩ := reply_share hs hc hn ht
      have hpos := List.length_pos_of_mem hn
      have hlen := List.length_erase_of_mem hn
      refine ⟨{ src := o, dst := r, op := .dataS } :: acks.erase n,
        .halving (by rw [hst, if_neg (by omega)]) (hsh ▸ hm) (by rw [hp, hlen]; omega)
          (fun x hx => hc x (List.mem_of_mem_erase hx)) (hsh ▸ h) hr, fun k => ?_⟩
      have hk := count_erase_self hn k
      simp only [hno, List.count_cons, List.count_nil] at hk ⊢
      omega
  | halved hs ha _ hc h =>
    obtain ⟨hsh, hp, hst, hno⟩ := reply_share hs hc hn ht
    have hlen := List.length_erase_of_mem hn
    refine ⟨notes.erase n, ?_, fun k => by
      rw [count_erase_self hn k, hno, List.count_nil, Nat.add_zero]⟩
    by_cases hz : l.pendingAcks - 1 = 0
    · have hnil : notes.erase n = [] := List.length_eq_zero_iff.1 (by omega)
      rw [hnil]
      exact .shared (by rw [hst, if_pos hz]) (hsh ▸ h)
    · have hpos : notes.erase n ≠ [] := List.ne_nil_of_length_pos (by omega)
      exact .halved (by rw [hst, if_neg hz]) (by omega) hpos
        (fun x hx => hc x (List.mem_of_mem_erase hx)) (hsh ▸ h)
  | widened hs h =>
    obtain rfl := List.mem_singleton.1 hn
    simp only [ManagerLine.onReply, hs] at ht
    cases ht
    exact ⟨[], .shared rfl h, fun k => Nat.add_comm ..⟩
  -- the last word of a sharer sends the grant off that waited for it
  | @recalling o ids gone hs ho hw ha hp h =>
    rcases List.mem_append.1 hn with hn | hn
    · obtain ⟨c, -, rfl⟩ := List.mem_map.1 hn
      cases hop
    · obtain ⟨c, hc, rfl⟩ := List.mem_map.1 hn
      obtain ⟨hno, hnp, hst, hnn⟩ := reply_recall home hs ho ht
      have hlen := List.length_erase_of_mem hc
      have hpos := List.length_pos_of_mem hc
      by_cases hz : l.pendingAcks - 1 = 0
      · obtain ⟨rfl, rfl⟩ := last_word hc (ha ▸ hz)
        refine ⟨_, .granting (by rw [hst, if_pos hz]) hno hw fun c hco => ?_, fun k => ?_⟩
        · obtain ⟨hsole, hcopy⟩ := h c hco
          exact Hold.eq_nothing hsole fun hh => List.not_mem_nil (hcopy hh)
        · rw [hnn, if_pos hz]
          exact Nat.add_comm ..
      · refine ⟨demandsTo home ids ++ returnsOf home (gone.erase c),
          .recalling (by rw [hst, if_neg hz]) hno hw (by omega) (by omega) h, fun k => ?_⟩
        rw [count_erase_return home ids hc k, hnn, if_neg hz]
        rfl
  | returned hs h =>
    obtain rfl := List.mem_singleton.1 hn
    simp only [ManagerLine.onReply, hs] at ht
    cases ht
    exact ⟨[], .invalid rfl h, fun k => Nat.add_comm ..⟩
  | revoked hs h hd =>
    obtain rfl := List.mem_singleton.1 hn
    rcases hd with rfl | rfl <;> simp only [ManagerLine.onReply, hs] at ht <;> cases ht <;>
      exact ⟨[], .invalid rfl h, fun k => Nat.add_comm ..⟩
  | @dissolving ids gone hs ha hp h =>
    rcases List.mem_append.1 hn with hn | hn
    · obtain ⟨c, -, rfl⟩ := List.mem_map.1 hn
      cases hop
    · obtain ⟨c, hc, rfl⟩ := List.mem_map.1 hn
      obtain ⟨hnp, hst, hnn⟩ := reply_dissolve home hs ht
      have hlen := List.length_erase_of_mem hc
      have hpos := List.length_pos_of_mem hc
      by_cases hz : l.pendingAcks - 1 = 0
      · obtain ⟨rfl, rfl⟩ := last_word hc (ha ▸ hz)
        refine ⟨[], .invalid (by rw [hst, if_pos hz]) h.nobody, fun k => ?_⟩
        rw [hnn]
        exact Nat.add_comm ..
      · refine ⟨demandsTo home ids ++ returnsOf home (gone.erase c),
          .dissolving (by rw [hst, if_neg hz]) (by omega) (by omega) h, fun k => ?_⟩
        rw [count_erase_return home ids hc k, hnn]
        rfl

end Phase

end CacheCoherence
