import CacheCoherence.Proofs.Protocol.ManagerSteps

/-!
# Naming — the nodes that a line's messages are for

The manager sends only to nodes that asked it for the line, and a client sends data
only to a node that the manager named. So where all requests come from clients, no
message for a client goes anywhere else.
-/

namespace CacheCoherence

/-- All nodes that the manager's record names satisfy `P`. -/
structure ManagerLine.Names (P : NodeId → Prop) (l : ManagerLine) : Prop where
  owner : ∀ c, l.owner = some c → P c
  sharers : ∀ c ∈ l.sharers.members, P c

/-- A note goes to a node that satisfies `P`, and so does what it makes another node
send. -/
structure Note.Names (P : NodeId → Prop) (n : Note) : Prop where
  dst : P n.dst
  forwardTo : ∀ r, n.forwardTo = some r → P r

theorem Note.names_of_none {P : NodeId → Prop} {n : Note} (h : P n.dst) (hf : n.forwardTo = none) :
    n.Names P :=
  ⟨h, fun r hr => by rw [hf] at hr; cases hr⟩

/-- A client sends to the manager, and the data it sends to others goes where it was
told to. -/
theorem ClientState.onMessage_names {s : ClientState} {op : Opcode} {fwd : Option NodeId}
    {t : ClientTransition} {P : NodeId → Prop} (home me : NodeId)
    (h : s.onMessage op fwd = some t) (hf : ∀ r, fwd = some r → P r) :
    ∀ n ∈ t.notes home me, n.src = me ∧ n.forwardTo = none ∧
      (n.op.answers = true ∧ n.dst = home ∨ n.op.toClient = true ∧ P n.dst) := by
  cases s <;> cases op <;> cases fwd <;> simp [onMessage] at h <;> subst h <;>
    simp [ClientTransition.notes, Opcode.answers, Opcode.toClient] <;> exact hf _ rfl

/-- No client demands anything. -/
theorem ClientState.not_demandI_of_onMessage {s : ClientState} {op : Opcode} {fwd : Option NodeId}
    {t : ClientTransition} (home me : NodeId) (h : s.onMessage op fwd = some t) :
    ∀ n ∈ t.notes home me, n.op ≠ .demandI := by
  cases s <;> cases op <;> cases fwd <;> simp [onMessage] at h <;> subst h <;>
    simp [ClientTransition.notes]

/-- An access makes a client send to the manager alone. -/
theorem ClientState.onProcessor_names {s : ClientState} {op : ProcessorOp} {t : ClientTransition}
    (home me : NodeId) (h : s.onProcessor op = some t) :
    ∀ n ∈ t.notes home me,
      n.src = me ∧ n.dst = home ∧ n.forwardTo = none ∧ n.op.opens = true := by
  cases s <;> cases op <;> simp [onProcessor] at h <;> subst h <;>
    simp [ClientTransition.notes, Opcode.opens]

namespace ManagerLine

variable {P : NodeId → Prop} {l : ManagerLine} {op : Opcode} {src home : NodeId}
  {t : ManagerTransition}

theorem names_initial (P : NodeId → Prop) : initial.Names P :=
  ⟨nofun, nofun⟩

theorem notes_demands {next : ManagerLine} {ids : List NodeId} (h : ∀ c ∈ ids, P c) :
    ∀ n ∈ ManagerTransition.notes { next, actions := demands ids } home, n.Names P := by
  intro n hn
  rw [ManagerTransition.notes, demands_notes] at hn
  obtain ⟨c, hc, rfl⟩ := List.mem_map.1 hn
  exact Note.names_of_none (h c hc) rfl

/-- A single note to a node that satisfies `P`. -/
theorem notes_send {next : ManagerLine} {a : Opcode} {c : NodeId} (h : P c) :
    ∀ n ∈ ManagerTransition.notes { next, actions := [.send a c none] } home, n.Names P := by
  intro n hn
  obtain rfl := List.mem_singleton.1 hn
  exact Note.names_of_none h rfl

theorem notes_forward {next : ManagerLine} {a : Opcode} {c r : NodeId} (h : P c) (hr : P r) :
    ∀ n ∈ ManagerTransition.notes { next, actions := [.send a c (some r)] } home, n.Names P := by
  intro n hn
  obtain rfl := List.mem_singleton.1 hn
  exact ⟨h, fun r' h' => by cases h'; exact hr⟩

theorem onRequest_names (hl : l.Names P) (hs : P src) (ht : l.onRequest op src = some t) :
    t.next.Names P ∧ ∀ n ∈ t.notes home, n.Names P := by
  unfold onRequest at ht
  split at ht
  case h_1 | h_2 =>
    cases ht
    exact ⟨⟨fun c hc => by cases hc; exact hs, hl.sharers⟩, notes_send hs⟩
  case h_5 =>
    obtain ⟨o, ho, rfl⟩ := Option.map_eq_some_iff.1 ht
    have ho := hl.owner o (ownerOtherThan_eq_some.1 ho).1
    exact ⟨⟨hl.owner, hl.sharers⟩, notes_forward ho hs⟩
  case h_6 =>
    obtain ⟨o, ho, rfl⟩ := Option.map_eq_some_iff.1 ht
    have ho := hl.owner o (ownerOtherThan_eq_some.1 ho).1
    refine ⟨⟨by simp, fun c hc => ?_⟩, notes_forward ho hs⟩
    simp [SharerSet.ofList] at hc
    rcases hc with rfl | rfl
    · exact hs
    · exact ho
  case h_7 =>
    split at ht <;> cases ht
    · exact ⟨⟨by simp, hl.sharers⟩, notes_send hs⟩
    · exact ⟨hl, by simp [ManagerTransition.notes, ManagerAction.note?]⟩
  case h_8 =>
    split at ht <;> cases ht
    · refine ⟨⟨by simp, hl.sharers⟩, fun n hn => ?_⟩
      obtain rfl := List.mem_singleton.1 hn
      exact Note.names_of_none hs rfl
    · exact ⟨hl, by simp [ManagerTransition.notes, ManagerAction.note?]⟩
  case h_11 =>
    cases ht
    refine ⟨⟨hl.owner, fun c hc => ?_⟩, notes_send hs⟩
    rcases SharerSet.mem_members_insert.1 hc with rfl | hc
    · exact hs
    · exact hl.sharers c hc
  case h_12 =>
    have hothers : ∀ c ∈ l.sharers.others src, P c := fun c hc =>
      hl.sharers c (List.mem_filter.1 hc).1
    dsimp only at ht
    split at ht <;> cases ht
    · exact ⟨⟨fun c hc => by cases hc; exact hs, by simp⟩, notes_send hs⟩
    · exact ⟨⟨fun c hc => by cases hc; exact hs, by simp⟩, notes_demands hothers⟩
  case h_13 => cases ht
  all_goals
    cases ht
    exact ⟨hl, by simp [ManagerTransition.notes, ManagerAction.note?]⟩

theorem names_settleShared (h : l.Names P) : l.settleShared.Names P := by
  unfold settleShared
  split
  · exact ⟨h.owner, h.sharers⟩
  · exact h

theorem names_acknowledged {l' : ManagerLine} (hl : l.Names P) (h : l.acknowledged? = some l') :
    l'.Names P := by
  unfold acknowledged? at h
  split at h <;> cases h
  exact ⟨hl.owner, hl.sharers⟩

theorem onReply_names (home : NodeId) (hl : l.Names P) (hs : P src)
    (ht : l.onReply op src = some t) :
    t.next.Names P ∧ ∀ n ∈ t.notes home, n.Names P := by
  unfold onReply at ht
  have hnil : ∀ n ∈ ManagerTransition.notes { next := t.next, actions := [.writeback] } home,
      n.Names P := by
    simp [ManagerTransition.notes, ManagerAction.note?]
  split at ht
  case h_1 | h_7 =>
    cases ht
    exact ⟨⟨hl.owner, hl.sharers⟩, by simp [ManagerTransition.notes]⟩
  case h_2 =>
    cases ht
    exact ⟨⟨fun c hc => by cases hc; exact hs, hl.sharers⟩, by simp [ManagerTransition.notes]⟩
  case h_3 | h_4 | h_5 =>
    obtain ⟨l', hl', rfl⟩ := Option.map_eq_some_iff.1 ht
    exact ⟨names_settleShared (names_acknowledged hl hl'),
      by simp [ManagerTransition.notes, ManagerAction.note?]⟩
  case h_6 =>
    cases ht
    exact ⟨⟨fun c hc => by cases hc; exact hs, by simp⟩,
      by simp [ManagerTransition.notes]⟩
  case h_8 =>
    obtain ⟨l', hl', ht⟩ := Option.bind_eq_some_iff.1 ht
    have hn := names_acknowledged hl hl'
    split at ht
    · obtain ⟨o, ho, rfl⟩ := Option.map_eq_some_iff.1 ht
      exact ⟨⟨hn.owner, hn.sharers⟩, notes_send (hn.owner o ho)⟩
    · cases ht
      exact ⟨hn, by simp [ManagerTransition.notes]⟩
  case h_12 =>
    obtain ⟨l', hl', rfl⟩ := Option.map_eq_some_iff.1 ht
    have hn := names_acknowledged hl hl'
    refine ⟨?_, by simp [ManagerTransition.notes]⟩
    dsimp only
    split
    · exact ⟨hn.owner, hn.sharers⟩
    · exact hn
  case h_13 => cases ht
  all_goals
    cases ht
    exact ⟨⟨hl.owner, hl.sharers⟩, by simp [ManagerTransition.notes, ManagerAction.note?]⟩

theorem onEvict_names (home : NodeId) (hl : l.Names P) (ht : l.onEvict = some t) :
    t.next.Names P ∧ ∀ n ∈ t.notes home, n.Names P := by
  unfold onEvict at ht
  split at ht
  · cases ht
    exact ⟨hl, by simp [ManagerTransition.notes]⟩
  · obtain ⟨o, ho, rfl⟩ := Option.map_eq_some_iff.1 ht
    exact ⟨⟨by simp, hl.sharers⟩, notes_send (hl.owner o ho)⟩
  · cases ht
    exact ⟨⟨hl.owner, by simp⟩, notes_demands hl.sharers⟩
  · cases ht

end ManagerLine

end CacheCoherence
