import CacheCoherence.Proofs.Protocol.Exchange

/-!
# Order — what a client has opened and the manager has not taken up

Messages from one client keep their order, so a client that was given a copy has no
older notice on its way: its request was behind the notice. This is what rules out that
the manager takes an old notice for a new one.
-/

namespace CacheCoherence

/-- What a client in a state may have on its way that the manager has not taken up, and
whether the manager's word on its eviction may be on its way back. -/
def InOrder (s : ClientState) (sent : List Opcode) (granted : Prop) : Prop :=
  match s with
  | .S | .E | .M => sent = [] ∧ ¬ granted
  | .EI => sent = [.putE] ∧ ¬ granted ∨ sent = [] ∧ granted
  | .MI => sent = [.putM] ∧ ¬ granted ∨ sent = [] ∧ granted
  | .I => (∀ op ∈ sent, op.isEviction = true) ∧ ¬ granted
  | .IE =>
      (sent = [] ∨ ∃ stale ask, (∀ op ∈ stale, op.isEviction = true) ∧ ask.asks = true ∧
        sent = stale ++ [ask]) ∧ ¬ granted
  | .SE => (sent = [] ∨ sent = [.getE]) ∧ ¬ granted

namespace InOrder

variable {s : ClientState} {sent : List Opcode} {granted : Prop}

/-- The manager's word goes to a client that evicts. -/
theorem evicting (h : InOrder s sent granted) (hg : granted) : s = .EI ∨ s = .MI := by
  cases s <;> simp [InOrder] at h
  case EI => exact .inl rfl
  case MI => exact .inr rfl
  all_goals exact absurd hg h.2

/-- A holder of the only copy that has something on its way gives the copy up. -/
theorem gives_up {op : Opcode} {rest : List Opcode} (h : InOrder s (op :: rest) granted)
    (hs : s.hold = .sole) : op.isEviction = true ∧ rest = [] ∧ (s = .EI ∨ s = .MI) := by
  cases s <;> simp [InOrder, ClientState.hold] at h hs <;> obtain ⟨⟨rfl, rfl⟩, -⟩ := h <;>
    simp [Opcode.isEviction]

/-- An access opens what the state it leads to allows for. -/
theorem access {op : ProcessorOp} {t : ClientTransition} {home me : NodeId}
    (h : InOrder s sent granted) (ht : s.onProcessor op = some t) :
    InOrder t.next (sent ++ (t.notes home me).map (·.op)) granted := by
  cases s <;> cases op <;> simp [ClientState.onProcessor] at ht <;> subst ht <;>
    simp only [InOrder, ClientTransition.notes, List.map_cons, List.map_nil, List.append_nil]
      at h ⊢
  case I.load => exact ⟨.inr ⟨sent, _, h.1, rfl, rfl⟩, h.2⟩
  case I.store => exact ⟨.inr ⟨sent, _, h.1, rfl, rfl⟩, h.2⟩
  case S.store => exact ⟨.inr (by rw [h.1]; rfl), h.2⟩
  case S.evict => exact ⟨by rw [h.1]; simp, h.2⟩
  case E.evict => exact .inl ⟨by rw [h.1]; rfl, h.2⟩
  case M.evict => exact .inl ⟨by rw [h.1]; rfl, h.2⟩
  all_goals exact h

/-- The manager takes up the oldest request of a client that does not hold the only
copy. -/
theorem take {op : Opcode} {rest : List Opcode} (h : InOrder s (op :: rest) granted)
    (hs : s.hold ≠ .sole) : InOrder s rest granted := by
  cases s <;> simp only [InOrder, ClientState.hold] at h hs ⊢
  case I => exact ⟨fun o ho => h.1 o (List.mem_cons_of_mem _ ho), h.2⟩
  case S => exact absurd h.1 (by simp)
  case IE =>
    obtain ⟨h | ⟨stale, ask, hst, hask, heq⟩, hg⟩ := h
    · cases h
    · refine ⟨?_, hg⟩
      cases stale with
      | nil =>
        cases heq
        exact .inl rfl
      | cons a stale =>
        cases heq
        exact .inr ⟨stale, ask, fun o ho => hst o (List.mem_cons_of_mem _ ho), hask, rfl⟩
  case SE =>
    obtain ⟨h | h, hg⟩ := h
    · cases h
    · cases h
      exact ⟨.inl rfl, hg⟩
  all_goals exact absurd rfl hs

/-- The manager takes up the notice of the holder of the only copy. -/
theorem grant {op : Opcode} {rest : List Opcode} (h : InOrder s (op :: rest) granted)
    (hs : s.hold = .sole) {granted' : Prop} (hg : granted') : InOrder s rest granted' := by
  obtain ⟨-, rfl, rfl | rfl⟩ := h.gives_up hs
  · exact .inr ⟨rfl, hg⟩
  · exact .inr ⟨rfl, hg⟩

/-- A message other than the word on an eviction: a client that awaits no copy any more
has nothing on its way. -/
theorem message {op : Opcode} {fwd : Option NodeId} {t : ClientTransition}
    (h : InOrder s sent granted) (ht : s.onMessage op fwd = some t) (hop : op ≠ .grantI)
    (hg : ¬ granted) (hw : s.awaits = true → t.next.awaits = false → ∀ op ∈ sent, op.asks = false) :
    InOrder t.next sent granted := by
  -- the end of a wait finds nothing on its way: the request has been answered
  have hnil : s.awaits = true → t.next.awaits = false → sent = [] := by
    intro ha hb
    have hsent := hw ha hb
    cases s <;> simp [ClientState.awaits] at ha <;> simp only [InOrder] at h
    · obtain ⟨h | ⟨stale, ask, -, hask, rfl⟩, -⟩ := h
      · exact h
      · simp [hsent ask (by simp)] at hask
    · obtain ⟨h | rfl, -⟩ := h
      · exact h
      · cases hsent .getE (by simp)
  cases s <;> cases op <;> cases fwd <;> simp [ClientState.onMessage] at ht hop <;> subst ht <;>
    simp only [InOrder] at h ⊢
  case SE.demandI.none | SE.demandI.some =>
    refine ⟨h.1.imp id ?_, hg⟩
    rintro rfl
    exact ⟨[], .getE, by simp, rfl, rfl⟩
  all_goals
    first
    | exact h
    | exact ⟨hnil rfl rfl, hg⟩
    | exact ⟨by simp [h.1], hg⟩
    | (obtain ⟨rfl, -⟩ | ⟨-, hc⟩ := h
       · exact ⟨by simp [Opcode.isEviction], hg⟩
       · exact absurd hc hg)

/-- The word on an eviction ends it. -/
theorem granted_message {t : ClientTransition} {fwd : Option NodeId} {granted' : Prop}
    (h : InOrder s sent granted) (ht : s.onMessage .grantI fwd = some t) (hg : granted)
    (hg' : ¬ granted') : InOrder t.next sent granted' := by
  rcases h.evicting hg with rfl | rfl <;> simp [ClientState.onMessage] at ht <;> subst ht <;>
    simp [InOrder, hg] at h ⊢ <;> exact ⟨by simp [h], hg'⟩

end InOrder

end CacheCoherence
