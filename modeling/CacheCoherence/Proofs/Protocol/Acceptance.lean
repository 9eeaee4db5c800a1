import CacheCoherence.Proofs.Protocol.Agreement

/-!
# Acceptance — what the tables make of the notes on their way

Where everything about a line agrees, a note that is on its way finds an entry in
the table of its receiver. There is one exception, which the order of delivery has
to rule out: the manager's word that it accepts an eviction may find the client
with a copy that it was given since.
-/

namespace CacheCoherence

/-! ## Reading the tables -/

namespace ClientState

variable {s : ClientState}

/-- A stable line takes every access. -/
theorem accepts_access (hs : s.isStable = true) (op : ProcessorOp) :
    ∃ t, s.onProcessor op = some t := by
  cases s <;> simp [isStable] at hs <;> cases op <;> exact ⟨_, rfl⟩

theorem accepts_exclusive {op : Opcode} (hop : op = .grantE ∨ op = .dataE ∨ op = .dataM)
    (hs : s.awaits = true) : ∃ t, s.onMessage op none = some t := by
  rcases hop with rfl | rfl | rfl <;> cases s <;> simp [awaits] at hs <;> exact ⟨_, rfl⟩

theorem accepts_forward {op : Opcode} (hop : op = .fwdE ∨ op = .fwdS) (r : NodeId)
    (hs : s.hold = .sole) : ∃ t, s.onMessage op (some r) = some t := by
  rcases hop with rfl | rfl <;> cases s <;> simp [hold] at hs <;> exact ⟨_, rfl⟩

theorem accepts_demandI (s : ClientState) : ∃ t, s.onMessage .demandI none = some t := by
  cases s <;> exact ⟨_, rfl⟩

/-- A holder of the only copy takes the manager's word on its eviction when it is
evicting. -/
theorem accepts_grantI (hs : s.hold = .sole) :
    (∃ t, s.onMessage .grantI none = some t) ∨ s = .E ∨ s = .M := by
  cases s <;> simp [hold] at hs
  · exact .inr (.inl rfl)
  · exact .inr (.inr rfl)
  · exact .inl ⟨_, rfl⟩
  · exact .inl ⟨_, rfl⟩

end ClientState

namespace Phase

variable {home : NodeId} {cl : NodeId → ClientState} {l : ManagerLine} {served : Option NodeId}
  {notes : List Note} {n : Note}

/-- A note for a client finds an entry in its table, or is the word on an eviction
that the client does not wait for. -/
theorem accepts_message (h : Phase home cl l served notes) (hn : n ∈ notes)
    (hop : n.op.toClient = true) :
    (∃ t, (cl n.dst).onMessage n.op n.forwardTo = some t) ∨
      n.op = .grantI ∧ (cl n.dst = .E ∨ cl n.dst = .M) := by
  cases h with
  | invalid | owned | shared => simp at hn
  | granted | taken | widened | returned =>
    obtain rfl := List.mem_singleton.1 hn
    cases hop
  | revoked _ _ hd =>
    obtain rfl := List.mem_singleton.1 hn
    rcases hd with rfl | rfl <;> cases hop
  | halved _ _ _ hc => exact absurd hop (hc n hn).not_toClient
  | granting _ _ hw =>
    obtain rfl := List.mem_singleton.1 hn
    exact .inl (ClientState.accepts_exclusive (.inl rfl) hw)
  | passing _ h =>
    obtain rfl := List.mem_singleton.1 hn
    exact .inl (ClientState.accepts_forward (.inl rfl) _ h.1)
  | passed _ _ hr hd =>
    obtain rfl := List.mem_singleton.1 hn
    exact .inl (ClientState.accepts_exclusive (.inr hd) (by simp [hr, ClientState.awaits]))
  | sharing _ _ _ _ h =>
    obtain rfl := List.mem_singleton.1 hn
    exact .inl (ClientState.accepts_forward (.inr rfl) _ h.1)
  | halving _ _ _ hc _ hr =>
    rcases List.mem_cons.1 hn with rfl | hn
    · exact .inl ⟨_, by simp only [hr]; rfl⟩
    · exact absurd hop (hc n hn).not_toClient
  | widening _ _ _ hr =>
    obtain rfl := List.mem_singleton.1 hn
    exact .inl ⟨_, by simp only [hr]; rfl⟩
  | recalling | dissolving =>
    rcases List.mem_append.1 hn with hn | hn
    · obtain ⟨c, -, rfl⟩ := List.mem_map.1 hn
      exact .inl (ClientState.accepts_demandI _)
    · obtain ⟨c, -, rfl⟩ := List.mem_map.1 hn
      cases hop
  -- the notice may be an old one, from before the owner lost the line and got it again
  | returning _ h =>
    obtain rfl := List.mem_singleton.1 hn
    rcases ClientState.accepts_grantI h.1 with ht | hs
    · exact .inl ht
    · exact .inr ⟨rfl, hs⟩
  | revoking =>
    obtain rfl := List.mem_singleton.1 hn
    exact .inl (ClientState.accepts_demandI _)

/-- An answer is for the manager and finds an entry in its table. -/
theorem accepts_reply (h : Phase home cl l served notes) (hn : n ∈ notes)
    (hop : n.op.answers = true) : n.dst = home ∧ ∃ t, l.onReply n.op n.src = some t := by
  cases h with
  | invalid | owned | shared => simp at hn
  | granting | passing | sharing | widening | returning | revoking =>
    obtain rfl := List.mem_singleton.1 hn
    cases hop
  | passed _ _ _ hd =>
    obtain rfl := List.mem_singleton.1 hn
    rcases hd with rfl | rfl <;> cases hop
  | granted hs | widened hs | returned hs =>
    obtain rfl := List.mem_singleton.1 hn
    exact ⟨rfl, by simp only [ManagerLine.onReply, hs]; exact ⟨_, rfl⟩⟩
  | taken hs =>
    obtain rfl := List.mem_singleton.1 hn
    rcases hs with hs | hs <;> exact ⟨rfl, by simp only [ManagerLine.onReply, hs]; exact ⟨_, rfl⟩⟩
  | revoked hs _ hd =>
    obtain rfl := List.mem_singleton.1 hn
    rcases hd with rfl | rfl <;> exact ⟨rfl, by simp only [ManagerLine.onReply, hs]; exact ⟨_, rfl⟩⟩
  -- the requester's word is still missing, so some acknowledgement is awaited
  | halving hs _ ha hc =>
    rcases List.mem_cons.1 hn with rfl | hn
    · cases hop
    · obtain ⟨hdst, -, ho⟩ := hc n hn
      have hp : l.pendingAcks ≠ 0 := by omega
      rcases ho with ho | ho | ho <;>
        exact ⟨hdst, by
          simp only [ManagerLine.onReply, hs, ho, ManagerLine.acknowledged?, if_neg hp]
          exact ⟨_, rfl⟩⟩
  | halved hs ha _ hc =>
    obtain ⟨hdst, -, ho⟩ := hc n hn
    have hp : l.pendingAcks ≠ 0 := by
      have := List.length_pos_of_mem hn
      omega
    rcases ho with ho | ho | ho <;>
      exact ⟨hdst, by
        simp only [ManagerLine.onReply, hs, ho, ManagerLine.acknowledged?, if_neg hp]
        exact ⟨_, rfl⟩⟩
  | recalling hs ho _ _ hp =>
    rcases List.mem_append.1 hn with hn | hn
    · obtain ⟨c, -, rfl⟩ := List.mem_map.1 hn
      cases hop
    · obtain ⟨c, -, rfl⟩ := List.mem_map.1 hn
      refine ⟨rfl, ?_⟩
      simp only [ManagerLine.onReply, hs, ManagerLine.acknowledged?, if_neg (Nat.ne_of_gt hp),
        Option.bind_some, ho, Option.map_some]
      split <;> exact ⟨_, rfl⟩
  | dissolving hs _ hp =>
    rcases List.mem_append.1 hn with hn | hn
    · obtain ⟨c, -, rfl⟩ := List.mem_map.1 hn
      cases hop
    · obtain ⟨c, -, rfl⟩ := List.mem_map.1 hn
      refine ⟨rfl, ?_⟩
      simp only [ManagerLine.onReply, hs, ManagerLine.acknowledged?, if_neg (Nat.ne_of_gt hp)]
      exact ⟨_, rfl⟩

/-- The manager's word on an eviction is the only note on its way, and its receiver holds
the only copy. -/
theorem returning_of_grantI (h : Phase home cl l served notes) (hn : n ∈ notes)
    (hop : n.op = .grantI) :
    l.state = .EIPut ∧ Sole cl n.dst ∧ notes = [n] ∧ n.src = home ∧ n.forwardTo = none := by
  cases h with
  | invalid | owned | shared => simp at hn
  | granting | granted | passing | taken | sharing | widening | widened | returned | revoking =>
    obtain rfl := List.mem_singleton.1 hn
    cases hop
  | passed _ _ _ hd | revoked _ _ hd =>
    obtain rfl := List.mem_singleton.1 hn
    rcases hd with rfl | rfl <;> cases hop
  | halving _ _ _ hc =>
    rcases List.mem_cons.1 hn with rfl | hn
    · cases hop
    · exact absurd (by rw [hop]; rfl) (hc n hn).not_toClient
  | halved _ _ _ hc => exact absurd (by rw [hop]; rfl) (hc n hn).not_toClient
  | recalling | dissolving =>
    rcases List.mem_append.1 hn with hn | hn
    all_goals
      obtain ⟨c, -, rfl⟩ := List.mem_map.1 hn
      cases hop
  | returning hs h =>
    obtain rfl := List.mem_singleton.1 hn
    exact ⟨hs, h, rfl, rfl, rfl⟩

end Phase

/-! ## In agreement -/

namespace Agreement

variable {home : NodeId} {cl : NodeId → ClientState} {l : ManagerLine} {f : Flight} {n : Note}

theorem accepts_message (h : Agreement home cl l f) (hn : 0 < f n) (hop : n.op.toClient = true) :
    (∃ t, (cl n.dst).onMessage n.op n.forwardTo = some t) ∨
      n.op = .grantI ∧ (cl n.dst = .E ∨ cl n.dst = .M) := by
  obtain ⟨served, notes, hp, hcar, -⟩ := h.phase
  exact hp.accepts_message (hcar.mem hn (Opcode.not_opens_of_toClient hop)) hop

/-- The manager's word on an eviction is on its way to the holder of the only copy, and
nothing else but requests and notices is. -/
theorem returning_of_grantI (h : Agreement home cl l f) (hn : 0 < f n) (hop : n.op = .grantI) :
    l.state = .EIPut ∧ Sole cl n.dst ∧ f.Carries [n] ∧ n.src = home ∧ n.forwardTo = none := by
  obtain ⟨served, notes, hp, hcar, -⟩ := h.phase
  obtain ⟨hs, hsole, rfl, hsrc, hfwd⟩ :=
    hp.returning_of_grantI (hcar.mem hn (by rw [hop]; rfl)) hop
  exact ⟨hs, hsole, hcar, hsrc, hfwd⟩

theorem accepts_reply (h : Agreement home cl l f) (hn : 0 < f n) (hop : n.op.answers = true) :
    n.dst = home ∧ ∃ t, l.onReply n.op n.src = some t := by
  obtain ⟨served, notes, hp, hcar, -⟩ := h.phase
  exact hp.accepts_reply (hcar.mem hn (Opcode.not_opens_of_answers hop)) hop

/-- A stable line takes every request that is on its way. -/
theorem accepts_request (h : Agreement home cl l f) {c : NodeId} {op : Opcode}
    (hf : 0 < f { src := c, dst := home, op }) (hop : op.opens = true)
    (hs : l.isStable = true) : ∃ t, l.onRequest op c = some t := by
  obtain ⟨served, notes, hp, -⟩ := h.phase
  obtain ⟨-, ⟨hl, -⟩ | ⟨o, hl, ho, hsole⟩ | ⟨hl, -⟩⟩ := hp.stable hs
  · cases op <;> simp [Opcode.opens] at hop <;> simp only [ManagerLine.onRequest, hl] <;>
      exact ⟨_, rfl⟩
  · -- the owner itself does not ask for a copy
    have hne : op.asks = true → l.ownerOtherThan c = some o := fun ha =>
      ManagerLine.ownerOtherThan_eq_some.2
        ⟨ho, (hsole.ne_of_awaits (h.awaits_of_asks ha hf)).symm⟩
    cases op <;> simp [Opcode.opens] at hop
    all_goals simp only [ManagerLine.onRequest, hl]
    · exact ⟨_, by rw [hne rfl]; rfl⟩
    · exact ⟨_, by rw [hne rfl]; rfl⟩
    all_goals split <;> exact ⟨_, rfl⟩
  · cases op <;> simp [Opcode.opens] at hop <;> simp only [ManagerLine.onRequest, hl]
    · exact ⟨_, rfl⟩
    · split <;> exact ⟨_, rfl⟩
    all_goals exact ⟨_, rfl⟩

/-- A stable line can be replaced. -/
theorem accepts_evict (h : Agreement home cl l f) (hs : l.isStable = true) :
    ∃ t, l.onEvict = some t := by
  obtain ⟨served, notes, hp, -⟩ := h.phase
  unfold ManagerLine.onEvict
  obtain ⟨-, ⟨hl, -⟩ | ⟨o, hl, ho, -⟩ | ⟨hl, -⟩⟩ := hp.stable hs <;> simp only [hl]
  · exact ⟨_, rfl⟩
  · exact ⟨_, by rw [ho]; rfl⟩
  · exact ⟨_, rfl⟩

end Agreement

end CacheCoherence
