import CacheCoherence.Proofs.Protocol.Agreement

/-!
# Sharing — who is to get a shared copy

A client gets a shared copy only if it asked for one: its request, the forward that the manager
makes of it and the copy itself name the client. A client that awaits no copy is named by none
of these, and no step names a client that was not named before, unless the client itself loads.
-/

namespace CacheCoherence

/-- The opcodes by which a shared copy is asked for and handed on. -/
def Opcode.shares : Opcode → Bool
  | .getS | .fwdS | .grantS | .dataS => true
  | _ => false

/-- The note is to bring the client `c` a shared copy: `c` asks for one, the owner is to hand one
on to `c`, or one is on its way to `c`. -/
def Note.SharesWith (n : Note) (home c : NodeId) : Prop :=
  n = { src := c, dst := home, op := .getS } ∨ n.op = .fwdS ∧ n.forwardTo = some c ∨
    n.dst = c ∧ (n.op = .grantS ∨ n.op = .dataS)

variable {home me src c : NodeId} {n : Note}

/-- Only a client's own request for a shared copy opens something. -/
theorem Note.SharesWith.of_opens (h : n.SharesWith home c) (ho : n.op.opens = true) :
    n = { src := c, dst := home, op := .getS } := by
  rcases h with rfl | ⟨hop, -⟩ | ⟨-, hop | hop⟩
  · rfl
  all_goals
    rw [hop] at ho
    cases ho

/-- What the manager sends is no request. -/
theorem Note.SharesWith.of_toClient (h : n.SharesWith home c) (ht : n.op.toClient = true) :
    n.op = .fwdS ∧ n.forwardTo = some c ∨ n.dst = c ∧ (n.op = .grantS ∨ n.op = .dataS) := by
  rcases h with rfl | h
  · cases ht
  · exact h

theorem Note.SharesWith.shares (h : n.SharesWith home c) : n.op.shares = true := by
  rcases h with rfl | ⟨hop, -⟩ | ⟨-, hop | hop⟩
  · rfl
  all_goals
    rw [hop]
    rfl

theorem Note.not_sharesWith (h : n.op.shares = false) : ¬ n.SharesWith home c := by
  intro hs
  rw [hs.shares] at h
  cases h

/-- A phase in which a client is to get a shared copy is one in which the client awaits it. -/
theorem Phase.awaits_of_sharesWith {cl : NodeId → ClientState} {l : ManagerLine}
    {served : Option NodeId} {notes : List Note} (h : Phase home cl l served notes) (hn : n ∈ notes)
    (hs : n.op = .fwdS ∧ n.forwardTo = some c ∨ n.dst = c ∧ (n.op = .grantS ∨ n.op = .dataS)) :
    (cl c).awaits = true := by
  have hrecall : ∀ {ids gone : List NodeId}, n ∈ demandsTo home ids ++ returnsOf home gone →
      n.op = .demandI ∨ n.op = .unblockI := by
    intro ids gone hmem
    rcases List.mem_append.1 hmem with hmem | hmem
    · obtain ⟨d, -, rfl⟩ := List.mem_map.1 hmem
      exact .inl rfl
    · obtain ⟨d, -, rfl⟩ := List.mem_map.1 hmem
      exact .inr rfl
  have hconfirms : ∀ {acks : List Note}, (∀ k ∈ acks, ConfirmsShare home k) → n ∈ acks →
      n.op = .unblockS ∨ n.op = .clean ∨ n.op = .writeback := fun hc hmem => (hc n hmem).2.2
  cases h with
  | invalid | owned | shared => cases hn
  -- the three phases in which a shared copy is asked for, or on its way
  | sharing _ _ _ _ _ hr | widening _ _ _ hr =>
    obtain rfl := List.mem_singleton.1 hn
    simp at hs
    subst hs
    rw [hr]
    rfl
  | halving _ _ _ hc _ hr =>
    rcases List.mem_cons.1 hn with rfl | hmem
    · simp at hs
      subst hs
      rw [hr]
      rfl
    · rcases hconfirms hc hmem with hop | hop | hop <;> simp [hop] at hs
  | halved _ _ _ hc => rcases hconfirms hc hn with hop | hop | hop <;> simp [hop] at hs
  | recalling | dissolving => rcases hrecall hn with hop | hop <;> simp [hop] at hs
  | passed _ _ _ hd | revoked _ _ hd =>
    obtain rfl := List.mem_singleton.1 hn
    rcases hd with rfl | rfl <;> simp at hs
  | _ =>
    obtain rfl := List.mem_singleton.1 hn
    simp at hs

/-- A client that awaits no copy is not to get a shared one. -/
theorem Agreement.not_sharesWith {cl : NodeId → ClientState} {l : ManagerLine} {f : Flight}
    (h : Agreement home cl l f) (hc : (cl c).awaits = false) (hn : 0 < f n) :
    ¬ n.SharesWith home c := by
  intro hs
  by_cases ho : n.op.opens = true
  · obtain rfl := hs.of_opens ho
    rw [h.awaits_of_asks rfl hn] at hc
    cases hc
  · obtain ⟨served, notes, hphase, hcar, -⟩ := h.phase
    have hmem := hcar.mem hn (by simpa using ho)
    have hshare : n.op = .fwdS ∧ n.forwardTo = some c ∨
        n.dst = c ∧ (n.op = .grantS ∨ n.op = .dataS) := by
      rcases hs with rfl | hs
      · exact absurd rfl ho
      · exact hs
    rw [hphase.awaits_of_sharesWith hmem hshare] at hc
    cases hc

/-! ## What the tables send -/

/-- An owner hands a shared copy on to whom the manager named. -/
theorem ClientState.sharesWith_of_onMessage {s : ClientState} {op : Opcode} {fwd : Option NodeId}
    {t : ClientTransition} (h : s.onMessage op fwd = some t) (hn : n ∈ t.notes home me)
    (hs : n.SharesWith home c) : op = .fwdS ∧ fwd = some c := by
  have hopens := ClientState.not_opens_of_onMessage home me h n hn
  rcases hs with rfl | hs
  · cases hopens
  · cases s <;> cases op <;> cases fwd <;> simp [onMessage] at h <;> subst h <;>
      simp [ClientTransition.notes] at hn <;> (try rcases hn with rfl | rfl) <;> simp at hs ⊢
    all_goals exact hs

/-- Only a load makes a client ask for a shared copy, and for itself. -/
theorem ClientState.sharesWith_of_onProcessor {s : ClientState} {op : ProcessorOp}
    {t : ClientTransition} (h : s.onProcessor op = some t) (hn : n ∈ t.notes home me)
    (hs : n.SharesWith home c) : c = me ∧ op = .load := by
  cases s <;> cases op <;> simp [onProcessor] at h <;> subst h <;>
    simp [ClientTransition.notes] at hn <;> subst hn <;> simp [Note.SharesWith] at hs
  exact ⟨hs.symm, rfl⟩

namespace ManagerLine

variable {l : ManagerLine} {op : Opcode} {t : ManagerTransition}

/-- On any other request the manager shares nothing. -/
theorem onRequest_sharesNothing (l : ManagerLine) {op : Opcode} (hop : op ≠ .getS) (src : NodeId) :
    (l.onRequest op src).all (·.sendsOnly fun a => !a.shares) = true := by
  unfold onRequest
  split
  case h_6 | h_11 | h_1 => exact absurd rfl hop
  case h_5 => cases l.ownerOtherThan src <;> rfl
  case h_7 | h_8 => split <;> rfl
  case h_12 =>
    dsimp only
    split
    · rfl
    · simp [ManagerTransition.sendsOnly, demands, Opcode.shares]
  all_goals rfl

/-- The manager shares the line with the client that asks for a shared copy, and only with it. -/
theorem sharesWith_of_onRequest (h : l.onRequest op src = some t) (hn : n ∈ t.notes home)
    (hs : n.SharesWith home c) : op = .getS ∧ src = c := by
  by_cases hop : op = .getS
  · subst hop
    refine ⟨rfl, ?_⟩
    have hs := hs.of_toClient (toClient_of_onRequest home h n hn)
    cases hl : l.state <;> simp only [onRequest, hl] at h <;> try cases h
    -- nobody holds the line
    · obtain rfl := List.mem_singleton.1 hn
      simp at hs
    -- the line is shared
    · obtain rfl := List.mem_singleton.1 hn
      simpa using hs
    -- the line is owned
    · obtain ⟨o, -, rfl⟩ := Option.map_eq_some_iff.1 h
      obtain rfl := List.mem_singleton.1 hn
      simpa using hs
  · have hall := onRequest_sharesNothing l hop src
    rw [h] at hall
    have hno := ManagerTransition.of_sendsOnly hall hn
    rw [hs.shares] at hno
    cases hno

end ManagerLine

end CacheCoherence
