import CacheCoherence.Proofs.Protocol.Phase

/-!
# Client steps — what a client does to the phase of its line

An access of the processor never changes the phase: a client may lose a shared
copy and ask for more, but it takes nothing that it was not given. A message
moves the phase on by the notes with which the client answers it.
-/

namespace CacheCoherence

open Function (update update_self update_of_ne)

/-! ## Reading the client table -/

namespace ClientState

variable {s : ClientState} {t : ClientTransition} {r : NodeId}

theorem transition_processor {op : ProcessorOp} :
    s.transition (.processor op) = .ok t ↔ s.onProcessor op = some t := by
  unfold transition
  cases h : s.onProcessor op <;> simp [h]

theorem transition_message {op : Opcode} {src : NodeId} {fwd : Option NodeId} :
    s.transition (.message op src fwd) = .ok t ↔ s.onMessage op fwd = some t := by
  unfold transition
  cases h : s.onMessage op fwd <;> simp [h]

theorem toClient_of_onMessage {op : Opcode} {fwd : Option NodeId}
    (h : s.onMessage op fwd = some t) : op.toClient = true := by
  cases op <;> first | rfl | (cases s <;> simp [onMessage] at h)

/-- Data or a grant of an exclusive copy ends the wait. -/
theorem onMessage_exclusive {op : Opcode} (hop : op = .grantE ∨ op = .dataE ∨ op = .dataM)
    (hs : s.awaits = true) (h : s.onMessage op none = some t) :
    t.next.hold = .sole ∧ t.next.awaits = false ∧ t.actions = [.toManager .unblockE] := by
  rcases hop with rfl | rfl | rfl <;> cases s <;> simp [onMessage, awaits] at h hs <;>
    simp [← h, hold, awaits]

/-- Data or a grant of a shared copy ends the wait. -/
theorem onMessage_shared {op : Opcode} (hop : op = .grantS ∨ op = .dataS)
    (h : ClientState.IE.onMessage op none = some t) :
    t.next = .S ∧ t.actions = [.toManager .unblockS] := by
  rcases hop with rfl | rfl <;> simp [onMessage] at h <;> simp [← h]

/-- An owner that is asked to pass its copy on sends it away and keeps nothing. -/
theorem onMessage_fwdE (hs : s.hold = .sole) (h : s.onMessage .fwdE (some r) = some t) :
    t.next = .I ∧ ∃ d, (d = .dataE ∨ d = .dataM) ∧ t.actions = [.toPeer d r] := by
  cases s <;> simp [onMessage, hold] at h hs <;> simp [← h]

/-- An owner that is asked to share its copy keeps a shared one and tells the
manager, unless it was giving its copy up: then it passes that on. -/
theorem onMessage_fwdS (hs : s.hold = .sole) (h : s.onMessage .fwdS (some r) = some t) :
    (t.next = .S ∧ ∃ a, (a = .clean ∨ a = .writeback) ∧
      t.actions = [.toPeer .dataS r, .toManager a]) ∨
    (t.next = .I ∧ ∃ d, (d = .dataE ∨ d = .dataM) ∧ t.actions = [.toPeer d r]) := by
  cases s <;> simp [onMessage, hold] at h hs <;> simp [← h]

/-- An owner gives up on demand. -/
theorem onMessage_demandI_sole (hs : s.hold = .sole) (h : s.onMessage .demandI none = some t) :
    t.next = .I ∧ ∃ d, (d = .unblockI ∨ d = .unblockDirty) ∧ t.actions = [.toManager d] := by
  cases s <;> simp [onMessage, hold] at h hs <;> simp [← h]

/-- Any other client gives up on demand, too, and waits for a copy if it did so
before. -/
theorem onMessage_demandI (hs : s.hold ≠ .sole) (h : s.onMessage .demandI none = some t) :
    t.next.hold = .nothing ∧ t.next.awaits = s.awaits ∧
      t.actions = [.toManager .unblockI] := by
  cases s <;> simp [onMessage, hold] at h hs <;> simp [← h, hold, awaits]

theorem onMessage_grantI (h : s.onMessage .grantI none = some t) :
    t.next = .I ∧ t.actions = [.toManager .unblockI] := by
  cases s <;> simp [onMessage] at h <;> simp [← h]

end ClientState

/-! ## One client changes -/

section Update

variable {cl : NodeId → ClientState} {o : NodeId} {s : ClientState} {ids : List NodeId}

theorem NobodyBut.update (h : NobodyBut cl o) (s : ClientState) :
    NobodyBut (update cl o s) o := by
  intro c hc
  rw [update_of_ne hc]
  exact h c hc

theorem NobodyBut.sole (h : NobodyBut cl o) (hs : s.hold = .sole) :
    Sole (Function.update cl o s) o :=
  ⟨by rw [update_self, hs], h.update s⟩

theorem NobodyBut.nobody (h : NobodyBut cl o) (hs : s.hold = .nothing) :
    Nobody (Function.update cl o s) := by
  intro c
  by_cases hc : c = o
  · rw [hc, update_self, hs]
  · rw [update_of_ne hc]
    exact h c hc

theorem Nobody.nobodyBut (h : Nobody cl) (o : NodeId) : NobodyBut cl o := fun c _ => h c

theorem NobodyBut.among (h : NobodyBut cl o) (hs : s.hold ≠ .sole) (ho : o ∈ ids) :
    Among (Function.update cl o s) ids := by
  intro c
  by_cases hc : c = o
  · rw [hc, update_self]
    exact ⟨hs, fun _ => ho⟩
  · rw [update_of_ne hc, h c hc]
    exact ⟨by decide, fun h => by cases h⟩

theorem Among.update (h : Among cl ids) (hs : s.hold ≠ .sole) (ho : s.hold = .copy → o ∈ ids) :
    Among (Function.update cl o s) ids := by
  intro c
  by_cases hc : c = o
  · rw [hc, update_self]
    exact ⟨hs, ho⟩
  · rw [update_of_ne hc]
    exact h c

/-- A client that awaits a copy is not the owner. -/
theorem Sole.ne_of_awaits (h : Sole cl o) {r : NodeId} (hr : (cl r).awaits = true) : r ≠ o := by
  rintro rfl
  exact ClientState.not_sole_of_awaits hr h.1

end Update

/-! ## The client that is being served

A client awaits a copy exactly as long as its request is on its way or being
served. -/

/-- One for the client that is being served, zero for any other. -/
def owes (served : Option NodeId) (c : NodeId) : Nat := if served = some c then 1 else 0

@[simp] theorem owes_none (c : NodeId) : owes none c = 0 := rfl

@[simp] theorem owes_self (c : NodeId) : owes (some c) c = 1 := by simp [owes]

theorem owes_of_ne {r c : NodeId} (h : c ≠ r) : owes (some r) c = 0 := by
  simp [owes, Ne.symm h]

/-- What a step does to the clients that await a copy, it does to the client that is
being served. -/
def Balanced (cl cl' : NodeId → ClientState) (served served' : Option NodeId) : Prop :=
  ∀ c, owes served' c + (cl c).awaits.toNat = owes served c + (cl' c).awaits.toNat

theorem Balanced.keep {cl : NodeId → ClientState} {n : NodeId} {s : ClientState}
    (served : Option NodeId) (h : s.awaits = (cl n).awaits) :
    Balanced cl (update cl n s) served served := by
  intro c
  by_cases hc : c = n
  · rw [hc, update_self, h]
  · rw [update_of_ne hc]

theorem Balanced.settle {cl : NodeId → ClientState} {r : NodeId} {s : ClientState}
    (h : (cl r).awaits = true) (hs : s.awaits = false) :
    Balanced cl (update cl r s) (some r) none := by
  intro c
  by_cases hc : c = r
  · rw [hc, update_self, h, hs]
    simp
  · rw [update_of_ne hc, owes_of_ne hc, owes_none]

/-! ## Accesses -/

/-- From `cl` to `cl'` clients may drop shared copies and may begin to await a copy;
the clients that await one stay as they are. -/
structure Relaxes (cl cl' : NodeId → ClientState) : Prop where
  hold : ∀ c, (cl' c).hold = (cl c).hold ∨ (cl c).hold = .copy ∧ (cl' c).hold = .nothing
  awaits : ∀ c, (cl c).awaits = true → cl' c = cl c

namespace Relaxes

variable {cl cl' : NodeId → ClientState} {o : NodeId} {ids : List NodeId}

theorem nothing (h : Relaxes cl cl') {c : NodeId} (hc : (cl c).hold = .nothing) :
    (cl' c).hold = .nothing := by
  rcases h.hold c with hh | ⟨hh, -⟩
  · rw [hh, hc]
  · simp [hc] at hh

theorem nobody (h : Relaxes cl cl') (hn : Nobody cl) : Nobody cl' := fun c => h.nothing (hn c)

theorem nobodyBut (h : Relaxes cl cl') (hn : NobodyBut cl o) : NobodyBut cl' o :=
  fun c hc => h.nothing (hn c hc)

theorem sole (h : Relaxes cl cl') (hs : Sole cl o) : Sole cl' o := by
  refine ⟨?_, h.nobodyBut hs.2⟩
  rcases h.hold o with hh | ⟨hh, -⟩
  · rw [hh, hs.1]
  · simp [hs.1] at hh

theorem copy (h : Relaxes cl cl') {c : NodeId}
    (hc : (cl c).hold ≠ .sole ∧ ((cl c).hold = .copy → c ∈ ids)) :
    (cl' c).hold ≠ .sole ∧ ((cl' c).hold = .copy → c ∈ ids) := by
  rcases h.hold c with hh | ⟨-, hh⟩
  · rwa [hh]
  · rw [hh]
    exact ⟨by decide, fun h => by cases h⟩

theorem among (h : Relaxes cl cl') (ha : Among cl ids) : Among cl' ids := fun c => h.copy (ha c)

theorem stays (h : Relaxes cl cl') {c : NodeId} (hc : cl c = .IE) : cl' c = .IE := by
  rw [h.awaits c (by rw [hc]; rfl), hc]

theorem stillAwaits (h : Relaxes cl cl') {c : NodeId} (hc : (cl c).awaits = true) :
    (cl' c).awaits = true := by
  rw [h.awaits c hc, hc]

/-- An access changes nothing that others rely on. -/
theorem of_access {n : NodeId} {op : ProcessorOp} {t : ClientTransition}
    (h : (cl n).onProcessor op = some t) : Relaxes cl (update cl n t.next) := by
  -- a shared copy may be lost, nothing is gained, and no access is taken while one is awaited
  have hn : (t.next.hold = (cl n).hold ∨ (cl n).hold = .copy ∧ t.next.hold = .nothing) ∧
      (cl n).awaits = false := by
    generalize cl n = s at h
    cases s <;> cases op <;> simp [ClientState.onProcessor] at h <;> subst h <;>
      simp [ClientState.hold, ClientState.awaits]
  constructor
  · intro c
    by_cases hc : c = n
    · rw [hc, update_self]
      exact hn.1
    · rw [update_of_ne hc]
      exact .inl rfl
  · intro c hc
    refine update_of_ne ?_ _ _
    rintro rfl
    simp [hn.2] at hc

end Relaxes

/-- What accesses do leaves the phase as it is. -/
theorem Phase.relaxes {home : NodeId} {cl cl' : NodeId → ClientState} {l : ManagerLine}
    {served : Option NodeId} {notes : List Note} (h : Phase home cl l served notes)
    (hr : Relaxes cl cl') : Phase home cl' l served notes := by
  cases h with
  | invalid hs h => exact .invalid hs (hr.nobody h)
  | owned hs ho h => exact .owned hs ho (hr.sole h)
  | shared hs h => exact .shared hs (hr.among h)
  | granting hs ho hw h => exact .granting hs ho (hr.stillAwaits hw) (hr.nobodyBut h)
  | granted hs ho h => exact .granted hs ho (hr.sole h)
  | passing hs h hi => exact .passing hs (hr.sole h) (hr.stays hi)
  | passed hs h hi hd => exact .passed hs (hr.nobody h) (hr.stays hi) hd
  | taken hs h => exact .taken hs (hr.sole h)
  | sharing hs ho hm ha h hi => exact .sharing hs ho hm ha (hr.sole h) (hr.stays hi)
  | halving hs hm ha hc h hi => exact .halving hs hm ha hc (hr.among h) (hr.stays hi)
  | halved hs ha hne hc h => exact .halved hs ha hne hc (hr.among h)
  | widening hs hm h hi => exact .widening hs hm (hr.among h) (hr.stays hi)
  | widened hs h => exact .widened hs (hr.among h)
  | recalling hs ho hw ha hp h =>
    exact .recalling hs ho (hr.stillAwaits hw) ha hp fun c hc => hr.copy (h c hc)
  | returning hs h => exact .returning hs (hr.sole h)
  | returned hs h => exact .returned hs (hr.nobody h)
  | revoking hs h => exact .revoking hs (hr.sole h)
  | revoked hs h hd => exact .revoked hs (hr.nobody h) hd
  | dissolving hs ha hp h => exact .dissolving hs ha hp (hr.among h)

/-! ## Messages -/

/-- Telling one more client moves it from those that are yet to hear of a recall to
those that have given up. -/
theorem count_recall (home : NodeId) {ids : List NodeId} {c : NodeId} (h : c ∈ ids)
    (gone : List NodeId) (k : Note) :
    (demandsTo home (ids.erase c) ++ returnsOf home (c :: gone)).count k
        + [({ src := home, dst := c, op := .demandI } : Note)].count k
      = (demandsTo home ids ++ returnsOf home gone).count k
        + [({ src := c, dst := home, op := .unblockI } : Note)].count k := by
  have hp : (demandsTo home ids).count k = (demandsTo home (c :: ids.erase c)).count k :=
    ((List.perm_cons_erase h).map _).count_eq k
  simp only [List.count_append, hp]
  simp only [demandsTo, returnsOf, List.map_cons, List.count_cons, List.count_nil]
  omega

/-- A client that hears of a recall gives up its copy, if it has one, and says so. -/
theorem recall_heard (home : NodeId) {cl : NodeId → ClientState} {ids : List NodeId} {c : NodeId}
    {t : ClientTransition} (gone : List NodeId) (hc : c ∈ ids) (hs : (cl c).hold ≠ .sole)
    (ht : (cl c).onMessage .demandI none = some t) :
    t.next.awaits = (cl c).awaits ∧
      (ids.erase c).length + (c :: gone).length = ids.length + gone.length ∧
      (∀ d, (cl d).hold ≠ .sole ∧ ((cl d).hold = .copy → d ∈ ids) →
        (update cl c t.next d).hold ≠ .sole ∧
          ((update cl c t.next d).hold = .copy → d ∈ ids.erase c)) ∧
      ∀ k, (demandsTo home (ids.erase c) ++ returnsOf home (c :: gone)).count k
          + [({ src := home, dst := c, op := .demandI } : Note)].count k
        = (demandsTo home ids ++ returnsOf home gone).count k + (t.notes home c).count k := by
  obtain ⟨hh, haw, hact⟩ := ClientState.onMessage_demandI hs ht
  have hlen := List.length_erase_of_mem hc
  have hpos := List.length_pos_of_mem hc
  refine ⟨haw, by rw [hlen, List.length_cons]; omega, fun d hd => ?_, fun k => ?_⟩
  · by_cases hdc : d = c
    · rw [hdc, update_self, hh]
      exact ⟨by decide, fun h => by cases h⟩
    · rw [update_of_ne hdc]
      exact ⟨hd.1, fun hcopy => (List.mem_erase_of_ne hdc).2 (hd.2 hcopy)⟩
  · rw [ClientTransition.notes, hact]
    exact count_recall home hc gone k

/-- What the manager awaits twice is for no client. -/
theorem ConfirmsShare.not_toClient {home : NodeId} {n : Note} (h : ConfirmsShare home n) :
    ¬n.op.toClient = true := by
  obtain ⟨-, -, hop⟩ := h
  rcases hop with hop | hop | hop <;> rw [hop] <;> decide

/-- A message to a client moves the phase on. -/
theorem Phase.message {home : NodeId} {cl : NodeId → ClientState} {l : ManagerLine}
    {served : Option NodeId} {notes : List Note} {n : Note} {t : ClientTransition}
    (h : Phase home cl l served notes) (hn : n ∈ notes)
    (ht : (cl n.dst).onMessage n.op n.forwardTo = some t) :
    ∃ served' notes', Phase home (update cl n.dst t.next) l served' notes' ∧
      Balanced cl (update cl n.dst t.next) served served' ∧
      ∀ k, notes'.count k + [n].count k = notes.count k + (t.notes home n.dst).count k := by
  cases h with
  | invalid | owned | shared => simp at hn
  -- all that is on its way here is for the manager, and a client takes none of it
  | granted | taken | widened | returned =>
    obtain rfl := List.mem_singleton.1 hn
    cases ClientState.toClient_of_onMessage ht
  | revoked _ _ hd =>
    obtain rfl := List.mem_singleton.1 hn
    rcases hd with rfl | rfl <;> cases ClientState.toClient_of_onMessage ht
  | halved _ _ _ hc =>
    exact absurd (ClientState.toClient_of_onMessage ht) (hc n hn).not_toClient
  -- the exclusive copy arrives
  | @granting o hs ho hw h =>
    obtain rfl := List.mem_singleton.1 hn
    obtain ⟨hh, ha, hact⟩ := ClientState.onMessage_exclusive (.inl rfl) hw ht
    refine ⟨none, _, .granted hs ho (h.sole hh), .settle hw ha, fun k => ?_⟩
    rw [ClientTransition.notes, hact]
    exact Nat.add_comm ..
  | @passing o r hs h hr =>
    obtain rfl := List.mem_singleton.1 hn
    obtain ⟨hnext, d, hd, hact⟩ := ClientState.onMessage_fwdE h.1 ht
    -- the requester is not the owner itself, for it awaits a copy and the owner has one
    have hne : r ≠ o := h.ne_of_awaits (by rw [hr]; rfl)
    refine ⟨some r, _, .passed (o := o) (.inl hs) (h.2.nobody (by rw [hnext]; rfl))
      (by rw [update_of_ne hne, hr]) hd,
      .keep _ (by rw [hnext, ClientState.not_awaits_of_sole h.1]; rfl), fun k => ?_⟩
    rw [ClientTransition.notes, hact]
    exact Nat.add_comm ..
  | @passed o r d hs h hr hd =>
    obtain rfl := List.mem_singleton.1 hn
    have hw : (cl r).awaits = true := by rw [hr]; rfl
    obtain ⟨hh, ha, hact⟩ := ClientState.onMessage_exclusive (.inr hd) hw ht
    refine ⟨none, _, .taken hs ((h.nobodyBut r).sole hh), .settle hw ha, fun k => ?_⟩
    rw [ClientTransition.notes, hact]
    exact Nat.add_comm ..
  | @sharing o r hs ho hm ha h hr =>
    obtain rfl := List.mem_singleton.1 hn
    have hne : r ≠ o := h.ne_of_awaits (by rw [hr]; rfl)
    have hwo : (cl o).awaits = false := ClientState.not_awaits_of_sole h.1
    rcases ClientState.onMessage_fwdS h.1 ht with ⟨hnext, a, hop, hact⟩ | ⟨hnext, d, hd, hact⟩
    · -- both keep a shared copy, and the manager awaits the word of both
      refine ⟨some r, [_, { src := o, dst := home, op := a }],
        .halving (o := o) hs hm ha ?_
          (h.2.among (by rw [hnext]; decide) ho) (by rw [update_of_ne hne, hr]),
        .keep _ (by rw [hnext, hwo]; rfl), fun k => ?_⟩
      · intro x hx
        obtain rfl := List.mem_singleton.1 hx
        exact ⟨rfl, rfl, .inr hop⟩
      · rw [ClientTransition.notes, hact]
        exact Nat.add_comm ..
    · -- the owner was giving its copy up, so the requester gets the only one
      refine ⟨some r, _, .passed (o := o) (.inr hs) (h.2.nobody (by rw [hnext]; rfl))
        (by rw [update_of_ne hne, hr]) hd, .keep _ (by rw [hnext, hwo]; rfl), fun k => ?_⟩
      rw [ClientTransition.notes, hact]
      exact Nat.add_comm ..
  | @halving o r acks hs hm ha hc h hr =>
    rcases List.mem_cons.1 hn with rfl | hn
    · rw [hr] at ht
      obtain ⟨hnext, hact⟩ := ClientState.onMessage_shared (.inr rfl) ht
      refine ⟨none, { src := r, dst := home, op := .unblockS } :: acks,
        .halved hs (by simpa using ha) (by simp) ?_
          (h.update (by rw [hnext]; decide) fun _ => hm),
        .settle (by rw [hr]; rfl) (by rw [hnext]; rfl), fun k => ?_⟩
      · intro x hx
        rcases List.mem_cons.1 hx with rfl | hx
        · exact ⟨rfl, rfl, .inl rfl⟩
        · exact hc x hx
      · rw [ClientTransition.notes, hact]
        simp only [List.map_cons, List.map_nil, List.count_cons, List.count_nil]
        omega
    · exact absurd (ClientState.toClient_of_onMessage ht) (hc n hn).not_toClient
  | @widening r hs hm h hr =>
    obtain rfl := List.mem_singleton.1 hn
    rw [hr] at ht
    obtain ⟨hnext, hact⟩ := ClientState.onMessage_shared (.inl rfl) ht
    refine ⟨none, _, .widened (r := r) hs (h.update (by rw [hnext]; decide) fun _ => hm),
      .settle (by rw [hr]; rfl) (by rw [hnext]; rfl), fun k => ?_⟩
    rw [ClientTransition.notes, hact]
    exact Nat.add_comm ..
  | @recalling o ids gone hs ho hw ha hp h =>
    rcases List.mem_append.1 hn with hn | hn
    · obtain ⟨c, hc, rfl⟩ := List.mem_map.1 hn
      have hsole : (cl c).hold ≠ .sole := by
        by_cases hco : c = o
        · exact hco ▸ ClientState.not_sole_of_awaits hw
        · exact (h c hco).1
      obtain ⟨haw, hlen, hheld, hcount⟩ := recall_heard home gone hc hsole ht
      -- who is to own the line may itself be among the sharers: it loses its copy and keeps waiting
      have hwo : ((update cl c t.next) o).awaits = true := by
        by_cases hco : o = c
        · rw [hco, update_self, haw, ← hco, hw]
        · rw [update_of_ne hco, hw]
      exact ⟨some o, _, .recalling hs ho hwo (ha.trans hlen.symm) hp fun d hd => hheld d (h d hd),
        .keep _ haw, hcount⟩
    · obtain ⟨c, -, rfl⟩ := List.mem_map.1 hn
      cases ClientState.toClient_of_onMessage ht
  | @returning o hs h =>
    obtain rfl := List.mem_singleton.1 hn
    obtain ⟨hnext, hact⟩ := ClientState.onMessage_grantI ht
    refine ⟨none, _, .returned (o := o) hs (h.2.nobody (by rw [hnext]; rfl)),
      .keep _ (by rw [hnext, ClientState.not_awaits_of_sole h.1]; rfl), fun k => ?_⟩
    rw [ClientTransition.notes, hact]
    exact Nat.add_comm ..
  | @revoking o hs h =>
    obtain rfl := List.mem_singleton.1 hn
    obtain ⟨hnext, d, hd, hact⟩ := ClientState.onMessage_demandI_sole h.1 ht
    refine ⟨none, _, .revoked (o := o) hs (h.2.nobody (by rw [hnext]; rfl)) hd,
      .keep _ (by rw [hnext, ClientState.not_awaits_of_sole h.1]; rfl), fun k => ?_⟩
    rw [ClientTransition.notes, hact]
    exact Nat.add_comm ..
  | @dissolving ids gone hs ha hp h =>
    rcases List.mem_append.1 hn with hn | hn
    · obtain ⟨c, hc, rfl⟩ := List.mem_map.1 hn
      obtain ⟨haw, hlen, hheld, hcount⟩ := recall_heard home gone hc (h c).1 ht
      exact ⟨none, _, .dissolving hs (ha.trans hlen.symm) hp fun d => hheld d (h d), .keep _ haw,
        hcount⟩
    · obtain ⟨c, -, rfl⟩ := List.mem_map.1 hn
      cases ClientState.toClient_of_onMessage ht

end CacheCoherence
