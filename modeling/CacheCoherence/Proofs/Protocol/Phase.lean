import CacheCoherence.Proofs.Protocol.Notes

/-!
# Phase — how the manager's record, the clients and the notes on their way agree

What a client may do with its line is one of three things: nothing, read a
shared copy, or use the only copy. In every state of the manager just a few
notes are on their way, and they say who holds the line. A `Phase` lists the
cases: the manager's line, the client that the manager is serving (its request
is taken and its copy still on the way), and the notes that are on their way,
opening notes apart.
-/

namespace CacheCoherence

/-- What a client may do with its line. -/
inductive Hold where
  | nothing
  /-- A shared copy. -/
  | copy
  /-- The only copy, possibly dirty, possibly on its way out. -/
  | sole
deriving DecidableEq, Repr

namespace ClientState

/-- What a client in a state may do with its line. -/
def hold : ClientState → Hold
  | I | IE => .nothing
  | S | SE => .copy
  | E | M | EI | MI => .sole

/-- The client asked for a copy and has not got it yet. -/
def awaits : ClientState → Bool
  | IE | SE => true
  | _ => false

/-- The client is giving its copy up and waits for the word that it may. -/
def departs : ClientState → Bool
  | EI | MI => true
  | _ => false

theorem sole_of_departs {s : ClientState} (h : s.departs = true) : s.hold = .sole := by
  cases s <;> simp_all [departs, hold]

theorem not_sole_of_awaits {s : ClientState} (h : s.awaits = true) : s.hold ≠ .sole := by
  cases s <;> simp_all [awaits, hold]

theorem not_awaits_of_sole {s : ClientState} (h : s.hold = .sole) : s.awaits = false := by
  cases s <;> simp_all [awaits, hold]

end ClientState

/-! ## Who holds the line -/

/-- Nobody holds the line. -/
def Nobody (cl : NodeId → ClientState) : Prop := ∀ c, (cl c).hold = .nothing

/-- Nobody but `o` holds the line. -/
def NobodyBut (cl : NodeId → ClientState) (o : NodeId) : Prop :=
  ∀ c, c ≠ o → (cl c).hold = .nothing

/-- `o` holds the only copy. -/
def Sole (cl : NodeId → ClientState) (o : NodeId) : Prop :=
  (cl o).hold = .sole ∧ NobodyBut cl o

/-- The line is held in shared copies only, all of them among `ids`. -/
def Among (cl : NodeId → ClientState) (ids : List NodeId) : Prop :=
  ∀ c, (cl c).hold ≠ .sole ∧ ((cl c).hold = .copy → c ∈ ids)

/-- One client holds the only copy, or there are shared copies only. -/
def SingleWriter (cl : NodeId → ClientState) : Prop :=
  ∀ c d, c ≠ d → (cl c).hold = .sole → (cl d).hold = .nothing

theorem Nobody.singleWriter {cl : NodeId → ClientState} (h : Nobody cl) : SingleWriter cl :=
  fun _ d _ _ => h d

theorem NobodyBut.singleWriter {cl : NodeId → ClientState} {o : NodeId} (h : NobodyBut cl o) :
    SingleWriter cl := by
  intro c d hcd hc
  by_cases hco : c = o
  · exact h d (hco ▸ hcd.symm)
  · simp [h c hco] at hc

theorem Among.singleWriter {cl : NodeId → ClientState} {ids : List NodeId} (h : Among cl ids) :
    SingleWriter cl :=
  fun c _ _ hc => absurd hc (h c).1

/-! ## The notes of a recall -/

/-- A demand to every client of a list. -/
def demandsTo (home : NodeId) (ids : List NodeId) : List Note :=
  ids.map fun c => { src := home, dst := c, op := .demandI }

/-- The word of every client of a list that it no longer holds the line. -/
def returnsOf (home : NodeId) (ids : List NodeId) : List Note :=
  ids.map fun c => { src := c, dst := home, op := .unblockI }

/-- A note that the manager awaits twice while a shared copy is handed on: the
requester's word and the old owner's. -/
def ConfirmsShare (home : NodeId) (n : Note) : Prop :=
  n.dst = home ∧ n.forwardTo = none ∧ (n.op = .unblockS ∨ n.op = .clean ∨ n.op = .writeback)

/-- How the line of the manager at `home`, the clients `cl`, the client that is
being served and the notes on their way agree. -/
inductive Phase (home : NodeId) (cl : NodeId → ClientState) :
    ManagerLine → Option NodeId → List Note → Prop
  | invalid {l} (hs : l.state = .I) (h : Nobody cl) : Phase home cl l none []
  | owned {l o} (hs : l.state = .E) (ho : l.owner = some o) (h : Sole cl o) :
      Phase home cl l none []
  | shared {l} (hs : l.state = .S) (h : Among cl l.sharers.members) : Phase home cl l none []
  /-- An exclusive copy is on its way from the manager. -/
  | granting {l o} (hs : l.state = .IE) (ho : l.owner = some o) (hw : (cl o).awaits = true)
      (h : NobodyBut cl o) :
      Phase home cl l (some o) [{ src := home, dst := o, op := .grantE }]
  | granted {l o} (hs : l.state = .IE) (ho : l.owner = some o) (h : Sole cl o) :
      Phase home cl l none [{ src := o, dst := home, op := .unblockE }]
  /-- The owner is asked to pass its copy on. -/
  | passing {l o r} (hs : l.state = .EE) (h : Sole cl o) (hr : cl r = .IE) :
      Phase home cl l (some r) [{ src := home, dst := o, op := .fwdE, forwardTo := some r }]
  /-- An exclusive copy is on its way from the old owner, also where only a shared
  one was asked for. -/
  | passed {l o r d} (hs : l.state = .EE ∨ l.state = .ES) (h : Nobody cl) (hr : cl r = .IE)
      (hd : d = .dataE ∨ d = .dataM) :
      Phase home cl l (some r) [{ src := o, dst := r, op := d }]
  | taken {l r} (hs : l.state = .EE ∨ l.state = .ES) (h : Sole cl r) :
      Phase home cl l none [{ src := r, dst := home, op := .unblockE }]
  /-- The owner is asked to share its copy. -/
  | sharing {l o r} (hs : l.state = .ES) (ho : o ∈ l.sharers.members)
      (hm : r ∈ l.sharers.members) (ha : l.pendingAcks = 2) (h : Sole cl o) (hr : cl r = .IE) :
      Phase home cl l (some r) [{ src := home, dst := o, op := .fwdS, forwardTo := some r }]
  /-- A shared copy is on its way from the old owner. -/
  | halving {l o r acks} (hs : l.state = .ES) (hm : r ∈ l.sharers.members)
      (ha : l.pendingAcks = acks.length + 1) (hc : ∀ n ∈ acks, ConfirmsShare home n)
      (h : Among cl l.sharers.members) (hr : cl r = .IE) :
      Phase home cl l (some r) ({ src := o, dst := r, op := .dataS } :: acks)
  | halved {l acks} (hs : l.state = .ES) (ha : l.pendingAcks = acks.length) (hne : acks ≠ [])
      (hc : ∀ n ∈ acks, ConfirmsShare home n) (h : Among cl l.sharers.members) :
      Phase home cl l none acks
  /-- One more shared copy is on its way from the manager. -/
  | widening {l r} (hs : l.state = .SS) (hm : r ∈ l.sharers.members)
      (h : Among cl l.sharers.members) (hr : cl r = .IE) :
      Phase home cl l (some r) [{ src := home, dst := r, op := .grantS }]
  | widened {l r} (hs : l.state = .SS) (h : Among cl l.sharers.members) :
      Phase home cl l none [{ src := r, dst := home, op := .unblockS }]
  /-- All sharers but the next owner are giving up: `ids` are yet to hear of it,
  `gone` have done so. -/
  | recalling {l o ids gone} (hs : l.state = .SIE) (ho : l.owner = some o)
      (hw : (cl o).awaits = true) (ha : l.pendingAcks = ids.length + gone.length)
      (hp : 0 < l.pendingAcks)
      (h : ∀ c, c ≠ o → (cl c).hold ≠ .sole ∧ ((cl c).hold = .copy → c ∈ ids)) :
      Phase home cl l (some o) (demandsTo home ids ++ returnsOf home gone)
  /-- The owner's eviction is granted. -/
  | returning {l o} (hs : l.state = .EIPut) (h : Sole cl o) :
      Phase home cl l none [{ src := home, dst := o, op := .grantI }]
  | returned {l o} (hs : l.state = .EIPut) (h : Nobody cl) :
      Phase home cl l none [{ src := o, dst := home, op := .unblockI }]
  /-- The owner must give up, for a replacement. -/
  | revoking {l o} (hs : l.state = .EIEvict) (h : Sole cl o) :
      Phase home cl l none [{ src := home, dst := o, op := .demandI }]
  | revoked {l o d} (hs : l.state = .EIEvict) (h : Nobody cl)
      (hd : d = .unblockI ∨ d = .unblockDirty) :
      Phase home cl l none [{ src := o, dst := home, op := d }]
  /-- All sharers must give up, for a replacement. -/
  | dissolving {l ids gone} (hs : l.state = .SIEvict)
      (ha : l.pendingAcks = ids.length + gone.length) (hp : 0 < l.pendingAcks)
      (h : Among cl ids) :
      Phase home cl l none (demandsTo home ids ++ returnsOf home gone)

namespace Phase

variable {home : NodeId} {cl : NodeId → ClientState} {l : ManagerLine} {served : Option NodeId}
  {notes : List Note}

/-- In every phase at most one client holds more than a shared copy, and then
nobody else holds anything. -/
theorem singleWriter (h : Phase home cl l served notes) : SingleWriter cl := by
  cases h with
  | invalid _ h | passed _ h | returned _ h | revoked _ h => exact h.singleWriter
  | owned _ _ h | granted _ _ h | passing _ h | taken _ h | sharing _ _ _ _ h | returning _ h
  | revoking _ h => exact h.2.singleWriter
  | granting _ _ _ h => exact h.singleWriter
  | shared _ h | halving _ _ _ _ h | halved _ _ _ _ h | widening _ _ h | widened _ h
  | dissolving _ _ _ h => exact h.singleWriter
  -- who is to own the line has asked for it, so it does not hold the only copy yet
  | @recalling o _ _ _ _ hw _ _ h =>
    intro c d hcd hc
    by_cases hco : c = o
    · exact absurd hc (hco ▸ ClientState.not_sole_of_awaits hw)
    · exact absurd hc (h c hco).1

/-- On a stable line nobody is being served and no note is on its way, and the record
tells who holds the line. -/
theorem stable (h : Phase home cl l served notes) (hs : l.isStable = true) :
    (served = none ∧ notes = []) ∧
    ((l.state = .I ∧ Nobody cl) ∨ (∃ o, l.state = .E ∧ l.owner = some o ∧ Sole cl o) ∨
      (l.state = .S ∧ Among cl l.sharers.members)) := by
  unfold ManagerLine.isStable at hs
  cases h with
  | invalid hl h => exact ⟨⟨rfl, rfl⟩, .inl ⟨hl, h⟩⟩
  | owned hl ho h => exact ⟨⟨rfl, rfl⟩, .inr (.inl ⟨_, hl, ho, h⟩)⟩
  | shared hl h => exact ⟨⟨rfl, rfl⟩, .inr (.inr ⟨hl, h⟩)⟩
  | passed ht | taken ht => rcases ht with ht | ht <;> simp [ht, ManagerState.isStable] at hs
  | granting ht | granted ht | passing ht | sharing ht | halving ht | halved ht | widening ht
  | widened ht | recalling ht | returning ht | returned ht | revoking ht | revoked ht
  | dissolving ht => simp [ht, ManagerState.isStable] at hs

/-- In a recall some note is on its way as long as somebody's word is missing. -/
theorem exists_recall {ids gone : List NodeId} (hp : 0 < ids.length + gone.length) :
    ∃ n ∈ demandsTo home ids ++ returnsOf home gone, n.op.opens = false := by
  rcases ids with _ | ⟨c, ids⟩
  · rcases gone with _ | ⟨c, gone⟩
    · exact absurd hp (Nat.lt_irrefl 0)
    · exact ⟨_, List.mem_append_right _ List.mem_cons_self, rfl⟩
  · exact ⟨_, List.mem_append_left _ List.mem_cons_self, rfl⟩

/-- A line that is not stable has a note on its way that does not open a transaction. -/
theorem exists_note (h : Phase home cl l served notes) (hs : l.isStable = false) :
    ∃ n ∈ notes, n.op.opens = false := by
  unfold ManagerLine.isStable at hs
  cases h with
  | invalid hl | owned hl | shared hl => simp [hl, ManagerState.isStable] at hs
  | passed _ _ _ hd =>
    refine ⟨_, List.mem_singleton_self _, ?_⟩
    rcases hd with rfl | rfl <;> rfl
  | revoked _ _ hd =>
    refine ⟨_, List.mem_singleton_self _, ?_⟩
    rcases hd with rfl | rfl <;> rfl
  | halving => exact ⟨_, List.mem_cons_self, rfl⟩
  | halved _ _ hne hc =>
    obtain ⟨n, hn⟩ := List.exists_mem_of_ne_nil _ hne
    refine ⟨n, hn, ?_⟩
    obtain ⟨-, -, hop⟩ := hc n hn
    rcases hop with hop | hop | hop <;> rw [hop] <;> rfl
  | recalling _ _ _ ha hp | dissolving _ ha hp => exact exists_recall (ha ▸ hp)
  | _ => exact ⟨_, List.mem_singleton_self _, rfl⟩

end Phase

end CacheCoherence
