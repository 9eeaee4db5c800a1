import CacheCoherence.Proofs.Protocol.Membership
import CacheCoherence.Proofs.Protocol.Naming
import Mathlib.Data.Finset.Card
import Mathlib.Data.Finset.Dedup

/-!
# Bookkeeping — what the manager keeps of a line

The manager line is looked at by itself: any events reach it, in any order and from anybody, and
those that the table refuses leave it as it is. What it then keeps of owner, sharers and
acknowledgements follows from its state alone. Where it waits for several words, it counts them:
those that it has taken since the transaction was opened and those that it still waits for come to
as many as the opening asked for, and with the last of them the line settles. It does not look at
who gives its word.
-/

namespace CacheCoherence

namespace ManagerState

/-- The words of which a line counts several. -/
def counted : ManagerState → List Opcode
  | .ES => [.unblockS, .clean, .writeback]
  | .SIE | .SIEvict => [.unblockI]
  | _ => []

/-- Where a line goes with the last word that it counts. -/
def settled : ManagerState → ManagerState
  | .ES => .S
  | .SIE => .IE
  | .SIEvict => .I
  | s => s

end ManagerState

/-! ## Sharers -/

namespace SharerSet

theorem insert_ne_empty (s : SharerSet) (n : NodeId) : s.insert n ≠ empty := by
  intro h
  have hn : n ∈ (s.insert n).members := mem_members_insert.2 (.inl rfl)
  rw [eq_empty_iff.1 h] at hn
  cases hn

theorem size_pair {a b : NodeId} (h : a ≠ b) : (ofList [a, b]).size = 2 := by
  have hmembers : (ofList [a, b]).members.toFinset = {a, b} := by
    ext c
    simp [ofList, or_comm]
  rw [size_eq_card, hmembers, Finset.card_pair h]

end SharerSet

namespace ManagerLine

variable {l l' : ManagerLine} {op : Opcode} {src : NodeId} {e : ManagerEvent}
  {t : ManagerTransition}

/-! ## Words that are counted -/

theorem acknowledged?_eq_some :
    l.acknowledged? = some l' ↔
      0 < l.pendingAcks ∧ l' = { l with pendingAcks := l.pendingAcks - 1 } := by
  unfold acknowledged?
  split
  · next h => simp [h]
  · next h => simp [Nat.pos_of_ne_zero h, eq_comm]

/-- A word that is counted is one less to wait for, and with the last one the line settles. -/
theorem next_of_counted (hop : op ∈ l.state.counted) (h : l.onReply op src = some t) :
    0 < l.pendingAcks ∧ t.next =
      if l.pendingAcks = 1 then { l with state := l.state.settled, pendingAcks := 0 }
      else { l with pendingAcks := l.pendingAcks - 1 } := by
  have hlast : 0 < l.pendingAcks → (l.pendingAcks - 1 = 0 ↔ l.pendingAcks = 1) := by omega
  cases hs : l.state <;> simp [hs, ManagerState.counted] at hop
  case ES =>
    have hword : ∃ l', l.acknowledged? = some l' ∧ t.next = l'.settleShared := by
      rcases hop with rfl | rfl | rfl <;> simp only [onReply, hs] at h
      all_goals
        obtain ⟨l', hl', rfl⟩ := Option.map_eq_some_iff.1 h
        exact ⟨l', hl', rfl⟩
    obtain ⟨l', hl', hnext⟩ := hword
    obtain ⟨hpos, rfl⟩ := acknowledged?_eq_some.1 hl'
    refine ⟨hpos, ?_⟩
    by_cases h1 : l.pendingAcks = 1
    · simp [hnext, settleShared, hs, h1, ManagerState.settled]
    · simp [hnext, settleShared, hs, h1, (hlast hpos).not.2 h1]
  case SIE =>
    subst hop
    simp only [onReply, hs] at h
    obtain ⟨l', hl', h⟩ := Option.bind_eq_some_iff.1 h
    obtain ⟨hpos, rfl⟩ := acknowledged?_eq_some.1 hl'
    refine ⟨hpos, ?_⟩
    by_cases h1 : l.pendingAcks = 1
    · simp only [h1, Nat.sub_self, if_true] at h
      obtain ⟨o, -, rfl⟩ := Option.map_eq_some_iff.1 h
      simp [h1, ManagerState.settled]
    · simp only [(hlast hpos).not.2 h1, if_false] at h
      cases h
      simp [h1, hs]
  case SIEvict =>
    subst hop
    simp only [onReply, hs] at h
    obtain ⟨l', hl', rfl⟩ := Option.map_eq_some_iff.1 h
    obtain ⟨hpos, rfl⟩ := acknowledged?_eq_some.1 hl'
    refine ⟨hpos, ?_⟩
    by_cases h1 : l.pendingAcks = 1
    · simp [h1, ManagerState.settled]
    · simp [h1, hs, (hlast hpos).not.2 h1]

/-- What a word that is not counted makes of a line: with the first one the transaction is over. -/
inductive Concludes (l : ManagerLine) (src : NodeId) : Opcode → ManagerLine → Prop
  | granted (hs : l.state = .IE) : Concludes l src .unblockE { l with state := .E }
  | passed (hs : l.state = .EE) :
      Concludes l src .unblockE { l with state := .E, owner := some src }
  | passedOn (hs : l.state = .ES) : Concludes l src .unblockE { state := .E, owner := some src }
  | shared (hs : l.state = .SS) : Concludes l src .unblockS { l with state := .S }
  | returned (op : Opcode) (hs : l.state = .EIPut ∨ l.state = .EIEvict) :
      Concludes l src op { l with state := .I }

theorem concludes_of_onReply (hop : op ∉ l.state.counted) (h : l.onReply op src = some t) :
    l.Concludes src op t.next := by
  unfold onReply at h
  split at h
  case h_1 hs =>
    cases h
    exact .granted hs
  case h_2 hs =>
    cases h
    exact .passed hs
  case h_6 hs =>
    cases h
    exact .passedOn hs
  case h_7 hs =>
    cases h
    exact .shared hs
  case h_9 hs =>
    cases h
    exact .returned _ (.inl hs)
  case h_10 hs | h_11 hs =>
    cases h
    exact .returned _ (.inr hs)
  case h_13 => cases h
  all_goals
    next hs =>
    rw [hs] at hop
    exact absurd (by decide) hop

theorem Concludes.counted_eq_nil (h : l.Concludes src op l') : l'.state.counted = [] := by
  cases h <;> rfl

/-! ## What is kept of a line -/

/-- What the manager keeps of a line, by its state: an owner where there is one, sharers where
the line is shared or about to be, and the words that it waits for where it counts any. -/
def Consistent (l : ManagerLine) : Prop :=
  match l.state with
  | .I | .EIPut | .EIEvict => l.owner = none ∧ l.sharers = .empty ∧ l.pendingAcks = 0
  | .IE | .E | .EE => l.owner.isSome ∧ l.sharers = .empty ∧ l.pendingAcks = 0
  | .S | .SS => l.owner = none ∧ l.sharers ≠ .empty ∧ l.pendingAcks = 0
  | .ES => l.owner = none ∧ l.sharers.size = 2 ∧ (l.pendingAcks = 1 ∨ l.pendingAcks = 2)
  | .SIE => l.owner.isSome ∧ l.sharers = .empty ∧ 1 ≤ l.pendingAcks
  | .SIEvict => l.owner = none ∧ l.sharers = .empty ∧ 1 ≤ l.pendingAcks

namespace Consistent

theorem request (hl : l.Consistent) (h : l.onRequest op src = some t) : t.next.Consistent := by
  unfold onRequest at h
  split at h
  -- nobody holds the line
  case h_1 hs | h_2 hs =>
    rw [Consistent, hs] at hl
    cases h
    exact ⟨rfl, hl.2⟩
  -- somebody owns it
  case h_5 hs =>
    rw [Consistent, hs] at hl
    obtain ⟨o, -, rfl⟩ := Option.map_eq_some_iff.1 h
    exact hl
  case h_6 =>
    obtain ⟨o, hother, rfl⟩ := Option.map_eq_some_iff.1 h
    have hne : o ≠ src := (ownerOtherThan_eq_some.1 hother).2
    exact ⟨rfl, SharerSet.size_pair hne, .inr rfl⟩
  case h_7 hs | h_8 hs =>
    split at h <;> cases h
    · rw [Consistent, hs] at hl
      exact ⟨rfl, hl.2⟩
    · exact hl
  -- it is shared
  case h_11 hs =>
    rw [Consistent, hs] at hl
    obtain ⟨ho, -, hp⟩ := hl
    cases h
    exact ⟨ho, l.sharers.insert_ne_empty src, hp⟩
  case h_12 hs =>
    rw [Consistent, hs] at hl
    dsimp only at h
    split at h <;> cases h
    · exact ⟨rfl, rfl, hl.2.2⟩
    · next hothers => exact ⟨rfl, rfl, List.length_pos_iff.2 (mt List.isEmpty_iff.2 hothers)⟩
  case h_13 => cases h
  -- a stale notice changes nothing
  all_goals
    cases h
    exact hl

theorem concludes (hl : l.Consistent) (h : l.Concludes src op l') : l'.Consistent := by
  cases h with
  | passedOn => exact ⟨rfl, rfl, rfl⟩
  | granted hs | shared hs =>
    rw [Consistent, hs] at hl
    exact hl
  | passed hs =>
    rw [Consistent, hs] at hl
    exact ⟨rfl, hl.2⟩
  | returned _ hs =>
    rcases hs with hs | hs
    all_goals
      rw [Consistent, hs] at hl
      exact hl

theorem reply (hl : l.Consistent) (h : l.onReply op src = some t) : t.next.Consistent := by
  by_cases hop : op ∈ l.state.counted
  · obtain ⟨hpos, hnext⟩ := next_of_counted hop h
    rw [hnext]
    cases hs : l.state <;> simp [hs, ManagerState.counted] at hop <;> rw [Consistent, hs] at hl
    case ES =>
      obtain ⟨ho, hsize, hp⟩ := hl
      split
      · have hne : l.sharers ≠ .empty := by
          intro hempty
          rw [hempty, SharerSet.size_empty] at hsize
          cases hsize
        exact ⟨ho, hne, rfl⟩
      · exact ⟨ho, hsize, by simp; omega⟩
    all_goals
      split
      · exact ⟨hl.1, hl.2.1, rfl⟩
      · exact ⟨hl.1, hl.2.1, by simp; omega⟩
  · exact hl.concludes (concludes_of_onReply hop h)

theorem replacement (hl : l.Consistent) (h : l.onEvict = some t) : t.next.Consistent := by
  unfold onEvict at h
  split at h
  case h_1 =>
    cases h
    exact hl
  case h_2 hs =>
    rw [Consistent, hs] at hl
    obtain ⟨o, -, rfl⟩ := Option.map_eq_some_iff.1 h
    exact ⟨rfl, hl.2⟩
  case h_3 hs =>
    rw [Consistent, hs] at hl
    obtain ⟨ho, hsharers, -⟩ := hl
    have hsize : l.sharers.size ≠ 0 := by
      intro hz
      exact hsharers (SharerSet.eq_empty_iff.2 (SharerSet.size_eq_zero_iff.1 hz))
    cases h
    simp only [hsize, if_false]
    exact ⟨ho, rfl, Nat.pos_of_ne_zero hsize⟩
  case h_4 => cases h

/-- No event makes the record of a line inconsistent. -/
theorem transition (hl : l.Consistent) (h : l.transition e = .ok t) : t.next.Consistent := by
  cases e with
  | request op src => exact hl.request (transition_request.1 h)
  | reply op src => exact hl.reply (transition_reply.1 h)
  | evict => exact hl.replacement (transition_evict.1 h)

end Consistent

/-! ## Openings -/

/-- The line counts words after an event only if the event opened a transaction that asks for
them, or was itself one of several that are still counted. -/
theorem counted_of_transition (h : l.transition e = .ok t) (hc : t.next.state.counted ≠ []) :
    l.isStable = true ∨
      t.next.state = l.state ∧ t.next.owner = l.owner ∧ t.next.pendingAcks + 1 = l.pendingAcks ∧
        ∃ op c, e = .reply op c ∧ op ∈ l.state.counted := by
  cases e with
  | request op src => exact .inl (stable_of_onRequest (transition_request.1 h))
  | evict => exact .inl (stable_of_onEvict (transition_evict.1 h))
  | reply op src =>
    right
    have h := transition_reply.1 h
    by_cases hop : op ∈ l.state.counted
    · obtain ⟨hpos, hnext⟩ := next_of_counted hop h
      split at hnext
      · -- a line that settles counts nothing
        exfalso
        apply hc
        rw [hnext]
        cases hs : l.state <;> simp [hs, ManagerState.counted, ManagerState.settled] at hop ⊢
      · have hacks : l.pendingAcks - 1 + 1 = l.pendingAcks := by omega
        simp [hnext, hacks, hop]
    · exact absurd (concludes_of_onReply hop h).counted_eq_nil hc

/-- What opens a transaction of which several words are counted: a request for a shared copy of an
owned line, which the owner and the requester both confirm; a request for the only copy of a shared
line, which the other sharers give up first; or the replacement of a shared line. -/
def Opens (l : ManagerLine) (e : ManagerEvent) (t : ManagerTransition) : Prop :=
  match t.next.state with
  | .ES => ∃ o r, e = .request .getS r ∧ l.state = .E ∧ l.owner = some o ∧ o ≠ r ∧
      t.next.pendingAcks = 2 ∧ t.actions = [.send .fwdS o (some r)]
  | .SIE => ∃ r, e = .request .getE r ∧ l.state = .S ∧ t.next.owner = some r ∧
      t.next.pendingAcks = (l.sharers.others r).length ∧
      t.actions = demands (l.sharers.others r)
  | .SIEvict => e = .evict ∧ l.state = .S ∧ t.next.pendingAcks = l.sharers.size ∧
      t.actions = demands l.sharers.members
  | _ => True

theorem opens_of_request (h : l.onRequest op src = some t) : l.Opens (.request op src) t := by
  have hstable := stable_of_onRequest h
  unfold onRequest at h
  split at h
  case h_5 =>
    obtain ⟨o, -, rfl⟩ := Option.map_eq_some_iff.1 h
    trivial
  case h_6 hs =>
    obtain ⟨o, hother, rfl⟩ := Option.map_eq_some_iff.1 h
    obtain ⟨ho, hne⟩ := ownerOtherThan_eq_some.1 hother
    exact ⟨o, src, rfl, hs, ho, hne, rfl, rfl⟩
  case h_12 hs =>
    dsimp only at h
    split at h <;> cases h
    · trivial
    · exact ⟨src, rfl, hs, rfl, rfl, rfl⟩
  case h_7 hs | h_8 hs =>
    split at h <;> cases h
    · trivial
    · simp [Opens, hs]
  case h_13 => cases h
  all_goals
    next hs =>
    cases h
    simp [Opens, hs]

theorem opens_of_evict (h : l.onEvict = some t) : l.Opens .evict t := by
  unfold onEvict at h
  split at h
  case h_1 hs =>
    cases h
    simp [Opens, hs]
  case h_2 =>
    obtain ⟨o, -, rfl⟩ := Option.map_eq_some_iff.1 h
    trivial
  case h_3 hs =>
    cases h
    by_cases hsize : l.sharers.size = 0 <;> simp [Opens, hs, hsize]
  case h_4 => cases h

/-- Where no word is awaited, an event that is taken opens a transaction. -/
theorem opens_of_transition (hl : l.isStable = true) (h : l.transition e = .ok t) : l.Opens e t := by
  cases e with
  | request op src => exact opens_of_request (transition_request.1 h)
  | evict => exact opens_of_evict (transition_evict.1 h)
  | reply op src =>
    rw [not_stable_of_onReply (transition_reply.1 h)] at hl
    cases hl

end ManagerLine

/-! ## Histories -/

/-- An event that the table took: the line that it found, and what came of it. -/
structure ManagerMove where
  found : ManagerLine
  event : ManagerEvent
  answer : ManagerTransition

/-- A line, and the events that brought it about. -/
structure ManagerHistory where
  line : ManagerLine := .initial
  moves : List ManagerMove := []

namespace ManagerHistory

open ManagerLine (demands)

/-- A refused event leaves the line as it is. -/
def add (h : ManagerHistory) (e : ManagerEvent) : ManagerHistory :=
  match h.line.transition e with
  | .ok t =>
      { line := t.next, moves := h.moves ++ [{ found := h.line, event := e, answer := t }] }
  | .error _ => h

/-- The history of a line that is fetched and then meets the events. -/
def of (events : List ManagerEvent) : ManagerHistory := events.foldl add {}

variable {h : ManagerHistory} {e : ManagerEvent} {t : ManagerTransition}

theorem add_ok (ht : h.line.transition e = .ok t) :
    h.add e = { line := t.next
                moves := h.moves ++ [{ found := h.line, event := e, answer := t }] } := by
  simp only [add, ht]

/-- What holds of a fetched line and goes through every transition holds of every history. -/
theorem of_induction (events : List ManagerEvent) {motive : ManagerHistory → Prop}
    (start : motive {})
    (step : ∀ h, motive h → ∀ e ∈ events, ∀ t, h.line.transition e = .ok t → motive (h.add e)) :
    motive (of events) := by
  refine List.foldlRecOn events add start fun h hm e he => ?_
  cases ht : h.line.transition e with
  | ok t => exact step h hm e he t ht
  | error r => simpa only [add, ht] using hm

/-- The transaction that is under way: the move that opened it, and the words that have been
counted since. -/
structure UnderWay (h : ManagerHistory) (opening : ManagerMove) (words : List ManagerMove) :
    Prop where
  moves : ∃ past, h.moves = past ++ opening :: words
  state : opening.answer.next.state = h.line.state
  owner : opening.answer.next.owner = h.line.owner
  opens : opening.found.Opens opening.event opening.answer
  /-- Nothing but words of the transaction has been taken since. -/
  counted : ∀ w ∈ words, ∃ op c, w.event = .reply op c ∧ op ∈ h.line.state.counted
  acks : h.line.pendingAcks + words.length = opening.answer.next.pendingAcks

/-- A line that counts words does so since it was opened for them. -/
theorem exists_underWay (events : List ManagerEvent) :
    (of events).line.state.counted ≠ [] → ∃ opening words, (of events).UnderWay opening words := by
  apply of_induction events (motive := fun h => h.line.state.counted ≠ [] →
    ∃ opening words, h.UnderWay opening words)
  · intro hc
    exact absurd rfl hc
  · intro h hunder e _ t ht hc
    rw [add_ok ht] at hc ⊢
    obtain hstable | ⟨hstate, howner, hacks, op, c, he, hop⟩ :=
      ManagerLine.counted_of_transition ht hc
    · -- the event opens a transaction
      refine ⟨⟨h.line, e, t⟩, [], ⟨h.moves, rfl⟩, rfl, rfl, ?_, by simp, rfl⟩
      exact ManagerLine.opens_of_transition hstable ht
    · -- it is one more word of the transaction that is under way
      obtain ⟨opening, words, hway⟩ := hunder (List.ne_nil_of_mem hop)
      obtain ⟨past, hpast⟩ := hway.moves
      refine ⟨opening, words ++ [⟨h.line, e, t⟩], ⟨past, by simp [hpast]⟩, ?_, ?_, hway.opens, ?_, ?_⟩
      · rw [hway.state, hstate]
      · rw [hway.owner, howner]
      · intro w hw
        rw [hstate]
        rcases List.mem_append.1 hw with hw | hw
        · exact hway.counted w hw
        · obtain rfl := List.mem_singleton.1 hw
          exact ⟨op, c, he, hop⟩
      · have := hway.acks
        simp only [List.length_append, List.length_singleton]
        omega

/-- A line of which a copy is being forwarded takes nothing but words about it. Whoever says that
it holds the only copy is the owner from then on, and with the second of the other words the line
is shared, whichever two they are and whoever they are from. -/
theorem forwarded (events : List ManagerEvent) {e : ManagerEvent} {t : ManagerTransition}
    (hs : (of events).line.state = .EE ∨ (of events).line.state = .ES)
    (ht : (of events).line.transition e = .ok t) :
    (∃ c, e = .reply .unblockE c ∧ t.next.state = .E ∧ t.next.owner = some c) ∨
      (of events).line.state = .ES ∧ ∃ opening words op c,
        (of events).UnderWay opening words ∧ e = .reply op c ∧ op ∈ ManagerState.ES.counted ∧
          t.next.state = if words = [] then .ES else .S := by
  have hbusy : (of events).line.isStable = false := by
    rcases hs with hs | hs <;> rw [ManagerLine.isStable, hs] <;> rfl
  cases e with
  | request op src =>
    rw [ManagerLine.stable_of_onRequest (ManagerLine.transition_request.1 ht)] at hbusy
    cases hbusy
  | evict =>
    rw [ManagerLine.stable_of_onEvict (ManagerLine.transition_evict.1 ht)] at hbusy
    cases hbusy
  | reply op c =>
    have ht := ManagerLine.transition_reply.1 ht
    by_cases hop : op ∈ (of events).line.state.counted
    · right
      have hES : (of events).line.state = .ES := by
        rcases hs with hs | hs
        · simp [hs, ManagerState.counted] at hop
        · exact hs
      obtain ⟨opening, words, hway⟩ := exists_underWay events (List.ne_nil_of_mem hop)
      have hopens := hway.opens
      rw [ManagerLine.Opens, hway.state, hES] at hopens
      obtain ⟨o, r, -, -, -, -, htwo, -⟩ := hopens
      obtain ⟨hpos, hnext⟩ := ManagerLine.next_of_counted hop ht
      -- two words were asked for, and at least one is missing
      have hacks := hway.acks
      have hlast : (of events).line.pendingAcks = 1 ↔ words ≠ [] := by
        rw [← List.length_pos_iff]
        omega
      refine ⟨hES, opening, words, op, c, hway, rfl, hES ▸ hop, ?_⟩
      by_cases hwords : words = [] <;>
        simp [hnext, hlast, hwords, hES, ManagerState.settled]
    · left
      have hends := ManagerLine.concludes_of_onReply hop ht
      generalize t.next = l' at hends ⊢
      cases hends with
      | passed | passedOn => exact ⟨c, rfl, rfl, rfl⟩
      | granted hs' | shared hs' => simp [hs'] at hs
      | returned _ hs' => rcases hs' with hs' | hs' <;> simp [hs'] at hs

-- Two words of the requester will do, and nothing is heard of the old owner.
example : (of [.request .getS ⟨0⟩, .reply .unblockE ⟨0⟩, .request .getS ⟨1⟩, .reply .unblockS ⟨1⟩,
    .reply .unblockS ⟨1⟩]).line = { state := .S, sharers := .ofList [⟨0⟩, ⟨1⟩] } := by
  decide

end ManagerHistory

end CacheCoherence
