import CacheCoherence.Fault
import CacheCoherence.Proofs.Traffic.Metering
import Mathlib.Data.List.Induction

/-!
# Calls — a link under any use

Whatever a link is asked to do, in whatever order, it is a queue with a purse. What it has
been offered has left in order or waits in order, nothing waits while there is a credit, and
the credits it holds and those it has paid are the ones it had at first and the ones that
came back. The balance is one of natural numbers, so no credit is ever paid that is not held.
-/

namespace CacheCoherence

namespace CreditLink

theorem offer_waits {l : CreditLink} (h : l.buffer ≠ [] → l.credits = 0) (p : Packet) :
    (l.offer p).1.buffer ≠ [] → (l.offer p).1.credits = 0 := by
  unfold offer
  split
  · next hs => exact fun hne => absurd (List.isEmpty_iff.1 hs.1) hne
  · next hs =>
    intro _
    by_cases hb : l.buffer = []
    · -- with an empty buffer only a missing credit keeps the packet
      exact Nat.eq_zero_of_not_pos fun hpos => hs ⟨List.isEmpty_iff.2 hb, hpos⟩
    · exact h hb

theorem drain_waits (l : CreditLink) (ps : List Packet) :
    (l.drain ps).1.buffer ≠ [] → (l.drain ps).1.credits = 0 := by
  induction ps generalizing l with
  | nil => exact fun h => absurd rfl h
  | cons p rest ih =>
    unfold drain
    split
    · exact ih l.transmit
    · next h => exact fun _ => Nat.eq_zero_of_not_pos h

theorem pump_waits (l : CreditLink) : l.pump.1.buffer ≠ [] → l.pump.1.credits = 0 :=
  l.drain_waits l.buffer

end CreditLink

/-- A call on a link. -/
inductive LinkCall where
  | offer (p : Packet)
  | creditArrived
  | pump
  | returnCredit (peer : NodeId) (tag : Tag)

/-- The packet that is offered, if one is. -/
def LinkCall.offered? : LinkCall → Option Packet
  | offer p => some p
  | _ => none

/-- What a link says to a call. -/
inductive LinkAnswer where
  /-- The offered packet has left. -/
  | sent
  /-- The offered packet waits. -/
  | buffered
  /-- So many packets have left. -/
  | count (n : Nat)
  | refused (fault : Fault)
  | done
deriving DecidableEq

/-- A packet on the network. -/
structure Dispatch where
  packet : Packet
  /-- Whether a credit has been paid for it. -/
  metered : Bool

/-- A link, and what it has put on the network so far. -/
structure Wire where
  link : CreditLink
  network : List Dispatch := []

namespace Wire

/-- The metered packets on the network. -/
def metered (w : Wire) : List Packet := (w.network.filter (·.metered)).map (·.packet)

/-- The wire once the packets `sent` have left, which makes `link` of its link. -/
def put (w : Wire) (link : CreditLink) (sent : List Packet) : Wire where
  link
  network := w.network ++ sent.map fun packet => { packet, metered := true }

/-- The link answers a call. -/
def answer (w : Wire) : LinkCall → LinkAnswer × Wire
  | .offer p =>
      let (link, sent) := w.link.offer p
      (if sent.isEmpty then .buffered else .sent, w.put link sent)
  | .creditArrived =>
      match w.link.creditArrived? with
      | some (link, sent) => (.count sent.length, w.put link sent)
      | none => (.refused (.creditOverflow w.link.owner w.link.maxCredits), w)
  | .pump =>
      let (link, sent) := w.link.pump
      (.count sent.length, w.put link sent)
  | .returnCredit peer tag =>
      let (link, packet) := w.link.returnCredit peer tag
      (.done, { link, network := w.network ++ [{ packet, metered := false }] })

/-- The wire after some calls on a link that held all of its credits. -/
def after (owner : NodeId) (max : Nat) (calls : List LinkCall) : Wire :=
  calls.foldl (fun w c => (w.answer c).2) { link := .full owner max }

theorem after_concat (owner : NodeId) (max : Nat) (calls : List LinkCall) (c : LinkCall) :
    after owner max (calls ++ [c]) = ((after owner max calls).answer c).2 := by
  rw [after, List.foldl_append]
  rfl

@[simp] theorem metered_put (w : Wire) (link : CreditLink) (sent : List Packet) :
    (w.put link sent).metered = w.metered ++ sent := by
  simp [metered, put, List.filter_map, Function.comp_def]

/-! ## One call -/

/-- The books of a link of `owner` with `max` credits that has been offered the packets
`offered`. -/
structure Balanced (owner : NodeId) (max : Nat) (offered : List Packet) (w : Wire) : Prop where
  owner_eq : w.link.owner = owner
  max_eq : w.link.maxCredits = max
  /-- The packets have left or wait, in the order in which they were offered. -/
  order : w.metered ++ w.link.buffer = offered
  bounded : w.link.credits ≤ max
  balance : w.link.credits + w.link.packetsSent = max + w.link.creditsReceived
  paid : w.link.packetsSent = w.metered.length

/-- And no packet waits without need. -/
structure Sound (owner : NodeId) (max : Nat) (offered : List Packet) (w : Wire) : Prop
    extends Balanced owner max offered w where
  waits : w.link.buffer ≠ [] → w.link.credits = 0

variable {owner : NodeId} {max : Nat} {offered : List Packet} {w : Wire}

theorem answer_creditArrived (h : w.link.credits < w.link.maxCredits) :
    w.answer .creditArrived = (.count w.link.refunded.pump.2.length,
      ({ w with link := w.link.refunded } : Wire).put w.link.refunded.pump.1
        w.link.refunded.pump.2) := by
  simp only [answer, CreditLink.creditArrived?_of_lt h]
  rfl

theorem answer_creditArrived_of_full (h : ¬w.link.credits < w.link.maxCredits) :
    w.answer .creditArrived
      = (.refused (.creditOverflow w.link.owner w.link.maxCredits), w) := by
  simp only [answer, CreditLink.creditArrived?_of_full h]

theorem Sound.full (owner : NodeId) (max : Nat) :
    Sound owner max [] { link := .full owner max } where
  owner_eq := rfl
  max_eq := rfl
  order := rfl
  bounded := Nat.le_refl max
  balance := rfl
  paid := rfl
  waits h := absurd rfl h

/-- Packets leave, each for a credit, and those that were offered but do not leave wait. -/
theorem Balanced.put (h : Balanced owner max offered w) {link : CreditLink}
    {sent new : List Packet} (hs : w.link.Spends link sent.length)
    (horder : sent ++ link.buffer = w.link.buffer ++ new) :
    Balanced owner max (offered ++ new) (w.put link sent) where
  owner_eq := hs.owner.trans h.owner_eq
  max_eq := hs.maxCredits.trans h.max_eq
  order := by
    rw [metered_put, List.append_assoc, ← h.order, List.append_assoc]
    exact congrArg (w.metered ++ ·) horder
  bounded := by
    have := hs.credits
    have := h.bounded
    show link.credits ≤ max
    omega
  balance := by
    have := hs.credits
    have := h.balance
    show link.credits + link.packetsSent = max + link.creditsReceived
    rw [hs.packetsSent, hs.creditsReceived]
    omega
  paid := by
    rw [metered_put, List.length_append, ← h.paid]
    exact hs.packetsSent

/-- With the credit that comes back the books balance again. -/
theorem Sound.refunded (h : Sound owner max offered w) (hlt : w.link.credits < w.link.maxCredits) :
    Balanced owner max offered { w with link := w.link.refunded } where
  owner_eq := h.owner_eq
  max_eq := h.max_eq
  order := h.order
  bounded := by rwa [h.max_eq] at hlt
  balance := by
    have := h.balance
    show w.link.credits + 1 + w.link.packetsSent = max + (w.link.creditsReceived + 1)
    omega
  paid := h.paid

/-- One call keeps the books. -/
theorem Sound.answer (h : Sound owner max offered w) (c : LinkCall) :
    Sound owner max (offered ++ c.offered?.toList) (w.answer c).2 := by
  cases c with
  | offer p =>
    exact ⟨h.toBalanced.put (w.link.offer_spends p) (w.link.offer_order p),
      CreditLink.offer_waits h.waits p⟩
  | creditArrived =>
    by_cases hlt : w.link.credits < w.link.maxCredits
    · rw [answer_creditArrived hlt]
      exact ⟨(h.refunded hlt).put w.link.refunded.pump_spends
        (w.link.refunded.pump_order.trans (List.append_nil _).symm), w.link.refunded.pump_waits⟩
    · rw [answer_creditArrived_of_full hlt]
      show Sound owner max (offered ++ []) w
      rwa [List.append_nil]
  | pump =>
    exact ⟨h.toBalanced.put w.link.pump_spends
      (w.link.pump_order.trans (List.append_nil _).symm), w.link.pump_waits⟩
  | returnCredit peer tag =>
    have hmetered : (w.answer (.returnCredit peer tag)).2.metered = w.metered := by
      simp [Wire.answer, metered]
    refine { owner_eq := h.owner_eq, max_eq := h.max_eq, order := ?_, bounded := h.bounded,
             balance := h.balance, paid := ?_, waits := h.waits }
    · rw [hmetered]
      exact h.order.trans (List.append_nil _).symm
    · rw [hmetered]
      exact h.paid

/-- What the answers to the calls mean. -/
structure Answers (owner : NodeId) (max : Nat) (w : Wire) : Prop where
  /-- A packet is said to have left if it is on the network, and nothing else was put there. -/
  offer : ∀ p, (w.answer (.offer p)).1 = .sent
      ∧ (w.answer (.offer p)).2.network = w.network ++ [{ packet := p, metered := true }]
    ∨ (w.answer (.offer p)).1 = .buffered ∧ (w.answer (.offer p)).2.network = w.network
  /-- A count is that of the packets that were put on the network, each for a credit. -/
  count : ∀ c n, (w.answer c).1 = .count n → ∃ sent : List Packet, sent.length = n
    ∧ (w.answer c).2.network = w.network ++ sent.map (fun packet => { packet, metered := true })
    ∧ (w.answer c).2.link.packetsSent = w.link.packetsSent + n
  /-- A credit is refused exactly if the link holds all of its credits, ... -/
  refused : ∀ fault, (w.answer .creditArrived).1 = .refused fault ↔
    w.link.credits = max ∧ fault = .creditOverflow owner max
  /-- ... and then nothing happens. -/
  unchanged : w.link.credits = max → (w.answer .creditArrived).2 = w

theorem Sound.answers (h : Sound owner max offered w) : Answers owner max w where
  offer p := by
    simp only [Wire.answer, CreditLink.offer]
    split
    · exact .inl ⟨rfl, rfl⟩
    · exact .inr ⟨rfl, List.append_nil _⟩
  count c n hn := by
    cases c with
    | offer p =>
      simp only [Wire.answer] at hn
      split at hn <;> cases hn
    | creditArrived =>
      by_cases hlt : w.link.credits < w.link.maxCredits
      · rw [answer_creditArrived hlt] at hn ⊢
        cases hn
        exact ⟨_, rfl, rfl, w.link.refunded.pump_spends.packetsSent⟩
      · rw [answer_creditArrived_of_full hlt] at hn
        cases hn
    | pump =>
      cases hn
      exact ⟨_, rfl, rfl, w.link.pump_spends.packetsSent⟩
    | returnCredit peer tag => cases hn
  refused fault := by
    by_cases hlt : w.link.credits < w.link.maxCredits
    · have hmax := h.max_eq
      rw [answer_creditArrived hlt]
      exact ⟨nofun, fun ⟨hfull, _⟩ => by omega⟩
    · have hfull : w.link.credits = max := by
        have := h.bounded
        have := h.max_eq
        omega
      rw [answer_creditArrived_of_full hlt, h.owner_eq, h.max_eq]
      simp [hfull, eq_comm]
  unchanged hfull := by
    rw [answer_creditArrived_of_full (by rw [hfull, h.max_eq]; exact Nat.lt_irrefl max)]

/-! ## All calls -/

/-- Whatever the link is asked to do, what it was offered has left or waits in order, its credits
stay within bounds and in balance, nothing waits while there is a credit, and its answers to
whatever it is asked next are true. -/
theorem after_sound (owner : NodeId) (max : Nat) (calls : List LinkCall) :
    Sound owner max (calls.filterMap LinkCall.offered?) (after owner max calls)
      ∧ Answers owner max (after owner max calls) := by
  suffices h : Sound owner max (calls.filterMap LinkCall.offered?) (after owner max calls) from
    ⟨h, h.answers⟩
  induction calls using List.reverseRecOn with
  | nil => exact Sound.full owner max
  | append_singleton calls c ih =>
    have hoffered : [c].filterMap LinkCall.offered? = c.offered?.toList := by cases c <;> rfl
    rw [after_concat, List.filterMap_append, hoffered]
    exact ih.answer c

end Wire

end CacheCoherence
