import CacheCoherence.Packet

/-!
# Credit link — the metered way out of a node

A node may put a packet on the interconnect only while it holds a credit.
A packet that finds no credit, or finds older packets waiting, is buffered;
buffered packets leave in order as credits come back. Credits themselves are
returned to their owners without being metered.

Each operation gives the link afterwards together with the packets that left
on this call, in order.
-/

namespace CacheCoherence

/-- The outbound link of one node. -/
structure CreditLink where
  owner : NodeId
  /-- Credits held now. -/
  credits : Nat
  /-- Credits held when nothing is on its way. -/
  maxCredits : Nat
  /-- Packets waiting for a credit, oldest first. -/
  buffer : List Packet := []
  /-- Packets that left, each at the price of a credit. -/
  packetsSent : Nat := 0
  /-- Credits that came back. -/
  creditsReceived : Nat := 0
  /-- Credits this node returned to others. -/
  creditsReturned : Nat := 0
  /-- The longest the buffer has been. -/
  maxBuffered : Nat := 0
deriving DecidableEq, Repr

namespace CreditLink

/-- A link that holds all of its credits. -/
def full (owner : NodeId) (maxCredits : Nat) : CreditLink :=
  { owner, credits := maxCredits, maxCredits }

/-- Pays a credit for a packet that leaves. -/
def transmit (l : CreditLink) : CreditLink :=
  { l with credits := l.credits - 1, packetsSent := l.packetsSent + 1 }

/-- Offers a packet: it leaves at once if a credit is held and nothing waits
in front of it, and joins the buffer otherwise. -/
def offer (l : CreditLink) (p : Packet) : CreditLink × List Packet :=
  if l.buffer.isEmpty ∧ 0 < l.credits then (l.transmit, [p])
  else
    ({ l with
        buffer := l.buffer ++ [p]
        maxBuffered := max l.maxBuffered (l.buffer.length + 1) }, [])

/-- Lets packets leave one after another while credits last. The others are
buffered then. -/
def drain (l : CreditLink) : List Packet → CreditLink × List Packet
  | [] => ({ l with buffer := [] }, [])
  | p :: rest =>
      if 0 < l.credits then
        let (l, sent) := l.transmit.drain rest
        (l, p :: sent)
      else ({ l with buffer := p :: rest }, [])

/-- Lets as many buffered packets leave as there are credits. -/
def pump (l : CreditLink) : CreditLink × List Packet := l.drain l.buffer

/-- Takes one credit back and pumps; refused (`none`) when the link already
holds its maximum. -/
def creditArrived? (l : CreditLink) : Option (CreditLink × List Packet) :=
  if l.credits < l.maxCredits then
    some (pump { l with credits := l.credits + 1, creditsReceived := l.creditsReceived + 1 })
  else none

/-- Returns one credit to `peer`; the credit packet leaves at once. -/
def returnCredit (l : CreditLink) (peer : NodeId) (tag : Tag) : CreditLink × Packet :=
  ({ l with creditsReturned := l.creditsReturned + 1 },
    { tag, src := l.owner, dst := peer, payload := .credit })

/-- Offers packets one after another. -/
def offerAll (l : CreditLink) : List Packet → CreditLink × List Packet
  | [] => (l, [])
  | p :: rest =>
      let (l, sent) := l.offer p
      let (l, more) := l.offerAll rest
      (l, sent ++ more)

/-- How many packets wait for a credit. -/
def buffered (l : CreditLink) : Nat := l.buffer.length

/-- Offering loses nothing and overtakes nothing: what leaves, followed by what
waits, is what waited, followed by the packet. -/
theorem offer_order (l : CreditLink) (p : Packet) :
    (l.offer p).2 ++ (l.offer p).1.buffer = l.buffer ++ [p] := by
  unfold offer
  split
  · next h => simp [transmit, List.isEmpty_iff.1 h.1]
  · simp

/-- Offering packets one after another keeps their order, too. -/
theorem offerAll_order (l : CreditLink) (ps : List Packet) :
    (l.offerAll ps).2 ++ (l.offerAll ps).1.buffer = l.buffer ++ ps := by
  induction ps generalizing l with
  | nil => simp [offerAll]
  | cons p rest ih =>
    simp only [offerAll, List.append_assoc]
    rw [ih, ← List.append_assoc, offer_order]
    simp

theorem drain_order (l : CreditLink) (ps : List Packet) :
    (l.drain ps).2 ++ (l.drain ps).1.buffer = ps := by
  induction ps generalizing l with
  | nil => rfl
  | cons p rest ih =>
    unfold drain
    split
    · exact congrArg (p :: ·) (ih l.transmit)
    · rfl

/-- Pumping loses nothing and overtakes nothing. -/
theorem pump_order (l : CreditLink) : (l.pump).2 ++ (l.pump).1.buffer = l.buffer :=
  l.drain_order l.buffer

end CreditLink

end CacheCoherence
