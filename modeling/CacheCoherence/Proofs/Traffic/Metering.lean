import CacheCoherence.Traffic.Interconnect
import CacheCoherence.Traffic.Outlet

/-!
# Metering — every packet that leaves is paid for

However packets leave a node, those that left and those that stay are the ones that there
were, and every one that left has cost a credit.
-/

namespace CacheCoherence

/-- On the way from the outlet `o` to `o'` the packets `sent` have left, each for a
credit. -/
structure Outlet.Pays (o o' : Outlet) (sent : List Packet) : Prop where
  order : sent ++ o'.toList = o.toList
  credits : o'.link.credits + sent.length = o.link.credits
  owner : o'.link.owner = o.link.owner
  maxCredits : o'.link.maxCredits = o.link.maxCredits

namespace CreditLink

/-- On the way from the link `l` to `l'` some `n` packets have left, each for a credit, and no
credit has come back. -/
structure Spends (l l' : CreditLink) (n : Nat) : Prop where
  credits : l'.credits + n = l.credits
  packetsSent : l'.packetsSent = l.packetsSent + n
  creditsReceived : l'.creditsReceived = l.creditsReceived
  owner : l'.owner = l.owner
  maxCredits : l'.maxCredits = l.maxCredits

theorem Spends.trans {l l' l'' : CreditLink} {m n : Nat} (h : l.Spends l' m)
    (h' : l'.Spends l'' n) : l.Spends l'' (m + n) where
  credits := by
    have := h.credits
    have := h'.credits
    omega
  packetsSent := by rw [h'.packetsSent, h.packetsSent, Nat.add_assoc]
  creditsReceived := h'.creditsReceived.trans h.creditsReceived
  owner := h'.owner.trans h.owner
  maxCredits := h'.maxCredits.trans h.maxCredits

theorem transmit_spends {l : CreditLink} (h : 0 < l.credits) : l.Spends l.transmit 1 :=
  ⟨Nat.sub_add_cancel h, rfl, rfl, rfl, rfl⟩

theorem offer_spends (l : CreditLink) (p : Packet) :
    l.Spends (l.offer p).1 (l.offer p).2.length := by
  unfold offer
  split
  · next h => exact transmit_spends h.2
  · exact ⟨rfl, rfl, rfl, rfl, rfl⟩

theorem offerAll_spends (l : CreditLink) (ps : List Packet) :
    l.Spends (l.offerAll ps).1 (l.offerAll ps).2.length := by
  induction ps generalizing l with
  | nil => exact ⟨rfl, rfl, rfl, rfl, rfl⟩
  | cons p rest ih =>
    have h := (l.offer_spends p).trans (ih (l.offer p).1)
    rwa [← List.length_append] at h

theorem drain_spends (l : CreditLink) (ps : List Packet) :
    l.Spends (l.drain ps).1 (l.drain ps).2.length := by
  induction ps generalizing l with
  | nil => exact ⟨rfl, rfl, rfl, rfl, rfl⟩
  | cons p rest ih =>
    unfold drain
    split
    · next h =>
      rw [List.length_cons, Nat.add_comm]
      exact (transmit_spends h).trans (ih l.transmit)
    · exact ⟨rfl, rfl, rfl, rfl, rfl⟩

theorem pump_spends (l : CreditLink) : l.Spends l.pump.1 l.pump.2.length :=
  l.drain_spends l.buffer

/-- The link with one credit more. -/
def refunded (l : CreditLink) : CreditLink :=
  { l with credits := l.credits + 1, creditsReceived := l.creditsReceived + 1 }

theorem creditArrived?_of_lt {l : CreditLink} (h : l.credits < l.maxCredits) :
    l.creditArrived? = some l.refunded.pump :=
  if_pos h

theorem creditArrived?_of_full {l : CreditLink} (h : ¬l.credits < l.maxCredits) :
    l.creditArrived? = none :=
  if_neg h

end CreditLink

namespace Outlet

theorem Pays.refl (o : Outlet) : o.Pays o [] := ⟨rfl, rfl, rfl, rfl⟩

/-- Returning a credit costs none. -/
theorem returnCredit_pays (o : Outlet) (peer : NodeId) (tag : Tag) :
    o.Pays { o with link := (o.link.returnCredit peer tag).1 } [] :=
  ⟨rfl, rfl, rfl, rfl⟩

/-- Flushing lets packets leave for credits. -/
theorem flush_pays (o : Outlet) (now : Nat) : o.Pays (o.flush now).1 (o.flush now).2 := by
  have hs := o.link.offerAll_spends (o.delay.arrived now)
  exact { order := o.flush_order now, credits := hs.credits, owner := hs.owner,
          maxCredits := hs.maxCredits }

/-- The outlet with one credit more. -/
def refunded (o : Outlet) : Outlet := { o with link := o.link.refunded }

/-- A credit that comes back lets packets leave at once. -/
theorem creditArrived_pays {o : Outlet} (h : o.link.credits < o.link.maxCredits) :
    ∃ link sent, o.link.creditArrived? = some (link, sent) ∧
      o.refunded.Pays { o with link } sent := by
  refine ⟨o.refunded.link.pump.1, o.refunded.link.pump.2, ?_, ?_⟩
  · exact CreditLink.creditArrived?_of_lt h
  · have hs := o.refunded.link.pump_spends
    refine { order := ?_, credits := hs.credits, owner := hs.owner, maxCredits := hs.maxCredits }
    show o.refunded.link.pump.2 ++ (o.refunded.link.pump.1.buffer ++ o.delay.toList) = _
    rw [← List.append_assoc, CreditLink.pump_order]
    rfl

/-- So nothing is lost, and nothing comes from elsewhere. -/
theorem order_of_creditArrived {o : Outlet} {link : CreditLink} {sent : List Packet}
    (h : o.link.creditArrived? = some (link, sent)) :
    sent ++ ({ o with link } : Outlet).toList = o.toList := by
  by_cases hlt : o.link.credits < o.link.maxCredits
  · obtain ⟨link', sent', h', hpays⟩ := creditArrived_pays hlt
    rw [h] at h'
    cases h'
    exact hpays.order
  · rw [CreditLink.creditArrived?_of_full hlt] at h
    cases h

end Outlet

namespace Interconnect

/-- Packets are put behind those that are on their way. -/
theorem toList_sendAll (n : Interconnect) (ps : List Packet) :
    (n.sendAll ps).inFlight.toList = n.inFlight.toList ++ ps := by
  induction ps generalizing n with
  | nil => simp
  | cons p rest ih =>
    show ((n.send p).sendAll rest).inFlight.toList = _
    rw [ih, send, DelayLine.toList_push, List.append_assoc]
    rfl

end Interconnect

end CacheCoherence
