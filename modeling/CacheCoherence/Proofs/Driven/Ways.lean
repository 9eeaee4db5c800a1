import CacheCoherence.Proofs.Driven.Runs
import CacheCoherence.Proofs.Table.Claims

/-!
# Ways — no way is lost or leaked

A way that is reserved or about to be given away stays with one transaction until the line of
that transaction lies in it. So whoever files a line finds the way that it was promised.
-/

namespace CacheCoherence

/-- Work that loses no way does not end because one is gone. -/
theorem Work.Secure.keeps {σ : Type} {Q : σ → Prop} {w : Work σ} (h : w.Secure Q) (node : NodeId)
    (line : Addr) : w.fault ≠ some (.lostReservation node line) := by
  intro hf
  have hlost := h.fault _ hf
  cases hlost

/-- However a cache or a bank is driven, its ways and its transactions go together, and none of
its cycles ends because a way is gone. -/
theorem allotted_of_driven :
    (∀ c : PrivateCache, c.Driven → Allotted ClientTransaction.claim c.table c.mshr ∧
      ∀ node line, c.tick.1.fault ≠ some (.lostReservation node line)) ∧
    (∀ c : SharedBank, c.Driven → Allotted ManagerTransaction.claim c.table c.mshr ∧
      ∀ node line, c.tick.fault ≠ some (.lostReservation node line)) := by
  constructor
  · intro c hc
    obtain ⟨P, place, -, hrests⟩ := hc.settled
    exact ⟨hrests.toLedger.allotted, hc.settled.tick.keeps⟩
  · intro c hc
    obtain ⟨P, place, -, hrests⟩ := hc.settled
    exact ⟨hrests.toLedger.allotted, hc.settled.tick.keeps⟩

/-- A cache and a bank where one way is about to be given away and the other is reserved. -/
theorem allotted_of_replacement : ∃ c b, PrivateCache.Driven c ∧ SharedBank.Driven b ∧
    (c.table.slots.contentAt 0, c.table.slots.contentAt 1) =
      (.filled 0 { haveData := true, dirty := true, evicting := true, controller := .MI },
        .reserved 32) ∧
    (b.table.slots.contentAt 0, b.table.slots.contentAt 1) =
      (.filled 0
        { haveData := true, dirty := false, evicting := true, controller := { state := .EIEvict } },
        .reserved 32) ∧
    (Allotted ClientTransaction.claim c.table c.mshr ∧
      ∀ node line, c.tick.1.fault ≠ some (.lostReservation node line)) ∧
    (Allotted ManagerTransaction.claim b.table b.mshr ∧
      ∀ node line, b.tick.fault ≠ some (.lostReservation node line)) := by
  let node : NodeId := { index := 0 }
  let near : NodeId := { index := 1 }
  let far : NodeId := { index := 2 }
  obtain ⟨c, hc, hcache⟩ := PrivateCache.exists_driven
    (fun c => (c.table.slots.contentAt 0, c.table.slots.contentAt 1))
    (show (PrivateCache.create? node .narrow {} (.single near)).toOption.bind (fun c =>
        (c.after? [[.write 0], [.packet (.about 0 .grantE near node)],
          [.write 64, .write 32]]).map fun d =>
            (d.1.table.slots.contentAt 0, d.1.table.slots.contentAt 1))
      = some (.filled 0 { haveData := true, dirty := true, evicting := true, controller := .MI },
          .reserved 32) by cbv)
  obtain ⟨b, hb, hbank⟩ := SharedBank.exists_driven
    (fun b => (b.table.slots.contentAt 0, b.table.slots.contentAt 1))
    (show (SharedBank.create? node .narrow {} (.single far)).toOption.bind (fun b =>
        (b.after? [[.about 0 .getE near node], [.supplied 0 far node],
          [.about 0 .unblockE near node],
          [.about 64 .getE far node, .about 32 .getE far node]]).map fun d =>
            (d.table.slots.contentAt 0, d.table.slots.contentAt 1))
      = some (.filled 0
          { haveData := true, dirty := false, evicting := true,
            controller := { state := .EIEvict } },
          .reserved 32) by cbv)
  exact ⟨c, b, hc, hb, hcache, hbank, allotted_of_driven.1 c hc, allotted_of_driven.2 b hb⟩

end CacheCoherence
