import CacheCoherence.Proofs.Hierarchy.Holders
import CacheCoherence.Proofs.Hierarchy.Ports

/-!
# Credits — no credit is lost or made up

A node pays a credit for every packet that it puts on the interconnect, and the receiver returns
it. So a credit is held by its node, or is out for a packet that nobody has handled yet, or is
on its way back; how many there are never changes.
-/

namespace CacheCoherence.Hierarchy

/-- Every node `n` has as many credits as it may have, wherever they are. None comes back that was
not paid, and once nothing is left to do all of them are back. -/
structure Metered (h : Hierarchy) : Prop where
  conserved : ∀ n ∈ h.ports, n.outlet.link.credits
    + h.undispatched.countP (fun p => !p.isCredit && p.src == n.id)
    + h.undispatched.countP (fun p => p.isCredit && p.dst == n.id) = n.outlet.link.maxCredits
  noOverflow : ∀ n k, h.step.error ≠ some (.fault (.creditOverflow n k))
  refilled : h.isDrained = true → ∀ n ∈ h.ports, n.outlet.link.credits = n.outlet.link.maxCredits

variable {P : Plan} {h : Hierarchy} {s : Scene}

/-- A credit that a node does not hold is out for a packet of the node, or is itself on its way
to it. -/
theorem tally_standsFor (n : NodeId) (ps : List Packet) :
    Packet.tally (Packet.standsFor n) (ps : Multiset Packet)
      = ps.countP (fun p => !p.isCredit && p.src == n)
        + ps.countP (fun p => p.isCredit && p.dst == n) := by
  induction ps with
  | nil => rfl
  | cons p ps ih =>
    rw [← Multiset.cons_coe, Packet.tally_cons, ih, List.countP_cons, List.countP_cons,
      Packet.standsFor]
    cases p.isCredit <;> cases p.src == n <;> cases p.dst == n <;> simp <;> omega

/-- The packets that are not handled account for all credits that a node does not hold. -/
theorem Depicts.conserved (hd : h.Depicts P s 0) (hs : s.Sound P) {n : Port} (hn : n ∈ h.ports) :
    n.outlet.link.credits + h.undispatched.countP (fun p => !p.isCredit && p.src == n.id)
      + h.undispatched.countP (fun p => p.isCredit && p.dst == n.id)
      = n.outlet.link.maxCredits := by
  rw [Nat.add_assoc, ← tally_standsFor, ← hd.transit_eq]
  refine hd.port_induction (Q := fun n => n.outlet.link.credits
    + Packet.tally (Packet.standsFor n.id) s.transit = n.outlet.link.maxCredits)
    (fun S m hplays => ?_) hn
  show (S.outlet m).link.credits + _ = (S.outlet m).link.maxCredits
  rw [hplays.quota, ← hplays.credits]
  exact hs.credit (S.id m)

/-- In a drained hierarchy every packet has been handled. -/
theorem undispatched_of_isDrained (hdr : h.isDrained = true) : h.undispatched = [] := by
  simp only [isDrained, Bool.and_eq_true, List.all_eq_true, DelayLine.isEmpty, List.isEmpty_iff,
    PrivateCache.isIdle, SharedBank.isIdle, MemoryNode.isIdle] at hdr
  obtain ⟨⟨⟨⟨-, hnet⟩, hcaches⟩, hbanks⟩, hmemories⟩ := hdr
  have hin : ∀ n ∈ h.ports, n.inbound = [] := by
    intro n hn
    rw [ports, List.mem_append, List.mem_append] at hn
    rcases hn with (hn | hn) | hn
    · obtain ⟨q, hq, rfl⟩ := List.mem_map.1 hn
      show q.cache.inbound.filterMap _ = []
      rw [(hcaches q hq).1.1.1.1]
      rfl
    · obtain ⟨b, hb, rfl⟩ := List.mem_map.1 hn
      exact (hbanks b hb).1.1.1
    · obtain ⟨m, hm, rfl⟩ := List.mem_map.1 hn
      exact (hmemories m hm).1
  rw [undispatched, DelayLine.toList, hnet, List.flatMap_eq_nil_iff.2 hin]
  rfl

/-- Wherever a hierarchy gets, no credit has been lost or made up. -/
theorem Reached.metered {c : Config} {t : Trace} (hr : Reached c t h) (hn : c.nodes ≤ 2 ^ 32) :
    h.Metered := by
  obtain ⟨P, s, hs, hd⟩ := hr.depicts hn
  have hconserved : ∀ n ∈ h.ports, _ := fun n hmem => hd.conserved hs hmem
  refine ⟨hconserved, fun n k he => ?_, fun hdr n hmem => ?_⟩
  · obtain ⟨_, _, _, _, -, heq⟩ := hr.error_eq hn he
    cases heq
  · have hall := hconserved n hmem
    rwa [undispatched_of_isDrained hdr, List.countP_nil, List.countP_nil] at hall

/-- While a write is under way, a core and a bank are short of a credit each. -/
theorem Reached.metered_written : ∃ h, Reached twoCores oneWrite h ∧
    h.ports.map (fun n => (n.outlet.link.credits, n.outlet.link.maxCredits))
      = [(29, 30), (30, 30), (29, 30), (30, 30)] ∧ h.Metered := by
  obtain ⟨h, hr, hcredits⟩ := exists_reached (c := twoCores) (t := oneWrite) (n := 2)
    (f := fun h => h.ports.map fun n => (n.outlet.link.credits, n.outlet.link.maxCredits))
    (x := [(29, 30), (30, 30), (29, 30), (30, 30)]) (by cbv)
  exact ⟨h, hr, hcredits, hr.metered (by decide)⟩

end CacheCoherence.Hierarchy
