import CacheCoherence.Proofs.Hierarchy.Balance
import CacheCoherence.Proofs.Hierarchy.Holders
import CacheCoherence.Proofs.PrivateCache.Posts
import CacheCoherence.Proofs.Scene.Silent

/-!
# Silence — a hierarchy in which nothing is on its way has come to its end

A node that waits for something waits for a packet, for an answer to its core, or for another
node that does. Where there are no packets, banks wait for nobody; so they hold nothing back, no
cache waits for a bank, and no core for its cache. A hierarchy never gets stuck.
-/

namespace CacheCoherence

/-- A record that has no register has no request that waits for its data. -/
theorem SharedBank.request_of_register {place : Addr → Place ManagerLine ManagerTransaction}
    {X : Addr} {l : BankLine} (hreg : (place X).register? = none) (hl : records place X = some l) :
    l.request = none := by
  rw [records] at hl
  cases hp : place X with
  | absent =>
    rw [hp] at hl
    cases hl
  | filed i e tx =>
    rw [hp] at hl
    cases hl
    rfl
  | reserved i r v | waiting i r v =>
    rw [hp] at hreg
    cases hreg

namespace Outlet

theorem toList_of_isEmpty {o : Outlet} (h : o.isEmpty = true) : o.toList = [] := by
  simp only [isEmpty, Bool.and_eq_true, DelayLine.isEmpty, List.isEmpty_iff, CreditLink.buffered,
    beq_iff_eq, List.length_eq_zero_iff] at h
  rw [toList, DelayLine.toList, h.1, h.2]
  rfl

end Outlet

namespace Hierarchy

/-- No packet is on the interconnect, none is queued at a node or on its way out of one, and no
cache keeps an answer back. -/
def isSilent (h : Hierarchy) : Bool :=
  h.net.inFlight.isEmpty
    && h.processors.all (fun q =>
      q.cache.inbound.all (·.packet?.isNone) && q.cache.outlet.isEmpty
        && q.cache.responses.isEmpty)
    && h.banks.all (fun b => b.inbound.isEmpty && b.outlet.isEmpty)
    && h.memories.all (fun m => m.inbound.isEmpty && m.outlet.isEmpty)

/-- No node waits for anything, and every access that a core has been given is completed or
still to be issued. -/
structure Finished (t : Trace) (h : Hierarchy) : Prop where
  caches : ∀ q ∈ h.processors, q.cache.mshr.occupancy = 0 ∧ q.cache.backlog.isEmpty = true
  banks : ∀ b ∈ h.banks, b.mshr.occupancy = 0 ∧ b.backlog.isEmpty = true
  answered : ∀ q ∈ h.processors, q.core.waiting = false
  counted : ∀ i (q : Processor), h.processors[i]? = some q →
    q.core.progress.completed + q.core.pending.length = share t i

variable {P : Plan} {c : Config} {t : Trace} {h : Hierarchy} {s : Scene}

namespace Depicts

/-- A silent hierarchy is pictured by a silent scene, once its caches have handled what was queued
at them. -/
theorem silent (hd : h.Depicts P s 0) (hin : h.Handled) (hq : h.isSilent = true) : s.Silent := by
  simp only [isSilent, Bool.and_eq_true, List.all_eq_true, List.isEmpty_iff] at hq
  obtain ⟨⟨⟨hnet, hprocessors⟩, hbanks⟩, hmemories⟩ := hq
  constructor
  · rw [hd.outgoing, posted,
      Station.outs_eq_zero fun q hq => Outlet.toList_of_isEmpty (hprocessors q hq).1.2,
      Station.outs_eq_zero fun b hb => Outlet.toList_of_isEmpty (hbanks b hb).2,
      Station.outs_eq_zero fun m hm => Outlet.toList_of_isEmpty (hmemories m hm).2]
    rfl
  · have hflight : h.inFlight = 0 := by
      simp only [DelayLine.isEmpty, List.isEmpty_iff] at hnet
      rw [inFlight, DelayLine.toList, hnet]
      rfl
    rw [hd.transit, hflight, queued,
      Station.queues_eq_zero fun q hq => hin q hq,
      Station.queues_eq_zero fun b hb => (hbanks b hb).1,
      Station.queues_eq_zero fun m hm => (hmemories m hm).1]
    rfl

/-- In silence a bank holds nothing back, and none of its lines waits for data. -/
theorem bank_idle (hd : h.Depicts P s 0) (hs : s.Sound P) (hsilent : s.Silent) {b : SharedBank}
    (hb : b ∈ h.banks) (hr : b.backlog.retries = []) :
    b.mshr.occupancy = 0 ∧ b.backlog.isEmpty = true ∧ (s.bank b.id).held = 0 ∧
      ∀ X l, (s.bank b.id).line X = some l → l.request = none := by
  obtain ⟨-, place, hrests, hline, hheld⟩ := (hd.banks.plays b hb).shows
  obtain ⟨hocc, hempty, hreg⟩ := hrests.idle hr fun X l hl =>
    hsilent.line_settled (b := b.id) hs (by rw [← hl, ← hline]; rfl)
  refine ⟨hocc, hempty, ?_, fun X l hl => SharedBank.request_of_register (hreg X) ?_⟩
  · exact hheld.trans (Backlog.items_of_isEmpty hempty)
  · rw [← hl, ← hline]
    rfl

/-- In silence no client waits for anything, since every bank holds nothing back. -/
theorem client_stable (hd : h.Depicts P s 0) (hs : s.Sound P) (hsilent : s.Silent)
    (hr : ∀ b ∈ h.banks, b.backlog.retries = []) (X : Addr) (n : NodeId) :
    (s.clients X n).isStable = true := by
  obtain ⟨b, hb, hid⟩ := hd.exists_bank X
  obtain ⟨-, -, hheld, hrequest⟩ := hd.bank_idle hs hsilent hb (hr b hb)
  rw [hid] at hheld hrequest
  exact hsilent.client_settled hs hheld (hrequest X) n

/-- In silence a cache holds nothing back. -/
theorem cache_idle (hd : h.Depicts P s 0) (hs : s.Sound P) (hsilent : s.Silent)
    (hr : ∀ b ∈ h.banks, b.backlog.retries = []) {q : Processor} (hq : q ∈ h.processors)
    (hretries : q.cache.backlog.retries = []) :
    q.cache.mshr.occupancy = 0 ∧ q.cache.backlog.isEmpty = true := by
  obtain ⟨-, place, hrests, hview⟩ := (hd.processors.plays q hq).shows
  refine hrests.idle hretries fun X => ?_
  rw [← hview]
  exact hd.client_stable hs hsilent hr X _

end Depicts

/-- In silence no cache keeps an answer back. -/
theorem responses_of_isSilent (hq : h.isSilent = true) {q : Processor} (hmem : q ∈ h.processors) :
    q.cache.responses.isEmpty = true := by
  simp only [isSilent, Bool.and_eq_true, List.all_eq_true] at hq
  exact (hq.1.1.2 q hmem).2

/-- A hierarchy in which nothing is on its way anywhere is finished. -/
theorem Reached.finished (hr : Reached c t h) (hn : c.nodes ≤ 2 ^ 32) (hq : h.isSilent = true) :
    h.Finished t := by
  obtain ⟨P, s, hs, hd⟩ := hr.depicts hn
  have hsilent := hd.silent hr.handled hq
  have hbalanced := hr.balanced
  -- the agreement of every line leaves the caches nothing to wait for, and the account of
  -- the requests then leaves the cores none
  have hcache : ∀ q ∈ h.processors, q.cache.mshr.occupancy = 0 ∧ q.cache.backlog.isEmpty = true ∧
      q.core.waiting = false := by
    intro q hmem
    obtain ⟨i, hi⟩ := List.mem_iff_getElem?.1 hmem
    have howes := (hbalanced.cores i q hi).owes
    obtain ⟨hocc, hempty⟩ := hd.cache_idle hs hsilent hbalanced.banks hmem howes.tried
    -- no request of a core is left over from the last cycle
    have hin : q.cache.inbound.isEmpty = true := List.isEmpty_iff.2 (hr.handled q hmem)
    have hres := responses_of_isSilent hq hmem
    exact ⟨hocc, hempty, Bool.toNat_eq_zero.1 (howes.eq_zero ⟨hin, hempty, hocc, hres⟩)⟩
  exact {
    caches := fun q hmem => ⟨(hcache q hmem).1, (hcache q hmem).2.1⟩
    banks := fun b hb =>
      have hidle := hd.bank_idle hs hsilent hb (hbalanced.banks b hb)
      ⟨hidle.1, hidle.2.1⟩
    answered := fun q hmem => (hcache q hmem).2.2
    counted := fun i q hi => by
      have htotal := (hbalanced.cores i q hi).total
      rw [(hcache q (List.mem_of_getElem? hi)).2.2] at htotal
      exact htotal }

/-- After a write nothing is on its way, and the core that made it has been answered. -/
theorem Reached.finished_written : ∃ h, Reached twoCores oneWrite h ∧ h.isSilent = true ∧
    h.processors.map (·.core.progress.completed) = [1, 0] ∧ h.Finished oneWrite := by
  obtain ⟨h, hr, hend⟩ := exists_reached (c := twoCores) (t := oneWrite) (n := 8)
    (f := fun h => (h.isSilent, h.processors.map (·.core.progress.completed))) (x := (true, [1, 0]))
    (by cbv)
  obtain ⟨hsilent, hcompleted⟩ := Prod.mk.inj hend
  exact ⟨h, hr, hsilent, hcompleted, hr.finished (by decide) hsilent⟩

end Hierarchy

end CacheCoherence
