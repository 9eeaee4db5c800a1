import CacheCoherence.Proofs.Hierarchy.Reached
import CacheCoherence.Proofs.PrivateCache.Account
import Mathlib.Data.List.TakeWhile

/-!
# Balance — every access of a core is accounted for

An access that a core is given is to come, or its cache owes the answer, or it is completed.
No cycle that ends without an error loses one. What happens at banks and memory nodes does not
matter here, but no bank is left with requests that only wait to be tried again.
-/

namespace CacheCoherence

/-- A new cache has been asked nothing. -/
theorem PrivateCache.accounts_create? {id : NodeId} {config : NodeConfig} {tags : MessageTags}
    {route : Route} {c : PrivateCache} (hc : create? id config tags route = .ok c) :
    Accounts 0 0 c := by
  obtain ⟨hvalid, table, -, rfl⟩ := of_create? hc
  obtain ⟨hshaped, hfree⟩ := Mshr.ofCapacity_shaped (τ := ClientTransaction)
    (NodeConfig.registers_of_validate hvalid)
  have hocc : (Mshr.ofCapacity config.mshrEntries.toNat : Mshr ClientTransaction).occupancy = 0 :=
    SlotTable.occupied_eq_zero hfree
  have hnone : Mshr.requests (.ofCapacity config.mshrEntries.toNat) = 0 := by
    rw [Mshr.requests, Multiset.card_eq_zero.1 ((Mshr.card_transactions _).trans hocc),
      Multiset.map_zero]
  have hheld : (0 : Multiset Request) + Mshr.requests (.ofCapacity config.mshrEntries.toNat)
      + ([] : List Request) = 0 := by
    rw [hnone]
    rfl
  refine ⟨hshaped, rfl, ?_, ?_, ?_⟩
  · exact (congrArg (fun h => 0 + h + 0) hheld).symm
  · exact (congrArg (fun h => h.card + 0) hheld).symm
  · exact (congrArg (fun n => n + 0 + 0) hocc).symm

/-- So it owes nothing. -/
theorem PrivateCache.owes_create? {id : NodeId} {config : NodeConfig} {tags : MessageTags}
    {route : Route} {c : PrivateCache} (hc : create? id config tags route = .ok c) :
    Owes 0 c :=
  ⟨0, 0, accounts_create? hc, rfl⟩

/-- And nothing is queued at it. -/
theorem PrivateCache.inbound_create? {id : NodeId} {config : NodeConfig} {tags : MessageTags}
    {route : Route} {c : PrivateCache} (hc : create? id config tags route = .ok c) :
    c.inbound = [] := by
  obtain ⟨-, table, -, rfl⟩ := of_create? hc
  rfl

theorem SharedBank.retries_create? {id : NodeId} {config : NodeConfig} {tags : MessageTags}
    {route : Route} {c : SharedBank} (hc : create? id config tags route = .ok c) :
    c.backlog.retries = [] := by
  obtain ⟨-, table, -, rfl⟩ := of_create? hc
  rfl

namespace Processor

/-- Of the `n` accesses that the core was given, the cache owes the answer to the one that the
core waits for, and the others are completed or to come. -/
structure Balanced (n : Nat) (q : Processor) : Prop where
  owes : q.cache.Owes q.core.waiting.toNat
  total : q.core.progress.completed + q.core.waiting.toNat + q.core.pending.length = n

namespace Balanced

variable {q : Processor} {n : Nat}

theorem enqueue (h : q.Balanced n) (accesses : List TraceEntry) :
    (q.enqueue accesses).Balanced (n + accesses.length) where
  owes := h.owes
  total := by
    rw [← h.total]
    show _ + _ + (q.core.pending ++ accesses.map _).length = _
    rw [List.length_append, List.length_map, Nat.add_assoc _ _ accesses.length]
    rfl

theorem receive (h : q.Balanced n) (p : Packet) :
    Balanced n { q with cache := q.cache.receive p } :=
  ⟨h.owes.receive p, h.total⟩

theorem issue (h : q.Balanced n) (now : Nat) : (q.issue now).Balanced n := by
  unfold Processor.issue
  split
  · next r core hissue =>
    unfold Core.issue? at hissue
    split at hissue
    · next r' rest hw hp =>
      cases hissue
      have howes := h.owes
      have htotal := h.total
      rw [hw] at howes htotal
      rw [hp, List.length_cons] at htotal
      refine ⟨howes.request _, ?_⟩
      show q.core.progress.completed + 1 + rest.length = n
      rw [← htotal, Bool.toNat_false]
      omega
    · cases hissue
  · exact h

/-- The cache handles all that is queued at it, and answers at most the one access that the core
waits for. -/
theorem tick (h : q.Balanced n) {now : Nat} (hf : (q.tick now).fault = none) :
    (q.tick now).node.Balanced n ∧ (q.tick now).node.cache.inbound = [] := by
  obtain ⟨m, howes, hsum, hin⟩ := h.owes.tick hf
  refine ⟨?_, hin⟩
  have hone := Bool.toNat_le q.core.waiting
  show Balanced n
    { core := q.cache.tick.2.foldl (·.answer now) q.core, cache := q.cache.tick.1.node }
  rcases Nat.eq_zero_or_pos q.cache.tick.2.length with hnone | hsome
  · -- no answer: the core waits as before
    rw [hnone, Nat.add_zero] at hsum
    rw [List.length_eq_zero_iff.1 hnone]
    exact ⟨hsum ▸ howes, h.total⟩
  · -- one answer, which is the one that the core waited for
    have hlength : q.cache.tick.2.length = 1 := by omega
    have hm : m = 0 := by omega
    obtain ⟨r, hr⟩ := List.length_eq_one_iff.1 hlength
    subst hm
    rw [hr]
    refine ⟨howes, ?_⟩
    show q.core.progress.completed + 1 + 0 + q.core.pending.length = n
    rw [← h.total]
    omega

end Balanced

end Processor

/-- Two stages of a cycle establish what the second makes of what the first establishes. -/
theorem Outcome.andThen_establishes {o : Outcome} {Q R : Hierarchy → Prop}
    {next : Hierarchy → Outcome} (ho : o.error = none → Q o.hierarchy)
    (hnext : ∀ h, Q h → (next h).error = none → R (next h).hierarchy)
    (he : (o.andThen next).error = none) : R (o.andThen next).hierarchy := by
  unfold Outcome.andThen at he ⊢
  split at he
  · next e hsome =>
    rw [hsome] at he
    cases he
  · next hnone => exact hnext _ (ho hnone) he

namespace Hierarchy

/-- How many accesses of a trace are those of the core `i`. -/
def share (t : Trace) (i : Nat) : Nat := (t.entries.filter fun e => e.core.toNat = i).length

/-- Every core has its share of the trace, and no bank leaves requests to be tried again. -/
structure Balanced (t : Trace) (h : Hierarchy) : Prop where
  cores : ∀ i (q : Processor), h.processors[i]? = some q → q.Balanced (share t i)
  banks : ∀ b ∈ h.banks, b.backlog.retries = []

/-- The caches have handled all that was queued at them, requests of their cores included. -/
def Handled (h : Hierarchy) : Prop := ∀ q ∈ h.processors, q.cache.inbound = []

variable {c : Config} {t : Trace} {h h' : Hierarchy}

/-! ## A new hierarchy -/

/-- In a new hierarchy no core has done anything. -/
theorem balanced_create? (hc : create? c = .ok h) :
    (∀ q ∈ h.processors, q.Balanced 0) ∧ ∀ b ∈ h.banks, b.backlog.retries = [] := by
  obtain ⟨hprocessors, hbanks, -⟩ := of_create? hc
  refine ⟨fun q hq => ?_, fun b hb => ?_⟩
  · obtain ⟨cache, _, hcache, rfl⟩ := hprocessors q hq
    exact ⟨PrivateCache.owes_create? hcache, rfl⟩
  · obtain ⟨_, hbank⟩ := hbanks b hb
    exact SharedBank.retries_create? hbank

/-- Nothing is queued at its caches, whatever trace it is loaded with. -/
theorem handled_load (hc : create? c = .ok h) (t : Trace) : (h.load t).1.Handled := by
  intro q hq
  obtain ⟨i, hi, rfl⟩ := List.mem_mapIdx.1 hq
  obtain ⟨cache, _, hcache, hcached⟩ := (of_create? hc).1 _ (List.getElem_mem hi)
  show (h.processors[i]).cache.inbound = []
  rw [hcached]
  exact PrivateCache.inbound_create? hcache

/-- Loading a trace gives every core its share, if there is no access of a core that is not
there. -/
theorem balanced_load (hc : create? c = .ok h) (ht : (h.load t).2 = none) :
    (h.load t).1.Balanced t := by
  obtain ⟨hcores, hbanks⟩ := balanced_create? hc
  refine ⟨fun i q hq => ?_, hbanks⟩
  have hall : ∀ e ∈ t.entries, e.core.toNat < h.processors.length := by
    intro e he
    have hfind := List.find?_eq_none.1 (Option.map_eq_none_iff.1 ht) e he
    simpa using hfind
  -- so the trace is not cut off anywhere
  have hknown : t.entries.takeWhile (fun e => e.core.toNat < h.processors.length) = t.entries :=
    List.takeWhile_eq_self_iff.2 fun e he => decide_eq_true (hall e he)
  have hq : (h.processors.mapIdx fun i q => q.enqueue ((t.entries.takeWhile fun e =>
    e.core.toNat < h.processors.length).filter fun e => e.core.toNat = i))[i]? = some q := hq
  rw [List.getElem?_mapIdx, hknown] at hq
  obtain ⟨q₀, hq₀, rfl⟩ := Option.map_eq_some_iff.1 hq
  have hgiven := (hcores q₀ (List.mem_of_getElem? hq₀)).enqueue
    (t.entries.filter fun e => e.core.toNat = i)
  rwa [Nat.zero_add] at hgiven

/-! ## A cycle -/

namespace Balanced

/-- A packet is queued. -/
theorem route (hb : h.Balanced t) {p : Packet} (hr : h.route? p = some h') : h'.Balanced t := by
  cases routes_of_route? hr with
  | processor =>
    refine ⟨fun i q hq => ?_, hb.banks⟩
    rw [List.getElem?_modify] at hq
    obtain ⟨q₀, hq₀, rfl⟩ := Option.map_eq_some_iff.1 hq
    have hcore := hb.cores i q₀ hq₀
    split
    · exact hcore.receive p
    · exact hcore
  | bank =>
    refine ⟨hb.cores, fun b hmem => ?_⟩
    obtain ⟨j, hj⟩ := List.mem_iff_getElem?.1 hmem
    rw [List.getElem?_modify] at hj
    obtain ⟨b₀, hb₀, rfl⟩ := Option.map_eq_some_iff.1 hj
    split <;> exact hb.banks b₀ (List.mem_of_getElem? hb₀)
  | memory => exact ⟨hb.cores, hb.banks⟩

/-- Packets are queued. -/
theorem routeAll (hb : h.Balanced t) {ps : List Packet} (he : (h.routeAll ps).error = none) :
    (h.routeAll ps).hierarchy.Balanced t := by
  induction ps generalizing h with
  | nil => exact hb
  | cons p rest ih =>
    unfold Hierarchy.routeAll at he ⊢
    split at he
    · next h₁ hroute => exact ih (hb.route hroute) he
    · cases he

/-- Cores issue accesses. -/
theorem issue (hb : h.Balanced t) : h.issue.Balanced t := by
  refine ⟨fun i q hq => ?_, hb.banks⟩
  have hq : (h.processors.map (·.issue h.cycle))[i]? = some q := hq
  rw [List.getElem?_map] at hq
  obtain ⟨q₀, hq₀, rfl⟩ := Option.map_eq_some_iff.1 hq
  exact (hb.cores i q₀ hq₀).issue h.cycle

/-- The caches tick, and each handles all that is queued at it. -/
theorem tickProcessors (hb : h.Balanced t) (he : h.tickProcessors.error = none) :
    h.tickProcessors.hierarchy.Balanced t ∧ h.tickProcessors.hierarchy.Handled := by
  obtain ⟨hnodes, hfault⟩ := Work.forEach_node (Option.map_eq_none_iff.1 he)
  -- both are about one core with its cache, at its place in the row
  have hcores : ∀ i (q : Processor), h.tickProcessors.hierarchy.processors[i]? = some q →
      q.Balanced (share t i) ∧ q.cache.inbound = [] := by
    intro i q hq
    have hq : (Work.forEach (Processor.tick h.cycle) h.processors).node[i]? = some q := hq
    rw [hnodes, List.getElem?_map] at hq
    obtain ⟨q₀, hq₀, rfl⟩ := Option.map_eq_some_iff.1 hq
    exact (hb.cores i q₀ hq₀).tick (hfault q₀ (List.mem_of_getElem? hq₀))
  refine ⟨⟨fun i q hq => (hcores i q hq).1, hb.banks⟩, fun q hmem => ?_⟩
  obtain ⟨i, hi⟩ := List.mem_iff_getElem?.1 hmem
  exact (hcores i q hi).2

/-- The banks tick. -/
theorem tickBanks (hb : h.Balanced t) (he : h.tickBanks.error = none) :
    h.tickBanks.hierarchy.Balanced t := by
  obtain ⟨hnodes, hfault⟩ := Work.forEach_node (Option.map_eq_none_iff.1 he)
  refine ⟨hb.cores, fun b hmem => ?_⟩
  have hmem : b ∈ (Work.forEach SharedBank.tick h.banks).node := hmem
  rw [hnodes] at hmem
  obtain ⟨b₀, hb₀, rfl⟩ := List.mem_map.1 hmem
  exact SharedBank.retries_tick (hb.banks b₀ hb₀) (hfault b₀ hb₀)

/-- A cycle that ends without an error keeps every core's share, and leaves nothing queued at the
caches. -/
theorem step (hb : h.Balanced t) (he : h.step.error = none) :
    h.step.hierarchy.Balanced t ∧ h.step.hierarchy.Handled := by
  -- once the caches have ticked, banks and memory nodes queue nothing at them
  let Q (h : Hierarchy) : Prop := h.Balanced t ∧ h.Handled
  have hdeliver : h.beginCycle.deliver.error = none → h.beginCycle.deliver.hierarchy.Balanced t :=
    routeAll (h := { h.beginCycle with net := _ }) ⟨hb.cores, hb.banks⟩
  have hcaches := Outcome.andThen_establishes (R := Q) hdeliver
    fun h hb he => hb.issue.tickProcessors he
  have hbanks := Outcome.andThen_establishes (R := Q) hcaches
    fun h hq he => ⟨hq.1.tickBanks he, hq.2⟩
  exact Outcome.andThen_establishes (R := Q) hbanks
    (fun h hq _ => ⟨⟨hq.1.cores, hq.1.banks⟩, hq.2⟩) he

end Balanced

/-- Wherever a hierarchy gets, every core has its share. -/
theorem Reached.balanced (hr : Reached c t h) : h.Balanced t := by
  induction hr with
  | load hc ht => exact balanced_load hc ht
  | step _ hs ih =>
    have hstep := (ih.step (by rw [hs])).1
    rwa [hs] at hstep

/-- And nothing is queued at its caches, since every cycle handles all that is queued in it. -/
theorem Reached.handled (hr : Reached c t h) : h.Handled := by
  cases hr with
  | load hc => exact handled_load hc t
  | step hr hs =>
    have hstep := (hr.balanced.step (by rw [hs])).2
    rwa [hs] at hstep

end Hierarchy

end CacheCoherence
