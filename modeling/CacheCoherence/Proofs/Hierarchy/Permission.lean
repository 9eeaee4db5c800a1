import CacheCoherence.Proofs.Hierarchy.Reached
import CacheCoherence.Proofs.Hierarchy.Rounds
import CacheCoherence.Proofs.PrivateCache.Permission

/-!
# Permission — accesses complete only with permission

In whatever order caches, banks and memory nodes take their turns, none of them promises a shared
copy to a client whose transaction is for a store. So in every cycle of every run a cache that
queues a response has the line resident in a state that permits the access.
-/

namespace CacheCoherence

/-- A processor keeps its cache assured, and all others. -/
theorem Processor.tick_keeps {P : Plan} (now : Nat) :
    (station P).Keeps P (fun s q => q.cache.Assured P s) (tick now) := by
  intro s q R T hs hst hdst hassured hf
  have hst : (PrivateCache.station P).Stands P s q.cache R _ := Station.stands_comap.1 hst
  have ha : q.cache.Attended P s q.cache.inbound R T := ⟨hs, hst, hdst, hassured⟩
  obtain ⟨s', h⟩ := PrivateCache.tick_fares ha hf
  -- nothing is left to handle
  have hin : q.cache.tick.1.node.inbound = [] := by
    rcases PrivateCache.tick_works hdst s R T hs hst with ⟨-, _, hm⟩ | ⟨f, _, hf', -⟩
    · exact hm.inbound
    · rw [show q.cache.tick.1.fault = none from hf] at hf'
      cases hf'
  have hst' := h.attended.stands
  rw [show (PrivateCache.station P).packets [] = 0 from rfl, Multiset.zero_add] at hst'
  refine ⟨s', {
    run := h.run
    others := h.others
    id := h.id
    inbound := hin
    stands := Station.stands_comap.2 hst' }, h.attended.assured, fun m hne hm => ?_⟩
  exact hm.mono rfl rfl fun X => h.spares X _ hne

namespace Hierarchy

variable {P : Plan} {h h' : Hierarchy} {s s' : Scene} {c : Config} {t : Trace}

/-! ## The cores hand their accesses over -/

/-- The private caches without what is queued at them. -/
def unqueued (h : Hierarchy) : List PrivateCache :=
  h.processors.map fun q => { q.cache with inbound := [] }

theorem unqueued_route {p : Packet} (hr : h.route? p = some h') : h'.unqueued = h.unqueued := by
  cases routes_of_route? hr with
  | processor hq =>
    obtain ⟨l₁, l₂, hl, hmodify⟩ := Station.modify_split hq
    show (h.processors.modify _ _).map _ = h.processors.map _
    rw [hmodify, hl]
    simp [PrivateCache.receive]
  | bank | memory => rfl

theorem unqueued_routeAll {ps : List Packet} (hr : h.routeAll ps = { hierarchy := h' }) :
    h'.unqueued = h.unqueued := by
  induction ps generalizing h with
  | nil =>
    cases hr
    rfl
  | cons p rest ih =>
    unfold routeAll at hr
    split at hr
    · next h₁ hroute => rw [ih hr, unqueued_route hroute]
    · cases hr

theorem unqueued_issue (h : Hierarchy) : h.issue.unqueued = h.unqueued := by
  rw [unqueued, issue, List.map_map]
  refine List.map_congr_left fun q _ => ?_
  show ({ (q.issue h.cycle).cache with inbound := [] } : PrivateCache) = _
  unfold Processor.issue
  split <;> rfl

/-- Before the nodes take their turns nothing has happened at the caches but that events are
queued. -/
theorem unqueued_ready (he : h.beginCycle.deliver.error = none) :
    h.ready.unqueued = h.unqueued := by
  have hdeliver : h.beginCycle.deliver = { hierarchy := h.beginCycle.deliver.hierarchy } := by
    rw [← he]
  rw [ready, unqueued_issue, unqueued_routeAll hdeliver]
  rfl

/-! ## No store is promised a shared copy -/

/-- The private caches are assured. -/
def Assured (P : Plan) (s : Scene) (h : Hierarchy) : Prop :=
  ∀ q ∈ h.processors, q.cache.Assured P s

theorem Assured.of_unqueued (ha : h.Assured P s) (hl : h'.unqueued = h.unqueued) :
    h'.Assured P s := by
  intro q hq
  have hmem : ({ q.cache with inbound := [] } : PrivateCache) ∈ h.unqueued :=
    hl ▸ List.mem_map_of_mem hq
  obtain ⟨q₀, hq₀, heq⟩ := List.mem_map.1 hmem
  have hid : q.cache.id = q₀.cache.id := (congrArg PrivateCache.id heq).symm
  have hmshr : q.cache.mshr = q₀.cache.mshr := (congrArg PrivateCache.mshr heq).symm
  exact (ha q₀ hq₀).mono hid hmshr fun _ h => h

/-- What banks and memory do promises a shared copy to nobody. -/
theorem Stage.assured {r : Role} (hst : Stage P r s { hierarchy := h' }) (hr : r ≠ .client)
    (hs : s.Sound P) (ha : h.Assured P s) (hp : h'.processors = h.processors) :
    ∃ s', s'.Sound P ∧ h'.Depicts P s' 0 ∧ h'.Assured P s' := by
  rcases hst with ⟨-, s', hrun, hd⟩ | ⟨f, -, herr, -⟩
  · refine ⟨s', hrun.sound hs, hd, fun q hq => ?_⟩
    rw [hp] at hq
    exact (ha q hq).mono rfl rfl fun X hshare => hrun.sharesWith hr hs hshare
  · cases herr

namespace Depicts

/-- The caches tick, each assured when its turn comes. -/
theorem tickProcessors_assured (hd : h.Depicts P s 0) (hs : s.Sound P) (ha : h.Assured P s)
    (ht : h.tickProcessors = { hierarchy := h' }) :
    (∃ s', s'.Sound P ∧ h'.Depicts P s' 0 ∧ h'.Assured P s') ∧
      ∀ q ∈ h.processors, ∃ s' R T, q.cache.Attended P s' q.cache.inbound R T := by
  simp only [Hierarchy.tickProcessors, Outcome.mk.injEq, Option.map_eq_none_iff] at ht
  obtain ⟨rfl, hf⟩ := ht
  obtain ⟨⟨s', hadv, hassured, -⟩, hturns⟩ :=
    hd.caches.keeps (Processor.tick_keeps h.cycle) hs ha hf
  refine ⟨⟨s', hadv.run.sound hs, hd.worked hadv, hassured⟩, fun q hq => ?_⟩
  obtain ⟨s₁, R, T, hs₁, hst, hq₁⟩ := hturns q hq
  exact ⟨s₁, R, T, hs₁, Station.stands_comap.1 hst, hd.processors.addressed q hq, hq₁⟩

/-- A cycle leaves the caches assured, each of which is assured when its turn comes. -/
theorem step_assured (hd : h.Depicts P s 0) (hs : s.Sound P) (ha : h.Assured P s)
    (hstep : h.step = { hierarchy := h' }) :
    (∃ s', s'.Sound P ∧ h'.Depicts P s' 0 ∧ h'.Assured P s') ∧
      ∀ q ∈ h.ready.processors, ∃ s' R T, q.cache.Attended P s' q.cache.inbound R T := by
  obtain ⟨herr, hready, -⟩ := hd.ready hs
  obtain ⟨h₁, h₂, hcaches, hbanks, hmemories⟩ := step_stages hstep
  obtain ⟨⟨s₁, hs₁, hd₁, ha₁⟩, hturns⟩ :=
    hready.tickProcessors_assured hs (ha.of_unqueued (unqueued_ready herr)) hcaches
  have hbanked : h₂.processors = h₁.processors := by rw [(tickBanks_eq hbanks).2]
  have hended : h'.processors = h₂.processors := by rw [(tickMemories_eq hmemories).2]
  obtain ⟨s₂, hs₂, hd₂, ha₂⟩ :=
    (hbanks ▸ hd₁.tickBanks hs₁).assured nofun hs₁ ha₁ hbanked
  exact ⟨(hmemories ▸ hd₂.tickMemories hs₂).assured nofun hs₂ ha₂ hended, hturns⟩

end Depicts

/-- A new cache has no transactions, so it is assured. -/
theorem assured_create? (hc : create? c = .ok h) (P : Plan) (s : Scene) : h.Assured P s := by
  intro q hq X r hwants
  obtain ⟨cache, _, hcache, rfl⟩ := (of_create? hc).1 q hq
  have hrests := PrivateCache.rests_create? (W := P) hcache
  exact absurd hwants (hrests.not_wants rfl)

theorem unqueued_load (h : Hierarchy) (t : Trace) : (h.load t).1.unqueued = h.unqueued := by
  refine List.ext_getElem? fun i => ?_
  simp [load, unqueued, List.getElem?_mapIdx, Processor.enqueue, Function.comp_def]

/-- Wherever a hierarchy gets, its caches are assured. -/
theorem Reached.assured (hr : Reached c t h) (hn : c.nodes ≤ 2 ^ 32) :
    ∃ P s, s.Sound P ∧ h.Depicts P s 0 ∧ h.Assured P s := by
  induction hr with
  | @load h hc =>
    obtain ⟨P, hd⟩ := create?_depicts hc hn
    exact ⟨P, .idle P, Scene.sound_idle P, hd.load t,
      (assured_create? hc P _).of_unqueued (unqueued_load h t)⟩
  | step _ hs ih =>
    obtain ⟨P, s, hsound, hd, ha⟩ := ih
    exact ⟨P, (hd.step_assured hsound ha hs).1⟩

/-! ## Responses -/

/-- In the cycle from `h` to `h'` responses are queued in turns of the caches alone, and those that
are due leave. -/
structure Responds (h h' : Hierarchy) : Prop where
  ready : h.ready.unqueued = h.unqueued
  turns : ∀ q ∈ h.ready.processors,
    q.cache.beginCycle.Turns q.cache.inbound q.cache.handled []
  responses : h'.processors.map (·.cache.responses) = h.ready.processors.map fun q =>
    q.cache.handled.node.responses.remaining q.cache.handled.node.cycle

theorem Depicts.responds (hd : h.Depicts P s 0) (hs : s.Sound P)
    (hstep : h.step = { hierarchy := h' }) : Responds h h' := by
  obtain ⟨herr, -⟩ := hd.ready hs
  obtain ⟨h₁, h₂, hcaches, hbanks, hmemories⟩ := step_stages hstep
  obtain ⟨hfaults, rfl⟩ := tickProcessors_eq hcaches
  obtain ⟨-, rfl⟩ := tickBanks_eq hbanks
  obtain ⟨-, rfl⟩ := tickMemories_eq hmemories
  have htick := fun q hq => PrivateCache.responses_tick (hfaults q hq)
  refine {
    ready := unqueued_ready herr
    turns := fun q hq => PrivateCache.turns_handled (htick q hq).1
    responses := ?_ }
  rw [List.map_map]
  exact List.map_congr_left fun q hq => (htick q hq).2

/-- Accesses complete only with permission. In every cycle that ends without an error, the private
caches handle their events in turns, and nothing else queues responses; whatever turns a cache has
taken, if its next turn queues the response of a request, the cache then has the line of the request
resident and may use it for the access. -/
theorem Reached.permitted (hr : Reached c t h) (hn : c.nodes ≤ 2 ^ 32)
    (hstep : h.step = { hierarchy := h' }) : Responds h h' ∧
      ∀ q ∈ h.ready.processors, ∀ w es w' es', q.cache.beginCycle.Turns q.cache.inbound w es →
        w.node.Turn es w' es' → w.node.Grants w'.node := by
  obtain ⟨P, s, hs, hd, ha⟩ := hr.assured hn
  obtain ⟨-, hturns⟩ := hd.step_assured hs ha hstep
  refine ⟨hd.responds hs hstep, fun q hq w es w' es' htaken hturn => ?_⟩
  obtain ⟨s', R, T, hattended⟩ := hturns q hq
  exact htaken.grants hturn hattended.beginCycle

/-- A run in which a core writes to a line gets to a turn that queues the response. -/
theorem Reached.permitted_written : ∃ h h' q w es, Reached twoCores oneWrite h ∧
    h.step = { hierarchy := h' } ∧ Responds h h' ∧ q ∈ h.ready.processors ∧
    q.cache.beginCycle.Turn q.cache.inbound w es ∧ q.cache.responses.toList = [] ∧
    w.node.responses.toList.map (·.access) = [.write] ∧ q.cache.beginCycle.Grants w.node := by
  obtain ⟨h, hr, hx⟩ := exists_reached (c := twoCores) (t := oneWrite) (n := 4)
    (f := fun h => (h.step.error, h.ready.processors.head?.bind fun q =>
      q.cache.beginCycle.takePacket?.map fun w =>
        (w.fault, q.cache.responses.toList, w.node.responses.toList.map (·.access))))
    (x := (none, some (none, [], [.write]))) (by cbv)
  obtain ⟨herr, hx⟩ := Prod.mk.inj hx
  obtain ⟨q, hhead, hx⟩ := Option.bind_eq_some_iff.1 hx
  obtain ⟨w, hw, hx⟩ := Option.map_eq_some_iff.1 hx
  simp only [Prod.mk.injEq] at hx
  obtain ⟨hfault, hnone, hwrite⟩ := hx
  have hq : q ∈ h.ready.processors := List.mem_of_head? hhead
  have hstep : h.step = { hierarchy := h.step.hierarchy } := by rw [← herr]
  obtain ⟨es, hturn⟩ := PrivateCache.turn_of_takePacket? hw hfault
  obtain ⟨hresponds, hgrants⟩ := hr.permitted (by decide) hstep
  exact ⟨h, _, q, w, es, hr, hstep, hresponds, hq, hturn, hnone, hwrite,
    hgrants q hq _ _ _ _ .start hturn⟩

end Hierarchy

end CacheCoherence
