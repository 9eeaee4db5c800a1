import CacheCoherence.Hierarchy.Report
import CacheCoherence.Proofs.Hierarchy.Reached
import CacheCoherence.Proofs.PrivateCache.Aligned

/-!
# Aligned hierarchies — only lines count

No node looks at more of an address than its line. So two traces that ask for the same lines have
the same runs, cycle by cycle, down to the last counter, whatever bytes of the lines they name.
-/

namespace CacheCoherence

/-! ## Processors -/

/-- The core with all accesses to come aligned. -/
def Core.aligned (lineOf : Addr → Addr) (c : Core) : Core :=
  { c with pending := c.pending.map (·.aligned lineOf) }

/-- The access to the first byte of the line. -/
def TraceEntry.aligned (lineOf : Addr → Addr) (e : TraceEntry) : TraceEntry :=
  { e with addr := lineOf e.addr }

/-- The trace with all accesses aligned. -/
def Trace.aligned (lineOf : Addr → Addr) (t : Trace) : Trace :=
  { entries := t.entries.map (·.aligned lineOf) }

namespace Processor

variable {lineOf : Addr → Addr} {p : Processor}

/-- The core and its cache, both aligned. -/
def aligned (lineOf : Addr → Addr) (p : Processor) : Processor :=
  { core := p.core.aligned lineOf, cache := p.cache.aligned lineOf }

/-- The lines of the cache are those of `lineOf`. -/
def Lines (lineOf : Addr → Addr) (p : Processor) : Prop := p.cache.Lines lineOf

theorem enqueue_aligned (p : Processor) (es : List TraceEntry) :
    (p.aligned lineOf).enqueue (es.map (·.aligned lineOf)) = (p.enqueue es).aligned lineOf := by
  let requestOf (e : TraceEntry) : Request :=
    { core := e.core.toNat, access := e.access, addr := e.addr }
  have hpending : (p.core.pending ++ es.map requestOf).map (·.aligned lineOf)
      = p.core.pending.map (·.aligned lineOf) ++ (es.map requestOf).map (·.aligned lineOf) :=
    List.map_append
  rw [List.map_map] at hpending
  refine Eq.trans ?_ (congrArg (fun pending => ({
    core := { p.core with pending }
    cache := p.cache.aligned lineOf } : Processor)) hpending.symm)
  rw [enqueue, List.map_map]
  rfl

theorem issue_aligned (p : Processor) (now : Nat) :
    (p.aligned lineOf).issue now = (p.issue now).aligned lineOf := by
  obtain ⟨⟨pending, waiting, progress⟩, cache⟩ := p
  cases waiting with
  | true => rfl
  | false =>
    cases pending with
    | nil => rfl
    | cons r rest =>
      exact congrArg (fun cache => ({
        core := { pending := rest.map (·.aligned lineOf), waiting := true, progress }
        cache } : Processor)) (PrivateCache.request_aligned cache { r with issuedAt := now })

theorem Lines.issue (hp : p.Lines lineOf) (now : Nat) : (p.issue now).Lines lineOf := by
  unfold Processor.issue
  split
  · exact PrivateCache.Lines.congr hp rfl
  · exact hp

/-- All that a core learns from an answer is when it was asked for. -/
theorem answer_aligned (c : Core) (now : Nat) (answered : List Request) :
    (answered.map (·.aligned lineOf)).foldl (·.answer now) (c.aligned lineOf)
      = (answered.foldl (·.answer now) c).aligned lineOf := by
  induction answered generalizing c with
  | nil => rfl
  | cons r rest ih => exact ih (c.answer now r)

theorem tick_mirrors (hp : p.Lines lineOf) (now : Nat) :
    Work.Mirrors (aligned lineOf) (Lines lineOf) (p.tick now) ((p.aligned lineOf).tick now) := by
  obtain ⟨hwork, hanswers⟩ := PrivateCache.tick_mirrors hp
  refine ⟨?_, hwork.sent, hwork.fault, hwork.holds⟩
  show ({ core := (p.cache.aligned lineOf).tick.2.foldl (·.answer now) (p.core.aligned lineOf)
          cache := (p.cache.aligned lineOf).tick.1.node } : Processor) = _
  rw [hwork.node, hanswers, answer_aligned]
  rfl

theorem isDone_aligned (p : Processor) : (p.aligned lineOf).core.isDone = p.core.isDone := by
  show (!p.core.waiting && (p.core.pending.map _).isEmpty) = _
  rw [List.isEmpty_map]
  rfl

theorem isIdle_aligned (p : Processor) : (p.aligned lineOf).cache.isIdle = p.cache.isIdle := by
  show ((p.cache.inbound.map _).isEmpty && (p.cache.backlog.map _).isEmpty
    && (p.cache.mshr.map _).occupancy == 0 && p.cache.outlet.isEmpty
    && (p.cache.responses.map _).isEmpty) = _
  rw [List.isEmpty_map, Backlog.isEmpty_map, Mshr.occupancy_map, DelayLine.isEmpty_map]
  rfl

end Processor

namespace Hierarchy

variable {lineOf : Addr → Addr} {h : Hierarchy}

/-- The hierarchy with every request aligned that a core or a private cache holds. -/
def aligned (lineOf : Addr → Addr) (h : Hierarchy) : Hierarchy :=
  { h with processors := h.processors.map (·.aligned lineOf) }

/-- The lines of the private caches are those of `lineOf`. -/
def Lines (lineOf : Addr → Addr) (h : Hierarchy) : Prop := ∀ p ∈ h.processors, p.Lines lineOf

/-- What is reported does not show what bytes were asked for. -/
theorem isDrained_aligned (h : Hierarchy) : (h.aligned lineOf).isDrained = h.isDrained := by
  simp only [isDrained, aligned, List.all_map, Function.comp_def, Processor.isDone_aligned,
    Processor.isIdle_aligned]

theorem report_aligned (h : Hierarchy) : (h.aligned lineOf).report = h.report := by
  simp only [report, isDrained_aligned, Report.mk.injEq, true_and]
  simp [aligned, Processor.aligned, Core.aligned, PrivateCache.aligned, Function.comp_def]

/-! ## A cycle -/

/-- The outcome `o'` is the mirror image of `o`. -/
structure Mirrors (lineOf : Addr → Addr) (o o' : Outcome) : Prop where
  hierarchy : o'.hierarchy = o.hierarchy.aligned lineOf
  error : o'.error = o.error
  lines : o.error = none → o.hierarchy.Lines lineOf

theorem Mirrors.stopped (h : Hierarchy) (e : RunError) : Mirrors lineOf
    { hierarchy := h, error := some e } { hierarchy := h.aligned lineOf, error := some e } :=
  ⟨rfl, rfl, nofun⟩

theorem Mirrors.andThen {o o' : Outcome} {next : Hierarchy → Outcome} (ho : Mirrors lineOf o o')
    (hnext : ∀ h : Hierarchy, h.Lines lineOf → Mirrors lineOf (next h) (next (h.aligned lineOf))) :
    Mirrors lineOf (o.andThen next) (o'.andThen next) := by
  unfold Outcome.andThen
  rw [ho.error]
  cases he : o.error with
  | some e => exact ho
  | none =>
    dsimp only
    rw [ho.hierarchy]
    exact hnext _ (ho.lines he)

/-- A packet finds its way to the same node. -/
theorem route?_aligned (h : Hierarchy) (p : Packet) :
    (h.aligned lineOf).route? p = (h.route? p).map (aligned lineOf) := by
  have hmodify : (h.processors.map (·.aligned lineOf)).modify p.dst.index.toNat
        (fun q => { q with cache := q.cache.receive p })
      = (h.processors.modify p.dst.index.toNat
        fun q => { q with cache := q.cache.receive p }).map (·.aligned lineOf) := by
    apply List.ext_getElem?
    intro i
    have hreceive (q : Processor) : (q.aligned lineOf).cache.receive p
        = (q.cache.receive p).aligned lineOf := q.cache.receive_aligned p
    simp only [List.getElem?_modify, List.getElem?_map]
    cases h.processors[i]? with
    | none => rfl
    | some q =>
      simp only [Option.map_some, Option.map_eq_map]
      split
      · rw [hreceive]
        rfl
      · rfl
  simp only [route?, aligned, List.length_map, hmodify]
  split
  · rfl
  · split
    · rfl
    · split <;> rfl

theorem Lines.route? {h' : Hierarchy} (hl : h.Lines lineOf) {p : Packet}
    (hr : h.route? p = some h') : h'.Lines lineOf := by
  unfold Hierarchy.route? at hr
  dsimp only at hr
  split at hr
  · cases hr
    intro q hq
    obtain ⟨i, hi⟩ := List.mem_iff_getElem?.1 hq
    rw [List.getElem?_modify] at hi
    obtain ⟨q', hq', heq⟩ := Option.map_eq_some_iff.1 hi
    have hl' := hl q' (List.mem_of_getElem? hq')
    split at heq <;> cases heq
    · exact PrivateCache.Lines.congr hl' rfl
    · exact hl'
  · split at hr
    · cases hr
      exact hl
    · split at hr <;> cases hr
      exact hl

theorem routeAll_mirrors (hl : h.Lines lineOf) (ps : List Packet) :
    Mirrors lineOf (h.routeAll ps) ((h.aligned lineOf).routeAll ps) := by
  induction ps generalizing h with
  | nil => exact ⟨rfl, rfl, fun _ => hl⟩
  | cons p rest ih =>
    rw [routeAll, routeAll, route?_aligned]
    cases hr : h.route? p with
    | none => exact .stopped h (.unknownNode p.dst)
    | some h' => exact ih (hl.route? hr)

theorem issue_aligned (h : Hierarchy) : (h.aligned lineOf).issue = h.issue.aligned lineOf := by
  simp only [issue, aligned, List.map_map, Function.comp_def, Processor.issue_aligned]

theorem tickProcessors_mirrors (hl : h.Lines lineOf) :
    Mirrors lineOf h.tickProcessors (h.aligned lineOf).tickProcessors := by
  have hwork := Work.Mirrors.forEach (f := Processor.aligned lineOf) (I := Processor.Lines lineOf)
    (fun p hp => Processor.tick_mirrors hp h.cycle) hl
  refine ⟨?_, congrArg (Option.map _) hwork.fault, fun he => hwork.holds (Option.map_eq_none_iff.1 he)⟩
  show ({ h with
    processors := (Work.forEach (Processor.tick h.cycle) (h.processors.map _)).node
    net := h.net.sendAll (Work.forEach (Processor.tick h.cycle) (h.processors.map _)).sent } :
      Hierarchy) = _
  rw [hwork.node, hwork.sent]
  rfl

/-- In a cycle an aligned hierarchy does the same. -/
theorem step_mirrors (hl : h.Lines lineOf) : Mirrors lineOf h.step (h.aligned lineOf).step := by
  have hdelivered : Mirrors lineOf h.beginCycle.deliver (h.aligned lineOf).beginCycle.deliver :=
    routeAll_mirrors (h := { h.beginCycle with
      net := h.beginCycle.net.remaining h.beginCycle.cycle }) hl _
  have hticked : Mirrors lineOf (h.beginCycle.deliver.andThen fun h => h.issue.tickProcessors)
      ((h.aligned lineOf).beginCycle.deliver.andThen fun h => h.issue.tickProcessors) := by
    refine hdelivered.andThen fun n hn => ?_
    rw [issue_aligned]
    refine tickProcessors_mirrors fun p hp => ?_
    obtain ⟨q, hq, rfl⟩ := List.mem_map.1 hp
    exact (hn q hq).issue n.cycle
  have hbanks (n : Hierarchy) (hn : n.Lines lineOf) :
      Mirrors lineOf n.tickBanks (n.aligned lineOf).tickBanks := ⟨rfl, rfl, fun _ => hn⟩
  have hmemories (n : Hierarchy) (hn : n.Lines lineOf) :
      Mirrors lineOf n.tickMemories (n.aligned lineOf).tickMemories := ⟨rfl, rfl, fun _ => hn⟩
  exact (hticked.andThen hbanks).andThen hmemories

/-! ## Runs -/

theorem drainWithin_mirrors (hl : h.Lines lineOf) (n : Nat) :
    Mirrors lineOf (h.drainWithin n) ((h.aligned lineOf).drainWithin n) := by
  induction n generalizing h with
  | zero => exact ⟨rfl, rfl, fun _ => hl⟩
  | succ n ih =>
    have hstep := step_mirrors hl
    rw [drainWithin, drainWithin, isDrained_aligned]
    split
    · exact ⟨rfl, rfl, fun _ => hl⟩
    · generalize h.step = o at hstep ⊢
      generalize (h.aligned lineOf).step = o' at hstep ⊢
      obtain ⟨next, error⟩ := o
      obtain ⟨next', error'⟩ := o'
      obtain ⟨hnext, herror, hlines⟩ := hstep
      obtain rfl : next' = next.aligned lineOf := hnext
      obtain rfl : error' = error := herror
      cases error' with
      | some e => exact .stopped next e
      | none => exact ih (hlines rfl)

/-- Aligned traces load aligned hierarchies. -/
theorem load_aligned (h : Hierarchy) (t : Trace) :
    (h.aligned lineOf).load (t.aligned lineOf)
      = ((h.load t).1.aligned lineOf, (h.load t).2) := by
  have hknown (n : Nat) : (t.entries.map (·.aligned lineOf)).takeWhile (fun e => e.core.toNat < n)
      = (t.entries.takeWhile fun e => e.core.toNat < n).map (·.aligned lineOf) :=
    List.takeWhile_map ..
  have hunknown (n : Nat) : (t.entries.map (·.aligned lineOf)).find? (fun e => n ≤ e.core.toNat)
      = (t.entries.find? fun e => n ≤ e.core.toNat).map (·.aligned lineOf) := List.find?_map ..
  have hmine (i : Nat) (es : List TraceEntry) : (es.map (·.aligned lineOf)).filter
      (fun e => e.core.toNat = i) = (es.filter fun e => e.core.toNat = i).map (·.aligned lineOf) :=
    List.filter_map
  simp only [load, aligned, Trace.aligned, List.length_map, hknown, hunknown, hmine]
  refine Prod.ext ?_ ?_
  · refine congrArg (fun processors => { h with processors }) (List.ext_getElem? fun i => ?_)
    simp only [List.getElem?_mapIdx, List.getElem?_map]
    cases h.processors[i]? with
    | none => rfl
    | some p => exact congrArg some (Processor.enqueue_aligned p _)
  · dsimp only
    cases t.entries.find? _ <;> rfl

theorem Lines.load (hl : h.Lines lineOf) (t : Trace) : (h.load t).1.Lines lineOf := by
  intro p hp
  obtain ⟨i, hi, rfl⟩ := List.mem_mapIdx.1 hp
  exact hl h.processors[i] (List.getElem_mem hi)

/-- A whole run of an aligned hierarchy is the mirror image of the run as it is. -/
theorem run_mirrors (hl : h.Lines lineOf) : Mirrors lineOf h.run (h.aligned lineOf).run :=
  drainWithin_mirrors hl _

/-- Traces that are aligned alike are refused alike, and run alike as far as the report shows. -/
theorem run_load_of_aligned (hl : h.Lines lineOf) {t t' : Trace}
    (ht : t.aligned lineOf = t'.aligned lineOf) :
    (h.load t).2 = (h.load t').2 ∧ (h.load t).1.run.error = (h.load t').1.run.error ∧
      (h.load t).1.run.hierarchy.report = (h.load t').1.run.hierarchy.report := by
  have hloaded := (load_aligned h t).symm.trans ((congrArg _ ht).trans (load_aligned h t'))
  obtain ⟨haligned, hrefused⟩ := Prod.mk.inj hloaded
  have hrun := run_mirrors (hl.load t)
  have hrun' := run_mirrors (hl.load t')
  rw [haligned] at hrun
  refine ⟨hrefused, hrun.error.symm.trans hrun'.error, ?_⟩
  rw [← report_aligned, ← hrun.hierarchy, hrun'.hierarchy, report_aligned]

end Hierarchy

/-! ## Lines of a configuration -/

/-- Where the line of `a` starts, if lines have this size. -/
def Addr.lineStart (lineBytes : UInt64) (a : Addr) : Addr := a - a % lineBytes

/-- A new cache has lines of the size that it was told. -/
theorem PrivateCache.lines_create? {id : NodeId} {config : NodeConfig} {tags : MessageTags}
    {route : Route} {c : PrivateCache} (hc : create? id config tags route = .ok c) :
    c.Lines (Addr.lineStart config.cache.lineBytes) := by
  obtain ⟨hvalid, table, htable, rfl⟩ := of_create? hc
  obtain ⟨-, -, hoffset⟩ := LineTable.leastRecent?_shaped htable
  obtain ⟨-, hpow, -⟩ := LineTable.of_validate (NodeConfig.cache_of_validate hvalid)
  intro a
  have hbytes : table.layout.lineBytes = config.cache.lineBytes.toNat := by
    rw [AddressLayout.lineBytes, hoffset]
    exact hpow
  show table.layout.lineAddr a = _
  rw [AddressLayout.lineAddr_eq_sub, hbytes, UInt64.ofNat_toNat, Addr.lineStart]

theorem Hierarchy.lines_create? {c : Config} {h : Hierarchy} (hc : create? c = .ok h) :
    h.Lines (Addr.lineStart c.l1.cache.lineBytes) := by
  intro p hp
  obtain ⟨cache, _, hcache, rfl⟩ := (of_create? hc).1 p hp
  exact PrivateCache.lines_create? hcache

/-! ## Traces that agree -/

/-- The two accesses are of one kind, by one core and to one line. -/
structure TraceEntry.Agrees (lineBytes : UInt64) (e e' : TraceEntry) : Prop where
  core : e.core = e'.core
  access : e.access = e'.access
  line : Addr.lineStart lineBytes e.addr = Addr.lineStart lineBytes e'.addr

theorem TraceEntry.Agrees.aligned {lineBytes : UInt64} {e e' : TraceEntry}
    (he : e.Agrees lineBytes e') :
    e.aligned (Addr.lineStart lineBytes) = e'.aligned (Addr.lineStart lineBytes) := by
  rw [TraceEntry.aligned, TraceEntry.aligned, he.core, he.access, he.line]

/-- The two traces agree access by access. -/
def Trace.Agrees (lineBytes : UInt64) (t t' : Trace) : Prop :=
  t.entries.Forall₂ (TraceEntry.Agrees lineBytes) t'.entries

theorem Trace.Agrees.aligned {lineBytes : UInt64} {t t' : Trace} (ht : t.Agrees lineBytes t') :
    t.aligned (Addr.lineStart lineBytes) = t'.aligned (Addr.lineStart lineBytes) := by
  refine congrArg Trace.mk ?_
  unfold Trace.Agrees at ht
  generalize t.entries = es at ht ⊢
  generalize t'.entries = es' at ht ⊢
  induction ht with
  | nil => rfl
  | cons he _ ih =>
    rw [List.map_cons, List.map_cons, ih, he.aligned]

/-- A valid configuration gives a hierarchy, and on it two traces that agree are both loaded or
refused for the same core, and run to the same end: the same report, and the same error if any. -/
theorem Hierarchy.report_of_agrees {c : Config} {t t' : Trace} (hv : c.validate = .ok ())
    (ht : t.Agrees c.l1.cache.lineBytes t') : ∃ h, create? c = .ok h ∧
      (h.load t).2 = (h.load t').2 ∧ (h.load t).1.run.error = (h.load t').1.run.error ∧
      (h.load t).1.run.hierarchy.report = (h.load t').1.run.hierarchy.report := by
  obtain ⟨h, hc⟩ := exists_create? hv
  exact ⟨h, hc, run_load_of_aligned (lines_create? hc) ht.aligned⟩

namespace Hierarchy

/-- Two banks, and pages of a quarter of a line. -/
def narrowPages : Config :=
  { twoCores with topology := { twoCores.topology with l2Nodes := 2, pageOffsetBits := 3 } }

/-- The same write as `oneWrite`, but of a byte in a page of the other bank. -/
def oneWriteBeyond : Trace := { entries := [{ core := 0, access := .write, addr := 12 }] }

theorem report_of_agrees_beyond : narrowPages.validate = .ok () ∧
    oneWrite.Agrees narrowPages.l1.cache.lineBytes oneWriteBeyond ∧ ∃ h,
      create? narrowPages = .ok h ∧ (h.load oneWrite).2 = (h.load oneWriteBeyond).2 ∧
      (h.load oneWrite).1.run.error = (h.load oneWriteBeyond).1.run.error ∧
      (h.load oneWrite).1.run.hierarchy.report
        = (h.load oneWriteBeyond).1.run.hierarchy.report := by
  have hvalid : narrowPages.validate = .ok () := by cbv
  have hagrees : oneWrite.Agrees narrowPages.l1.cache.lineBytes oneWriteBeyond :=
    .cons ⟨rfl, rfl, rfl⟩ .nil
  exact ⟨hvalid, hagrees, report_of_agrees hvalid hagrees⟩

end Hierarchy

end CacheCoherence
