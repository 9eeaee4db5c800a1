import CacheCoherence.Hierarchy.Basic
import CacheCoherence.Json.Basic

/-!
# Report — what every node counted

The report of a hierarchy, as text with one section per node and as JSON.
-/

namespace CacheCoherence

/-- The counters of a whole hierarchy. -/
structure Report where
  cycles : Nat
  /-- Every access was answered, and nothing was left on its way. -/
  drained : Bool
  cores : List CoreProgress
  l1 : List Counters
  l2 : List Counters
  memory : List MemoryCounters
  /-- Packets put on the interconnect, credits included. -/
  packets : Nat
deriving DecidableEq, Repr

/-- The report of a hierarchy as it stands. -/
def Hierarchy.report (h : Hierarchy) : Report :=
  { cycles := h.cycle
    drained := h.isDrained
    cores := h.processors.map (·.core.progress)
    l1 := h.processors.map (·.cache.counters)
    l2 := h.banks.map (·.counters)
    memory := h.memories.map (·.counters)
    packets := h.net.sent }

/-! ## As text -/

/-- The line of core `i`. -/
def CoreProgress.reportLine (i : Nat) (p : CoreProgress) : String :=
  let number := toString i
  "  core" ++ number ++ String.ofList (List.replicate (3 - number.length) ' ')
    ++ s!" completed       {p.completed}  avg.latency {Decimal.fixed 2 p.averageLatency}"

/-- The lines of memory node `i`. -/
def MemoryCounters.reportLines (i : Nat) (c : MemoryCounters) : List String :=
  Banner.lines s!"MEM[{i}]" ++ [
    Banner.row "reads" (toString c.reads),
    Banner.row "writes" (toString c.writes),
    Banner.row "row.hits" (toString c.rowHits)]

/-- The lines of a report: the hierarchy, then every node. -/
def Report.lines (r : Report) : List String :=
  Banner.lines "SYSTEM" ++ [
    Banner.row "cycles" (toString r.cycles),
    Banner.row "drained" (toString r.drained),
    Banner.row "packets" (toString r.packets)]
  ++ r.cores.mapIdx CoreProgress.reportLine
  ++ (r.l1.mapIdx fun i c => c.reportLines s!"L1[{i}]").flatten
  ++ (r.l2.mapIdx fun i c => c.reportLines s!"L2[{i}]").flatten
  ++ (r.memory.mapIdx MemoryCounters.reportLines).flatten

/-- The text of a report. -/
def Report.text (r : Report) : String := Banner.text r.lines

/-! ## As JSON -/

def CoreProgress.toJson (p : CoreProgress) : Json := .ofMembers [
  ("completed", .nat p.completed),
  ("total_latency", .nat p.totalLatency)]

def Counters.toJson (c : Counters) : Json := .ofMembers (c.fields.map fun (name, n) => (name, .nat n))

def MemoryCounters.toJson (c : MemoryCounters) : Json := .ofMembers [
  ("reads", .nat c.reads),
  ("writes", .nat c.writes),
  ("read_latency", .nat c.readLatency),
  ("row_hits", .nat c.rowHits)]

def Report.toJson (r : Report) : Json := .ofMembers [
  ("cycles", .nat r.cycles),
  ("drained", .bool r.drained),
  ("cores", .array (r.cores.map CoreProgress.toJson)),
  ("l1", .array (r.l1.map Counters.toJson)),
  ("l2", .array (r.l2.map Counters.toJson)),
  ("memory", .array (r.memory.map MemoryCounters.toJson)),
  ("packets", .nat r.packets)]

end CacheCoherence
