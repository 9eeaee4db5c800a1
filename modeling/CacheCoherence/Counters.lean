import CacheCoherence.Decimal
import CacheCoherence.Parking

/-!
# Counters — what a cache node counts

Counters grow as a side effect of a node's work and never influence it. The
report lists them under a banner, with the hit rate to four places and the
average occupancies to two.
-/

namespace CacheCoherence

/-- The counters of one cache node. -/
structure Counters where
  /-- Cycles ticked. -/
  cycles : Nat := 0
  /-- Loads received from the processor. -/
  processorReads : Nat := 0
  /-- Stores received from the processor. -/
  processorWrites : Nat := 0
  /-- Private cache: accesses served by a line already held. Shared bank: copies
  asked of a resident line; eviction notices do not count. -/
  hits : Nat := 0
  /-- Private cache: accesses that opened a transaction. Shared bank: requests that
  had to fetch the line from memory. -/
  misses : Nat := 0
  registerStalls : Nat := 0
  pendingStalls : Nat := 0
  victimStalls : Nat := 0
  evictingStalls : Nat := 0
  /-- The largest number of requests parked at once. -/
  deepestParking : Nat := 0
  /-- Sum over cycles of the resident lines. -/
  tableOccupancy : Nat := 0
  /-- Cycles without a resident line. -/
  tableEmptyCycles : Nat := 0
  /-- Sum over cycles of the outstanding transactions. -/
  mshrOccupancy : Nat := 0
  /-- Cycles without an outstanding transaction. -/
  mshrEmptyCycles : Nat := 0
  /-- Replacements started. -/
  evictions : Nat := 0
  /-- Dirty lines handed to the next level. -/
  writebacks : Nat := 0
  /-- Stale messages that the protocol ignored. -/
  staleIgnored : Nat := 0
  /-- Eviction notices dropped because the line was gone. -/
  staleDropped : Nat := 0
  /-- Coherence and memory messages produced. -/
  messagesSent : Nat := 0
  /-- Credits returned to others. -/
  creditsSent : Nat := 0
  /-- Credits received back. -/
  creditsReceived : Nat := 0
deriving DecidableEq, Repr, Inhabited

namespace Counters

/-- Counts one request parked under `reason`. -/
def countStall (c : Counters) : StallReason → Counters
  | .noRegister => { c with registerStalls := c.registerStalls + 1 }
  | .linePending => { c with pendingStalls := c.pendingStalls + 1 }
  | .victimBusy => { c with victimStalls := c.victimStalls + 1 }
  | .lineEvicting => { c with evictingStalls := c.evictingStalls + 1 }

/-- Counts one cycle with its occupancies. -/
def sample (c : Counters) (lines transactions : Nat) : Counters :=
  { c with
    cycles := c.cycles + 1
    tableOccupancy := c.tableOccupancy + lines
    mshrOccupancy := c.mshrOccupancy + transactions
    tableEmptyCycles := if lines = 0 then c.tableEmptyCycles + 1 else c.tableEmptyCycles
    mshrEmptyCycles := if transactions = 0 then c.mshrEmptyCycles + 1 else c.mshrEmptyCycles }

/-- Requests parked under any reason. -/
def totalStalls (c : Counters) : Nat :=
  c.registerStalls + c.pendingStalls + c.victimStalls + c.evictingStalls

/-- Hits over hits and misses. -/
def hitRate (c : Counters) : Float := Decimal.ratio c.hits (c.hits + c.misses)

/-- Resident lines per cycle. -/
def averageTableOccupancy (c : Counters) : Float := Decimal.ratio c.tableOccupancy c.cycles

/-- Outstanding transactions per cycle. -/
def averageMshrOccupancy (c : Counters) : Float := Decimal.ratio c.mshrOccupancy c.cycles

/-- Every counter under its reported name, in reporting order. -/
def fields (c : Counters) : List (String × Nat) := [
  ("cycles", c.cycles),
  ("processor_reads", c.processorReads),
  ("processor_writes", c.processorWrites),
  ("hits", c.hits),
  ("misses", c.misses),
  ("mshr_stalls", c.registerStalls),
  ("prev_pend_stalls", c.pendingStalls),
  ("lru_busy_stalls", c.victimStalls),
  ("trans_stalls", c.evictingStalls),
  ("stall_buffer_max", c.deepestParking),
  ("table_occupancy", c.tableOccupancy),
  ("table_empty_cycles", c.tableEmptyCycles),
  ("mshr_occupancy", c.mshrOccupancy),
  ("mshr_empty_cycles", c.mshrEmptyCycles),
  ("evictions", c.evictions),
  ("writebacks", c.writebacks),
  ("stale_ignored", c.staleIgnored),
  ("dropped_invalidations", c.staleDropped),
  ("messages_sent", c.messagesSent),
  ("credits_sent", c.creditsSent),
  ("credits_received", c.creditsReceived)]

end Counters

/-! ## Text reports -/

namespace Banner

/-- The line above a title. -/
def top : String := String.ofList (List.replicate 58 '=')

/-- The line below a title. -/
def bottom : String := String.ofList (List.replicate 58 '-')

/-- The three lines that open a section. -/
def lines (title : String) : List String := [top, title, bottom]

/-- A labelled value, the label filled up to the column where values start. -/
def row (label value : String) : String :=
  "  " ++ label ++ String.ofList (List.replicate (23 - label.length) ' ') ++ value

/-- Lines of text, each ended by a line feed. -/
def text (lines : List String) : String := String.join (lines.map (· ++ "\n"))

end Banner

/-- The lines of a node's report under `title`. -/
def Counters.reportLines (c : Counters) (title : String) : List String :=
  Banner.lines title ++ [
    Banner.row "cycles" (toString c.cycles),
    Banner.row "proc.reads" (toString c.processorReads),
    Banner.row "proc.writes" (toString c.processorWrites),
    Banner.row "hits" (toString c.hits),
    Banner.row "misses" (toString c.misses),
    Banner.row "hit_rate" (Decimal.fixed 4 c.hitRate),
    "STALLS",
    Banner.row "mshr" (toString c.registerStalls),
    Banner.row "prev_pend" (toString c.pendingStalls),
    Banner.row "lru_busy" (toString c.victimStalls),
    Banner.row "trans" (toString c.evictingStalls),
    Banner.row "buffer.max" (toString c.deepestParking),
    "OCCUPANCY",
    Banner.row "table.avg" (Decimal.fixed 2 c.averageTableOccupancy),
    Banner.row "table.empty_cycles" (toString c.tableEmptyCycles),
    Banner.row "mshr.avg" (Decimal.fixed 2 c.averageMshrOccupancy),
    Banner.row "mshr.empty_cycles" (toString c.mshrEmptyCycles),
    "TRAFFIC",
    Banner.row "messages" (toString c.messagesSent),
    Banner.row "credits.sent" (toString c.creditsSent),
    Banner.row "credits.received" (toString c.creditsReceived),
    Banner.row "evictions" (toString c.evictions),
    Banner.row "writebacks" (toString c.writebacks),
    Banner.row "stale.ignored" (toString c.staleIgnored),
    Banner.row "stale.dropped" (toString c.staleDropped)]

end CacheCoherence
