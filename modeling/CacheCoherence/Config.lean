import CacheCoherence.Routing
import CacheCoherence.Table.Geometry

/-!
# Configuration — the shape of a hierarchy

A configuration names the topology, the tables and links of both cache levels,
the memory timing, the message tags and a cycle limit. `validate` checks that a
hierarchy can be built from it, section by section, and gives the first thing
that is wrong.
-/

namespace CacheCoherence

/-- What is wrong with a configuration. -/
inductive ConfigError where
  /-- A table cannot be realised. -/
  | geometry (e : GeometryError)
  /-- A node would have no miss register. -/
  | noRegisters
  /-- A node would have no credit. -/
  | noCredits
  /-- Two message types share a tag. -/
  | sharedTags (tags : MessageTags)
  /-- A kind of node is missing altogether. -/
  | emptyTopology
  /-- Pages as large as the address space. -/
  | pageOffset (bits : Nat)
  /-- The two cache levels disagree on the line size. -/
  | lineSizes (l1 l2 : Nat)
  /-- A page map cannot be built. -/
  | pageMap (e : PageMapError)
deriving DecidableEq, Repr

namespace ConfigError

/-- The text shown for a refused configuration. -/
def message : ConfigError → String
  | geometry e => "invalid cache geometry: " ++ e.message
  | noRegisters => "invalid configuration: mshr_entries must be at least 1"
  | noCredits => "invalid configuration: downstream_credits must be at least 1"
  | sharedTags t =>
      "invalid configuration: message tags must be distinct (coherence=" ++ toString t.coherence
        ++ ", memory=" ++ toString t.memory ++ ", credit=" ++ toString t.credit ++ ")"
  | emptyTopology =>
      "invalid configuration: topology needs at least one core, L2 bank and memory controller"
  | pageOffset bits => s!"invalid configuration: page_offset_bits {bits} is out of range"
  | lineSizes l1 l2 =>
      s!"invalid configuration: L1 line size {l1} differs from L2 line size {l2}"
  | pageMap e => "invalid configuration: " ++ e.message

/-- Whether the error is about the shape of a table. -/
def isGeometry : ConfigError → Bool
  | geometry _ => true
  | _ => false

end ConfigError

/-! ## Sections -/

/-- The table, registers and link of a cache node. -/
structure NodeConfig where
  cache : CacheGeometry := {}
  mshrEntries : UInt64 := 8
  downstreamCredits : UInt32 := 30
deriving DecidableEq, Repr, Inhabited

/-- Which timing model the memory controllers follow. -/
inductive MemoryModel where
  /-- Every access takes the same time. -/
  | simple
  /-- One open row, with column, row and precharge times. -/
  | dram
deriving DecidableEq, Repr, Inhabited

/-- The timing of the memory controllers. -/
structure MemoryConfig where
  controller : MemoryModel := .simple
  /-- The latency of the simple model. -/
  latency : UInt64 := 100
  /-- Column access. -/
  tCas : UInt64 := 14
  /-- Row activation. -/
  tRas : UInt64 := 14
  /-- Precharge of the open row. -/
  tPre : UInt64 := 14
deriving DecidableEq, Repr, Inhabited

/-- How many nodes there are and how they are connected. -/
structure Topology where
  /-- Cores, each with a private cache. -/
  cores : UInt64 := 2
  /-- Shared banks. -/
  l2Nodes : UInt64 := 1
  memoryControllers : UInt64 := 1
  /-- The page size, as a power of two, by which lines are dealt out over banks and
  memory controllers. -/
  pageOffsetBits : UInt32 := 12
  linkLatency : UInt64 := 1
deriving DecidableEq, Repr, Inhabited

/-- A complete configuration. -/
structure Config where
  topology : Topology := {}
  /-- Every private cache. -/
  l1 : NodeConfig := {}
  /-- Every shared bank; its table takes longer to look up. -/
  l2 : NodeConfig := { cache := { lookupTime := 11 } }
  memory : MemoryConfig := {}
  tags : MessageTags := {}
  maxCycles : UInt64 := 10000000
deriving DecidableEq, Repr

/-! ## Validation -/

/-- Fails with `e` unless `p` holds. -/
def ensure {ε : Type} (p : Prop) [Decidable p] (e : ε) : Except ε Unit :=
  if p then .ok () else .error e

/-- Checks the table, the registers and the link of a node. -/
def NodeConfig.validate (c : NodeConfig) : Except ConfigError Unit := do
  c.cache.validate.mapError .geometry
  ensure (c.mshrEntries ≠ 0) .noRegisters
  ensure (c.downstreamCredits ≠ 0) .noCredits

/-- Checks that the tags tell the message types apart. -/
def MessageTags.validate (t : MessageTags) : Except ConfigError Unit :=
  ensure t.Distinct (.sharedTags t)

/-- Checks that there is a node of each kind and that pages fit the address space. -/
def Topology.validate (t : Topology) : Except ConfigError Unit := do
  ensure (t.cores ≠ 0 ∧ t.l2Nodes ≠ 0 ∧ t.memoryControllers ≠ 0) .emptyTopology
  ensure (t.pageOffsetBits.toNat < 64) (.pageOffset t.pageOffsetBits.toNat)

/-- Checks every section, and that both levels agree on the line size. -/
def Config.validate (c : Config) : Except ConfigError Unit := do
  c.l1.validate
  c.l2.validate
  c.tags.validate
  c.topology.validate
  ensure (c.l1.cache.lineBytes = c.l2.cache.lineBytes)
    (.lineSizes c.l1.cache.lineBytes.toNat c.l2.cache.lineBytes.toNat)

end CacheCoherence
