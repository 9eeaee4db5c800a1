import CacheCoherence.Config
import CacheCoherence.Json.Reader

/-!
# Configuration as JSON

A configuration is a record of records. A member that is left out has a default,
which inside `l1`, `l2` and their `cache` is that of a private cache; only a
missing `l2` as a whole gives a bank its longer look-up. Every written
configuration names all of its members.
-/

namespace CacheCoherence

open Json (Record)

/-! ## Writing -/

/-- The name of a memory model in configurations. -/
def MemoryModel.name : MemoryModel → String
  | .simple => "Simple"
  | .dram => "Dram"

def CacheGeometry.toJson (g : CacheGeometry) : Json := .ofMembers [
  ("size_bytes", .ofWord g.sizeBytes),
  ("line_bytes", .ofWord g.lineBytes),
  ("ways", .ofWord g.ways),
  ("hit_time", .ofWord g.hitTime),
  ("lookup_time", .ofWord g.lookupTime)]

def NodeConfig.toJson (c : NodeConfig) : Json := .ofMembers [
  ("cache", c.cache.toJson),
  ("mshr_entries", .ofWord c.mshrEntries),
  ("downstream_credits", .ofHalf c.downstreamCredits)]

def MessageTags.toJson (t : MessageTags) : Json := .ofMembers [
  ("coherence", .ofHalf t.coherence),
  ("memory", .ofHalf t.memory),
  ("credit", .ofHalf t.credit)]

def MemoryConfig.toJson (c : MemoryConfig) : Json := .ofMembers [
  ("controller", .text c.controller.name),
  ("latency", .ofWord c.latency),
  ("t_cas", .ofWord c.tCas),
  ("t_ras", .ofWord c.tRas),
  ("t_pre", .ofWord c.tPre)]

def Topology.toJson (t : Topology) : Json := .ofMembers [
  ("cores", .ofWord t.cores),
  ("l2_nodes", .ofWord t.l2Nodes),
  ("memory_controllers", .ofWord t.memoryControllers),
  ("page_offset_bits", .ofHalf t.pageOffsetBits),
  ("link_latency", .ofWord t.linkLatency)]

def Config.toJson (c : Config) : Json := .ofMembers [
  ("topology", c.topology.toJson),
  ("l1", c.l1.toJson),
  ("l2", c.l2.toJson),
  ("memory", c.memory.toJson),
  ("tags", c.tags.toJson),
  ("max_cycles", .ofWord c.maxCycles)]

/-! ## Reading -/

/-- The memory model with a given name; one of them goes by two. -/
def MemoryModel.ofName? : String → Option MemoryModel
  | "Simple" => some .simple
  | "Dram" | "DRAM" => some .dram
  | _ => none

def CacheGeometry.ofJson? (v : Json) : Option CacheGeometry := do
  let r ← v.record? ["size_bytes", "line_bytes", "ways", "hit_time", "lookup_time"]
  let d : CacheGeometry := {}
  return {
    sizeBytes := ← r.memberOr? "size_bytes" Json.word? d.sizeBytes
    lineBytes := ← r.memberOr? "line_bytes" Json.word? d.lineBytes
    ways := ← r.memberOr? "ways" Json.word? d.ways
    hitTime := ← r.memberOr? "hit_time" Json.word? d.hitTime
    lookupTime := ← r.memberOr? "lookup_time" Json.word? d.lookupTime }

def NodeConfig.ofJson? (v : Json) : Option NodeConfig := do
  let r ← v.record? ["cache", "mshr_entries", "downstream_credits"]
  let d : NodeConfig := {}
  return {
    cache := ← r.memberOr? "cache" CacheGeometry.ofJson? d.cache
    mshrEntries := ← r.memberOr? "mshr_entries" Json.word? d.mshrEntries
    downstreamCredits := ← r.memberOr? "downstream_credits" Json.half? d.downstreamCredits }

def MessageTags.ofJson? (v : Json) : Option MessageTags := do
  let r ← v.record? ["coherence", "memory", "credit"]
  let d : MessageTags := {}
  return {
    coherence := ← r.memberOr? "coherence" Json.half? d.coherence
    memory := ← r.memberOr? "memory" Json.half? d.memory
    credit := ← r.memberOr? "credit" Json.half? d.credit }

def MemoryConfig.ofJson? (v : Json) : Option MemoryConfig := do
  let r ← v.record? ["controller", "latency", "t_cas", "t_ras", "t_pre"]
  let d : MemoryConfig := {}
  return {
    controller := ← r.memberOr? "controller" (Json.name? MemoryModel.ofName?) d.controller
    latency := ← r.memberOr? "latency" Json.word? d.latency
    tCas := ← r.memberOr? "t_cas" Json.word? d.tCas
    tRas := ← r.memberOr? "t_ras" Json.word? d.tRas
    tPre := ← r.memberOr? "t_pre" Json.word? d.tPre }

def Topology.ofJson? (v : Json) : Option Topology := do
  let r ← v.record? ["cores", "l2_nodes", "memory_controllers", "page_offset_bits", "link_latency"]
  let d : Topology := {}
  return {
    cores := ← r.memberOr? "cores" Json.word? d.cores
    l2Nodes := ← r.memberOr? "l2_nodes" Json.word? d.l2Nodes
    memoryControllers := ← r.memberOr? "memory_controllers" Json.word? d.memoryControllers
    pageOffsetBits := ← r.memberOr? "page_offset_bits" Json.half? d.pageOffsetBits
    linkLatency := ← r.memberOr? "link_latency" Json.word? d.linkLatency }

def Config.ofJson? (v : Json) : Option Config := do
  let r ← v.record? ["topology", "l1", "l2", "memory", "tags", "max_cycles"]
  let d : Config := {}
  return {
    topology := ← r.memberOr? "topology" Topology.ofJson? d.topology
    l1 := ← r.memberOr? "l1" NodeConfig.ofJson? d.l1
    l2 := ← r.memberOr? "l2" NodeConfig.ofJson? d.l2
    memory := ← r.memberOr? "memory" MemoryConfig.ofJson? d.memory
    tags := ← r.memberOr? "tags" MessageTags.ofJson? d.tags
    maxCycles := ← r.memberOr? "max_cycles" Json.word? d.maxCycles }

/-- Why a text gives no configuration. -/
inductive ConfigTextError where
  /-- It is no JSON text, or not one of a configuration. -/
  | malformed
  /-- The configuration that it gives is refused. -/
  | refused (e : ConfigError)
deriving DecidableEq, Repr

/-- The text shown for a text that gives no configuration. -/
def ConfigTextError.message : ConfigTextError → String
  | malformed => "malformed configuration"
  | refused e => e.message

/-- The configuration that a text gives, not yet validated. -/
def Config.parse? (text : String) : Option Config := (Json.parse? text).bind Config.ofJson?

/-- The valid configuration that a text gives. -/
def Config.ofText (text : String) : Except ConfigTextError Config :=
  match Config.parse? text with
  | none => .error .malformed
  | some c =>
      match c.validate with
      | .ok () => .ok c
      | .error e => .error (.refused e)

/-! ## Reading what was written -/

@[simp] theorem CacheGeometry.ofJson?_toJson (g : CacheGeometry) : ofJson? g.toJson = some g := by
  rw [ofJson?, toJson, Json.record?_ofMembers]
  · simp [Record.memberOr?_cons_self, Record.memberOr?_cons_ne]
  · rfl
  · decide

@[simp] theorem NodeConfig.ofJson?_toJson (c : NodeConfig) : ofJson? c.toJson = some c := by
  rw [ofJson?, toJson, Json.record?_ofMembers]
  · simp [Record.memberOr?_cons_self, Record.memberOr?_cons_ne]
  · rfl
  · decide

@[simp] theorem MessageTags.ofJson?_toJson (t : MessageTags) : ofJson? t.toJson = some t := by
  rw [ofJson?, toJson, Json.record?_ofMembers]
  · simp [Record.memberOr?_cons_self, Record.memberOr?_cons_ne]
  · rfl
  · decide

@[simp] theorem MemoryModel.name?_name (m : MemoryModel) :
    (Json.text m.name).name? MemoryModel.ofName? = some m := by
  cases m <;> rfl

@[simp] theorem MemoryConfig.ofJson?_toJson (c : MemoryConfig) : ofJson? c.toJson = some c := by
  rw [ofJson?, toJson, Json.record?_ofMembers]
  · simp [Record.memberOr?_cons_self, Record.memberOr?_cons_ne]
  · rfl
  · decide

@[simp] theorem Topology.ofJson?_toJson (t : Topology) : ofJson? t.toJson = some t := by
  rw [ofJson?, toJson, Json.record?_ofMembers]
  · simp [Record.memberOr?_cons_self, Record.memberOr?_cons_ne]
  · rfl
  · decide

@[simp] theorem Config.ofJson?_toJson (c : Config) : ofJson? c.toJson = some c := by
  rw [ofJson?, toJson, Json.record?_ofMembers]
  · simp [Record.memberOr?_cons_self, Record.memberOr?_cons_ne]
  · rfl
  · decide

end CacheCoherence
