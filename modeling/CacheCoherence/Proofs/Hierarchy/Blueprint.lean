import CacheCoherence.Proofs.Hierarchy.Picture
import Mathlib.Algebra.BigOperators.Group.List.Basic
import Mathlib.Data.List.Permutation

/-!
# Blueprint — the plan of a configuration

A configuration fixes what its nodes have in common. A hierarchy that has just been built
from it is pictured by a scene in which nobody holds anything.
-/

namespace CacheCoherence

/-! ## Node ids -/

/-- How many nodes a configuration asks for. -/
def Config.nodes (c : Config) : Nat :=
  c.topology.cores.toNat + c.topology.l2Nodes.toNat + c.topology.memoryControllers.toNat

/-- What the node `n` is in a hierarchy of this topology. -/
def Topology.role (t : Topology) (n : NodeId) : Option Role :=
  if n.index.toNat < t.cores.toNat then some .client
  else if n.index.toNat < t.cores.toNat + t.l2Nodes.toNat then some .bank
  else if n.index.toNat < t.cores.toNat + t.l2Nodes.toNat + t.memoryControllers.toNat then
    some .memory
  else none

/-- Only the nodes that there are have a role. -/
theorem Topology.lt_of_role {c : Config} {n : NodeId} (h : c.topology.role n ≠ none) :
    n.index.toNat < c.nodes := by
  unfold role at h
  unfold Config.nodes
  split at h
  · omega
  · split at h
    · omega
    · split at h
      · omega
      · exact absurd rfl h

namespace NodeId

variable {first count : Nat} {n : NodeId}

theorem length_row (first count : Nat) : (row first count).length = count := by
  simp [row]

theorem row_append (first a b : Nat) : row first a ++ row (first + a) b = row first (a + b) := by
  rw [row, row, row, ← List.map_append, List.range'_append_1]

/-- As long as indices do not wrap, a row has the indices that it is made of. -/
theorem index_row (h : first + count ≤ 2 ^ 32) :
    (row first count).map (·.index.toNat) = List.range' first count := by
  rw [row, List.map_map]
  refine (List.map_congr_left fun i hi => ?_).trans (List.map_id _)
  have := (List.mem_range'_1.1 hi).2
  exact UInt32.toNat_ofNat_of_lt' (by show i < 2 ^ 32; omega)

theorem mem_row (h : first + count ≤ 2 ^ 32) (hn : n ∈ row first count) :
    first ≤ n.index.toNat ∧ n.index.toNat < first + count := by
  have hmem : n.index.toNat ∈ (row first count).map (·.index.toNat) := List.mem_map_of_mem hn
  rw [index_row h] at hmem
  exact List.mem_range'_1.1 hmem

end NodeId

section Roles

variable {c : Config} {n : NodeId} (hn : c.nodes ≤ 2 ^ 32)

include hn

theorem Config.role_client (h : n ∈ NodeId.row 0 c.topology.cores.toNat) :
    c.topology.role n = some .client := by
  unfold nodes at hn
  have := NodeId.mem_row (by omega) h
  rw [Topology.role, if_pos (by omega)]

theorem Config.role_bank (h : n ∈ NodeId.row c.topology.cores.toNat c.topology.l2Nodes.toNat) :
    c.topology.role n = some .bank := by
  unfold nodes at hn
  have := NodeId.mem_row (by omega) h
  rw [Topology.role, if_neg (by omega), if_pos (by omega)]

theorem Config.role_memory
    (h : n ∈ NodeId.row (c.topology.cores.toNat + c.topology.l2Nodes.toNat)
      c.topology.memoryControllers.toNat) :
    c.topology.role n = some .memory := by
  unfold nodes at hn
  have := NodeId.mem_row (by omega) h
  rw [Topology.role, if_neg (by omega), if_neg (by omega), if_pos (by omega)]

end Roles

theorem PageMap.lookup_mem (m : PageMap) (a : Addr) : m.lookup a ∈ m.nodes.toList :=
  Array.mem_toList_iff.2 (Array.getElem_mem _)

/-- The plan of a configuration, where the line addresses and the maps of pages to nodes are
given. -/
def Config.plan (c : Config) (layout : AddressLayout) (managers memories : PageMap)
    (hb : ∀ n ∈ managers.nodes.toList, c.topology.role n = some .bank)
    (hm : ∀ n ∈ memories.nodes.toList, c.topology.role n = some .memory) : Plan where
  tags := c.tags
  lineOf := layout.lineAddr
  home := managers.lookup
  store := memories.lookup
  role := c.topology.role
  quota n := if c.topology.role n = some .client then c.l1.downstreamCredits.toNat
    else c.l2.downstreamCredits.toNat
  lineOf_lineOf := layout.lineAddr_lineAddr
  role_home X := hb _ (managers.lookup_mem X)
  role_store X := hm _ (memories.lookup_mem X)

/-! ## New nodes -/

/-- What is seen of a node that holds nothing. -/
def NodeView.idle (P : Plan) (n : NodeId) : NodeView := { credits := P.quota n }

/-- The node plays its part and holds nothing; it has nothing queued and nothing posted. -/
structure Station.Idle {σ ε : Type} (S : Station σ ε) (P : Plan) (n : σ) : Prop where
  plays : S.Plays P n (.idle P (S.id n))
  inbound : S.inbound n = []
  posted : (S.outlet n).toList = []

/-- Lines have the same addresses in tables with lines of the same size. -/
theorem AddressLayout.lineAddr_congr {l l' : AddressLayout} (h : l.offsetBits = l'.offsetBits)
    (a : Addr) : l.lineAddr a = l'.lineAddr a := by
  rw [lineAddr, lineAddr, lineBytes, lineBytes, h]

variable {P : Plan} {id : NodeId} {config : NodeConfig} {managers : PageMap}
  {layout : AddressLayout}

/-- What a cache that is built is made of. -/
theorem PrivateCache.of_create? {c : PrivateCache} {tags : MessageTags} {route : Route}
    (hc : create? id config tags route = .ok c) : config.validate = .ok () ∧
      ∃ table, LineTable.leastRecent? config.cache = .ok table ∧ c = {
        id, tags, managers := route, table
        mshr := .ofCapacity config.mshrEntries.toNat
        outlet := .create id config.cache.lookupTime.toNat config.downstreamCredits.toNat
        responses := { latency := config.cache.hitTime.toNat } } := by
  obtain ⟨_, hvalid, hc⟩ := bind_eq_ok.1 hc
  obtain ⟨_, -, hc⟩ := bind_eq_ok.1 hc
  obtain ⟨table, htable, hc⟩ := bind_eq_ok.1 hc
  cases hc
  exact ⟨hvalid, table, mapError_eq_ok htable, rfl⟩

theorem PrivateCache.id_create? {c : PrivateCache} {tags : MessageTags} {route : Route}
    (hc : create? id config tags route = .ok c) : c.id = id := by
  obtain ⟨-, table, -, rfl⟩ := of_create? hc
  rfl

/-- What a bank that is built is made of. -/
theorem SharedBank.of_create? {c : SharedBank} {tags : MessageTags} {route : Route}
    (hc : create? id config tags route = .ok c) : config.validate = .ok () ∧
      ∃ table, LineTable.leastRecent? config.cache = .ok table ∧ c = {
        id, tags, memories := route, table
        mshr := .ofCapacity config.mshrEntries.toNat
        outlet := .create id config.cache.lookupTime.toNat config.downstreamCredits.toNat } := by
  obtain ⟨_, hvalid, hc⟩ := bind_eq_ok.1 hc
  obtain ⟨_, -, hc⟩ := bind_eq_ok.1 hc
  obtain ⟨table, htable, hc⟩ := bind_eq_ok.1 hc
  cases hc
  exact ⟨hvalid, table, mapError_eq_ok htable, rfl⟩

theorem SharedBank.id_create? {c : SharedBank} {tags : MessageTags} {route : Route}
    (hc : create? id config tags route = .ok c) : c.id = id := by
  obtain ⟨-, table, -, rfl⟩ := of_create? hc
  rfl

theorem ensure_eq_ok {ε : Type} {p : Prop} [Decidable p] {e : ε} {u : Unit}
    (h : ensure p e = .ok u) : p := by
  unfold ensure at h
  split at h
  · assumption
  · cases h

/-- A node that is built has registers. -/
theorem NodeConfig.registers_of_validate {c : NodeConfig} {u : Unit} (h : c.validate = .ok u) :
    0 < c.mshrEntries.toNat := by
  obtain ⟨_, -, h⟩ := bind_eq_ok.1 h
  obtain ⟨_, h, -⟩ := bind_eq_ok.1 h
  have hne := ensure_eq_ok h
  exact Nat.pos_of_ne_zero fun h0 => hne (UInt64.toNat_inj.1 h0)

/-- In a new cache no line has a place. -/
theorem PrivateCache.rests_create? {W : Wiring} {c : PrivateCache} {tags : MessageTags}
    {route : Route} (hc : create? id config tags route = .ok c) :
    Rests W none c (fun _ => .absent) := by
  obtain ⟨hvalid, table, htable, rfl⟩ := of_create? hc
  obtain ⟨hshaped, hfree, -⟩ := LineTable.leastRecent?_shaped htable
  obtain ⟨hregs, hregfree⟩ := Mshr.ofCapacity_shaped (τ := ClientTransaction)
    (NodeConfig.registers_of_validate hvalid)
  have hledger := Ledger.empty (D := discipline) hshaped hregs hfree hregfree
  exact ⟨⟨⟨hledger, nofun⟩, .empty ..⟩, fun _ => trivial⟩

/-- A new cache holds nothing. -/
theorem PrivateCache.idle_create {c : PrivateCache}
    (hc : create? id config P.tags (.paged managers) = .ok c) (hrole : P.role id = some .client)
    (hquota : P.quota id = config.downstreamCredits.toNat) (hhome : managers.lookup = P.home)
    (hline : layout.lineAddr = P.lineOf)
    (hoffset : layout.offsetBits = config.cache.lineBytes.toNat.log2) :
    (station P).Idle P c := by
  have hrests : Rests P none c fun _ => .absent := rests_create? hc
  obtain ⟨-, table, htable, rfl⟩ := of_create? hc
  obtain ⟨-, -, hoff⟩ := LineTable.leastRecent?_shaped htable
  refine {
    plays := {
      shows := ⟨⟨rfl, fun X => congrFun hhome X, fun a => ?_⟩, fun _ => .absent, hrests, rfl⟩
      role := hrole
      credits := hquota
      quota := hquota.symm
      owner := rfl
      senders := fun _ hp => absurd hp List.not_mem_nil }
    inbound := rfl
    posted := rfl }
  rw [← hline]
  exact AddressLayout.lineAddr_congr (hoff.trans hoffset.symm) a

/-- In a new bank no line has a place. -/
theorem SharedBank.rests_create? {W : Wiring} {c : SharedBank} {tags : MessageTags}
    {route : Route} (hc : create? id config tags route = .ok c) :
    Rests W none c (fun _ => .absent) := by
  obtain ⟨hvalid, table, htable, rfl⟩ := of_create? hc
  obtain ⟨hshaped, hfree, -⟩ := LineTable.leastRecent?_shaped htable
  obtain ⟨hregs, hregfree⟩ := Mshr.ofCapacity_shaped (τ := ManagerTransaction)
    (NodeConfig.registers_of_validate hvalid)
  have hledger := Ledger.empty (D := discipline) hshaped hregs hfree hregfree
  exact ⟨⟨⟨hledger, fun _ => trivial⟩, .empty ..⟩, fun _ => trivial⟩

/-- A new bank holds nothing. -/
theorem SharedBank.idle_create {c : SharedBank}
    (hc : create? id config P.tags (.paged managers) = .ok c) (hrole : P.role id = some .bank)
    (hquota : P.quota id = config.downstreamCredits.toNat) (hstore : managers.lookup = P.store)
    (hline : layout.lineAddr = P.lineOf)
    (hoffset : layout.offsetBits = config.cache.lineBytes.toNat.log2) :
    (station P).Idle P c := by
  have hrests : Rests P none c fun _ => .absent := rests_create? hc
  obtain ⟨-, table, htable, rfl⟩ := of_create? hc
  obtain ⟨-, -, hoff⟩ := LineTable.leastRecent?_shaped htable
  refine {
    plays := {
      shows := ⟨⟨rfl, fun X => congrFun hstore X, fun a => ?_⟩, fun _ => .absent, hrests, rfl, rfl⟩
      role := hrole
      credits := hquota
      quota := hquota.symm
      owner := rfl
      senders := fun _ hp => absurd hp List.not_mem_nil }
    inbound := rfl
    posted := rfl }
  rw [← hline]
  exact AddressLayout.lineAddr_congr (hoff.trans hoffset.symm) a

/-- A new memory node has nothing to do. -/
theorem MemoryNode.idle_create {timing : MemoryTiming} {credits : Nat}
    (hrole : P.role id = some .memory) (hquota : P.quota id = credits) :
    (station P).Idle P (create id timing P.tags credits) where
  plays := {
    shows := rfl
    role := hrole
    credits := hquota
    quota := hquota.symm
    owner := rfl
    senders := fun _ hp => absurd hp List.not_mem_nil }
  inbound := rfl
  posted := rfl

/-- A processor is idle with its cache. -/
theorem Processor.idle_of_cache {cache : PrivateCache} (h : (PrivateCache.station P).Idle P cache) :
    (station P).Idle P { cache } where
  plays := ⟨h.plays.shows, h.plays.role, h.plays.credits, h.plays.quota, h.plays.owner,
    h.plays.senders⟩
  inbound := h.inbound
  posted := h.posted

/-! ## New hierarchies -/

/-- What is made of the members of a list stands in their order. -/
theorem map_of_mapM {α β ε : Type} {create : α → Except ε β} (source : β → α)
    (hsource : ∀ a b, create a = .ok b → source b = a) {as : List α} {bs : List β}
    (h : as.mapM create = .ok bs) :
    bs.map source = as ∧ ∀ b ∈ bs, create (source b) = .ok b := by
  induction as generalizing bs with
  | nil =>
    cases h
    exact ⟨rfl, nofun⟩
  | cons a as ih =>
    rw [List.mapM_cons] at h
    obtain ⟨b, hb, h⟩ := bind_eq_ok.1 h
    obtain ⟨bs', hbs, h⟩ := bind_eq_ok.1 h
    cases h
    -- the first thing made tells what it was made of, the others by induction
    have hab := hsource a b hb
    obtain ⟨hmap, hall⟩ := ih hbs
    refine ⟨by rw [List.map_cons, hab, hmap], fun b' hb' => ?_⟩
    rcases List.mem_cons.1 hb' with rfl | hb'
    · rw [hab, hb]
    · exact hall b' hb'

/-- A hierarchy that is built has new nodes, and nothing has happened in it. -/
theorem Hierarchy.of_create? {c : Config} {h : Hierarchy} (hc : create? c = .ok h) :
    (∀ p ∈ h.processors, ∃ cache managers,
        PrivateCache.create? cache.id c.l1 c.tags managers = .ok cache ∧ p = { cache }) ∧
      (∀ b ∈ h.banks, ∃ memories, SharedBank.create? b.id c.l2 c.tags memories = .ok b) ∧
      h.net = .ofLatency c.topology.linkLatency.toNat ∧ h.cycle = 0 := by
  obtain ⟨_, -, hc⟩ := bind_eq_ok.1 hc
  obtain ⟨managers, -, hc⟩ := bind_eq_ok.1 hc
  obtain ⟨memories, -, hc⟩ := bind_eq_ok.1 hc
  obtain ⟨caches, hcaches, hc⟩ := bind_eq_ok.1 hc
  obtain ⟨banks, hbanks, hc⟩ := bind_eq_ok.1 hc
  cases hc
  obtain ⟨-, hcaches⟩ := map_of_mapM PrivateCache.id (fun _ _ => PrivateCache.id_create?) hcaches
  obtain ⟨-, hbanks⟩ := map_of_mapM SharedBank.id (fun _ _ => SharedBank.id_create?) hbanks
  refine ⟨fun p hp => ?_, fun b hb => ⟨_, hbanks b hb⟩, rfl, rfl⟩
  obtain ⟨cache, hcache, rfl⟩ := List.mem_map.1 hp
  exact ⟨cache, _, hcaches cache hcache, rfl⟩

/-- What can be made of any member of a list can be made of all of them. -/
theorem exists_mapM {α β ε : Type} {create : α → Except ε β} (h : ∀ a, ∃ b, create a = .ok b)
    (as : List α) : ∃ bs, as.mapM create = .ok bs := by
  induction as with
  | nil => exact ⟨[], rfl⟩
  | cons a as ih =>
    obtain ⟨b, hb⟩ := h a
    obtain ⟨bs, hbs⟩ := ih
    rw [List.mapM_cons, hb, hbs]
    exact ⟨b :: bs, rfl⟩

/-- Nobody holds anything, and nothing is on its way. -/
def Scene.idle (P : Plan) : Scene := { node := .idle P, outgoing := 0, transit := 0 }

theorem Scene.sound_idle (P : Plan) : (Scene.idle P).Sound P where
  agree X := .initial (fun _ => rfl) rfl fun n => by
    show P.count X (0 + (0 + P.letters _ (0 + 0))) n = 0
    simp [Plan.letters]
  orderly b := ⟨fun m hm => absurd hm (Multiset.notMem_zero m), fun X l hl => nomatch hl⟩
  fits p hp := absurd hp (Multiset.notMem_zero p)
  fetches X := by
    show Packet.tally _ 0 + Packet.tally _ 0 = 0
    rw [Packet.tally_zero]
  credit n := by
    show P.quota n + Packet.tally _ 0 = _
    rw [Packet.tally_zero, Nat.add_zero]

/-- Idle nodes stand in the idle scene, and nothing is queued or posted at them. -/
theorem Station.attends_idle {σ ε : Type} {S : Station σ ε} {P : Plan} {ns : List σ}
    (h : ∀ n ∈ ns, S.Idle P n) :
    S.Attends P (Scene.idle P) ns ∧ S.outs ns = 0 ∧ S.queues ns = 0 := by
  refine ⟨⟨fun n hn => (h n hn).plays, fun n hn e he => ?_⟩,
    S.outs_eq_zero fun n hn => (h n hn).posted, S.queues_eq_zero fun n hn => (h n hn).inbound⟩
  rw [(h n hn).inbound] at he
  cases he

/-- Both levels of a valid configuration have lines of the same size. -/
theorem Config.lineBytes_eq {c : Config} {u : Unit} (h : c.validate = .ok u) :
    c.l1.cache.lineBytes = c.l2.cache.lineBytes := by
  obtain ⟨_, -, h⟩ := bind_eq_ok.1 h
  obtain ⟨_, -, h⟩ := bind_eq_ok.1 h
  obtain ⟨_, -, h⟩ := bind_eq_ok.1 h
  obtain ⟨_, -, h⟩ := bind_eq_ok.1 h
  exact ensure_eq_ok h

theorem PageMap.nodes_ofNodes? {nodes : Array NodeId} {pageBits : Nat} {m : PageMap}
    (h : ofNodes? nodes pageBits = .ok m) : m.nodes = nodes := by
  unfold ofNodes? at h
  split at h
  · split at h <;> cases h
    rfl
  · cases h

/-- The layout of lines of a given size. -/
def AddressLayout.ofLineBytes (bytes : UInt64) : AddressLayout where
  offsetBits := bytes.toNat.log2
  indexBits := 0
  offsetBits_lt := by
    by_cases h : bytes.toNat = 0
    · simp [h]
    · exact (Nat.log2_lt h).2 bytes.toNat_lt
  indexBits_lt := by decide

section Built

variable {c : Config} {layout : AddressLayout} {managers memories : PageMap}
  {hb : ∀ n ∈ managers.nodes.toList, c.topology.role n = some .bank}
  {hm : ∀ n ∈ memories.nodes.toList, c.topology.role n = some .memory}

/-- A node that is no client may send as much as a bank. -/
theorem Config.quota_plan {n : NodeId} {r : Role} (hr : c.topology.role n = some r)
    (hne : r ≠ .client) :
    (c.plan layout managers memories hb hm).quota n = c.l2.downstreamCredits.toNat := by
  show (if c.topology.role n = some .client then _ else _) = _
  rw [if_neg (by rw [hr]; simpa using hne)]

/-- The private caches that are built are idle. -/
theorem Config.idle_caches (hn : c.nodes ≤ 2 ^ 32)
    (hl : layout.offsetBits = c.l1.cache.lineBytes.toNat.log2) {caches : List PrivateCache}
    (h : (NodeId.row 0 c.topology.cores.toNat).mapM (fun id =>
      PrivateCache.create? id c.l1 c.tags (.paged managers)) = .ok caches) :
    caches.map PrivateCache.id = NodeId.row 0 c.topology.cores.toNat ∧ ∀ cache ∈ caches,
      (PrivateCache.station (c.plan layout managers memories hb hm)).Idle
        (c.plan layout managers memories hb hm) cache := by
  obtain ⟨hids, hall⟩ := map_of_mapM PrivateCache.id (fun _ _ => PrivateCache.id_create?) h
  refine ⟨hids, fun cache hmem => ?_⟩
  have hrole : c.topology.role cache.id = some .client :=
    c.role_client hn (hids ▸ List.mem_map_of_mem hmem)
  exact PrivateCache.idle_create (P := c.plan layout managers memories hb hm) (hall cache hmem)
    hrole (if_pos hrole) rfl rfl hl

/-- The banks that are built are idle. -/
theorem Config.idle_banks (hn : c.nodes ≤ 2 ^ 32)
    (hl : layout.offsetBits = c.l2.cache.lineBytes.toNat.log2) {banks : List SharedBank}
    (h : (NodeId.row c.topology.cores.toNat c.topology.l2Nodes.toNat).mapM (fun id =>
      SharedBank.create? id c.l2 c.tags (.paged memories)) = .ok banks) :
    banks.map SharedBank.id = NodeId.row c.topology.cores.toNat c.topology.l2Nodes.toNat ∧
      ∀ bank ∈ banks, (SharedBank.station (c.plan layout managers memories hb hm)).Idle
        (c.plan layout managers memories hb hm) bank := by
  obtain ⟨hids, hall⟩ := map_of_mapM SharedBank.id (fun _ _ => SharedBank.id_create?) h
  refine ⟨hids, fun bank hmem => ?_⟩
  have hrole : c.topology.role bank.id = some .bank :=
    c.role_bank hn (hids ▸ List.mem_map_of_mem hmem)
  exact SharedBank.idle_create (P := c.plan layout managers memories hb hm) (hall bank hmem)
    hrole (c.quota_plan hrole nofun) rfl rfl hl

/-- A hierarchy of idle nodes is pictured by the idle scene, if they are numbered as planned. -/
theorem Hierarchy.depicts_idle {h : Hierarchy} {P : Plan}
    (hprocessors : ∀ q ∈ h.processors, (Processor.station P).Idle P q)
    (hbanks : ∀ b ∈ h.banks, (SharedBank.station P).Idle P b)
    (hmemories : ∀ m ∈ h.memories, (MemoryNode.station P).Idle P m)
    (hids : h.ids = NodeId.row 0 c.nodes) (hn : c.nodes ≤ 2 ^ 32) (hrole : P.role = c.topology.role)
    (hnet : h.inFlight = 0) : h.Depicts P (Scene.idle P) 0 := by
  obtain ⟨hprocessors, hpOuts, hpQueues⟩ := Station.attends_idle hprocessors
  obtain ⟨hbanks, hbOuts, hbQueues⟩ := Station.attends_idle hbanks
  obtain ⟨hmemories, hmOuts, hmQueues⟩ := Station.attends_idle hmemories
  refine {
    processors := hprocessors
    banks := hbanks
    memories := hmemories
    dense := ?_
    known := fun n hr => ?_
    outgoing := ?_
    transit := ?_ }
  · rw [hids, NodeId.index_row (by omega), NodeId.length_row, List.range_eq_range']
  · rw [hids, NodeId.length_row]
    rw [hrole] at hr
    exact Topology.lt_of_role hr
  · rw [posted, hpOuts, hbOuts, hmOuts]
    rfl
  · rw [queued, hpQueues, hbQueues, hmQueues, hnet]
    rfl

end Built

/-- A hierarchy that has just been built is pictured by the idle scene of a plan. -/
theorem Hierarchy.create?_depicts {c : Config} {h : Hierarchy} (hc : create? c = .ok h)
    (hn : c.nodes ≤ 2 ^ 32) : ∃ P, h.Depicts P (Scene.idle P) 0 := by
  obtain ⟨_, hvalid, hc⟩ := bind_eq_ok.1 hc
  obtain ⟨managers, hmanagers, hc⟩ := bind_eq_ok.1 hc
  obtain ⟨memories, hmemories, hc⟩ := bind_eq_ok.1 hc
  obtain ⟨caches, hcaches, hc⟩ := bind_eq_ok.1 hc
  obtain ⟨banks, hbanks, hc⟩ := bind_eq_ok.1 hc
  cases hc
  have hmanagers := PageMap.nodes_ofNodes? (mapError_eq_ok hmanagers)
  have hmemories := PageMap.nodes_ofNodes? (mapError_eq_ok hmemories)
  let layout := AddressLayout.ofLineBytes c.l1.cache.lineBytes
  -- the plan has one layout, which serves both levels since their lines have one size
  have hoffset : layout.offsetBits = c.l2.cache.lineBytes.toNat.log2 := by
    rw [← Config.lineBytes_eq hvalid]
    rfl
  let P := c.plan layout managers memories
    (fun n hmem => c.role_bank hn (by rwa [hmanagers] at hmem))
    (fun n hmem => c.role_memory hn (by rwa [hmemories] at hmem))
  obtain ⟨hcacheIds, hcaches⟩ : _ ∧ ∀ cache ∈ caches, (PrivateCache.station P).Idle P cache :=
    Config.idle_caches hn rfl hcaches
  obtain ⟨hbankIds, hbanks⟩ : _ ∧ ∀ bank ∈ banks, (SharedBank.station P).Idle P bank :=
    Config.idle_banks hn hoffset hbanks
  refine ⟨P, depicts_idle (c := c) ?_ hbanks ?_ ?_ hn rfl rfl⟩
  · intro q hq
    obtain ⟨cache, hcache, rfl⟩ := List.mem_map.1 hq
    exact Processor.idle_of_cache (hcaches cache hcache)
  · intro m hmem
    obtain ⟨id, hid, rfl⟩ := List.mem_map.1 hmem
    have hrole : P.role id = some .memory := c.role_memory hn hid
    exact MemoryNode.idle_create hrole (c.quota_plan hrole nofun)
  · -- nodes are numbered through: caches, then banks, then memories
    show (caches.map fun cache => ({ cache } : Processor)).map (·.cache.id)
      ++ banks.map SharedBank.id
      ++ ((NodeId.row _ _).map fun id => MemoryNode.create id _ c.tags _).map (·.id) = _
    rw [List.map_map, List.map_map, hbankIds]
    show caches.map PrivateCache.id ++ _ ++ (NodeId.row _ _).map (fun id => id) = _
    rw [hcacheIds, List.map_id', Config.nodes, ← NodeId.row_append, ← NodeId.row_append,
      Nat.zero_add, Nat.zero_add]

/-! ## Valid configurations -/

section Buildable

variable {c : Config} {config : NodeConfig} {tags : MessageTags}

/-- A configuration that is valid is valid in every section. -/
theorem Config.sections_of_validate (h : c.validate = .ok ()) : c.l1.validate = .ok () ∧
    c.l2.validate = .ok () ∧ c.tags.validate = .ok () ∧ c.topology.validate = .ok () := by
  obtain ⟨_, hl1, h⟩ := bind_eq_ok.1 h
  obtain ⟨_, hl2, h⟩ := bind_eq_ok.1 h
  obtain ⟨_, htags, h⟩ := bind_eq_ok.1 h
  obtain ⟨_, htopology, -⟩ := bind_eq_ok.1 h
  exact ⟨hl1, hl2, htags, htopology⟩

theorem NodeConfig.cache_of_validate (h : config.validate = .ok ()) :
    config.cache.validate = .ok () := by
  obtain ⟨_, h, -⟩ := bind_eq_ok.1 h
  exact mapError_eq_ok h

theorem PrivateCache.exists_create? (hc : config.validate = .ok ()) (ht : tags.validate = .ok ())
    (id : NodeId) (route : Route) : ∃ c, create? id config tags route = .ok c := by
  obtain ⟨table, htable⟩ := LineTable.exists_leastRecent? (NodeConfig.cache_of_validate hc)
  rw [create?, hc, ht, htable]
  exact ⟨_, rfl⟩

theorem SharedBank.exists_create? (hc : config.validate = .ok ()) (ht : tags.validate = .ok ())
    (id : NodeId) (route : Route) : ∃ c, create? id config tags route = .ok c := by
  obtain ⟨table, htable⟩ := LineTable.exists_leastRecent? (NodeConfig.cache_of_validate hc)
  rw [create?, hc, ht, htable]
  exact ⟨_, rfl⟩

/-- Pages can be dealt out over a row of nodes that is not empty. -/
theorem PageMap.exists_ofNodes? (first : Nat) {count : UInt64} {pageBits : Nat}
    (hcount : count ≠ 0) (hbits : pageBits < 64) :
    ∃ m, ofNodes? (NodeId.row first count.toNat).toArray pageBits = .ok m := by
  have hpos : 0 < (NodeId.row first count.toNat).toArray.size := by
    rw [List.size_toArray, NodeId.length_row]
    exact Nat.pos_of_ne_zero fun h0 => hcount (UInt64.toNat_inj.1 h0)
  rw [ofNodes?, dif_pos hpos, if_pos hbits]
  exact ⟨_, rfl⟩

/-- A hierarchy can be built from a valid configuration. -/
theorem Hierarchy.exists_create? (hv : c.validate = .ok ()) : ∃ h, create? c = .ok h := by
  obtain ⟨hl1, hl2, htags, htopology⟩ := Config.sections_of_validate hv
  obtain ⟨_, hnodes, hbits⟩ := bind_eq_ok.1 htopology
  obtain ⟨-, hl2Nodes, hcontrollers⟩ := ensure_eq_ok hnodes
  have hbits := ensure_eq_ok hbits
  obtain ⟨managers, hmanagers⟩ := PageMap.exists_ofNodes? c.topology.cores.toNat hl2Nodes hbits
  obtain ⟨memories, hmemories⟩ := PageMap.exists_ofNodes?
    (c.topology.cores.toNat + c.topology.l2Nodes.toNat) hcontrollers hbits
  obtain ⟨caches, hcaches⟩ := exists_mapM
    (fun id => PrivateCache.exists_create? hl1 htags id (.paged managers))
    (NodeId.row 0 c.topology.cores.toNat)
  obtain ⟨banks, hbanks⟩ := exists_mapM
    (fun id => SharedBank.exists_create? hl2 htags id (.paged memories))
    (NodeId.row c.topology.cores.toNat c.topology.l2Nodes.toNat)
  simp only [create?, hv, hmanagers, hmemories]
  exact ⟨_, bind_eq_ok.2 ⟨(), rfl, bind_eq_ok.2 ⟨managers, rfl, bind_eq_ok.2 ⟨memories, rfl,
    bind_eq_ok.2 ⟨caches, hcaches, bind_eq_ok.2 ⟨banks, hbanks, rfl⟩⟩⟩⟩⟩⟩

end Buildable

end CacheCoherence
