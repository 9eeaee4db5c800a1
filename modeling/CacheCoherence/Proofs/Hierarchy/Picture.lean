import CacheCoherence.Hierarchy.Step
import CacheCoherence.Proofs.Memory.Cycle
import CacheCoherence.Proofs.PrivateCache.Cycle
import CacheCoherence.Proofs.SharedBank.Cycle
import Mathlib.Tactic.Abel

/-!
# Picture — a hierarchy as a scene

A scene pictures a hierarchy when every node plays its part in it, what the nodes have posted
is about to leave them, and what is on the interconnect or queued at a node is on its way.
One cycle of the hierarchy that ends without an error leads from a sound scene to a sound
scene.
-/

namespace CacheCoherence

/-! ## Processors -/

namespace Processor

/-- A processor is seen by its cache. -/
def station (P : Plan) : Station Processor ClientInput := (PrivateCache.station P).comap (·.cache)

/-- What is queued at a processor is not seen. -/
theorem alike_receive {P : Plan} (q : Processor) (p : Packet) :
    (station P).Alike q { q with cache := q.cache.receive p } :=
  .comap (PrivateCache.alike_inbound q.cache (q.cache.inbound ++ [.packet p]))

/-- What a core does is not seen, nor what it asks of its cache. -/
theorem nudged_issue {P : Plan} (q : Processor) (now : Nat) :
    (station P).Nudged q (q.issue now) := by
  unfold issue
  split
  · next r core _ =>
    refine ⟨.comap (PrivateCache.alike_inbound q.cache (q.cache.inbound ++ [.request r])),
      [.request r], rfl, fun e he => ?_⟩
    obtain rfl := List.mem_singleton.1 he
    rfl
  · exact .refl q

/-- What a core is to do is not seen. -/
theorem nudged_enqueue {P : Plan} (q : Processor) (accesses : List TraceEntry) :
    (station P).Nudged q (q.enqueue accesses) :=
  ⟨⟨rfl, rfl, fun _ hv => hv⟩, [], (List.append_nil _).symm, nofun⟩

/-- A cycle of a processor is a cycle of its cache. -/
theorem tick_works {P : Plan} {p : Processor} (now : Nat)
    (hd : ∀ e ∈ (station P).inbound p, ∀ q, (station P).packet? e = some q →
      q.dst = (station P).id p) :
    (station P).Works P p ((station P).packets ((station P).inbound p)) (p.tick now) [] :=
  (PrivateCache.tick_works hd).comap rfl rfl rfl

end Processor

/-! ## Rows of nodes -/

namespace Station

variable {σ ε : Type} {S : Station σ ε} {P : Plan} {s s' : Scene} {ns ns' : List σ} {n : σ}
  {i : Nat}

/-- The nodes are seen as they were. -/
theorem Attends.frame (h : S.Attends P s ns) (hs : ∀ n ∈ ns, s'.node (S.id n) = s.node (S.id n)) :
    S.Attends P s' ns where
  plays n hn := by
    rw [hs n hn]
    exact h.plays n hn
  addressed := h.addressed

/-- A list is split at one of its members. -/
theorem modify_split {l : List σ} {a : σ} (h : l[i]? = some a) :
    ∃ l₁ l₂, l = l₁ ++ a :: l₂ ∧ ∀ f, l.modify i f = l₁ ++ f a :: l₂ := by
  obtain ⟨hi, rfl⟩ := List.getElem?_eq_some_iff.1 h
  refine ⟨l.take i, l.drop (i + 1), ?_, fun f => List.modify_eq_take_cons_drop hi⟩
  rw [List.getElem_cons_drop, List.take_append_drop]

/-- Members of a list are changed where they stand. -/
theorem forall₂_mapIdx {R : σ → σ → Prop} {f : Nat → σ → σ} (h : ∀ i a, R a (f i a)) (l : List σ) :
    List.Forall₂ R l (l.mapIdx f) := by
  induction l generalizing f with
  | nil => exact .nil
  | cons a l ih =>
    rw [List.mapIdx_cons]
    exact .cons (h 0 a) (ih fun i b => h (i + 1) b)

/-- A packet is queued at one of the nodes. -/
theorem Attends.receive (h : S.Attends P s ns) {receive : σ → σ} {e : ε} {p : Packet}
    (ha : ∀ n, S.Alike n (receive n)) (hin : ∀ n, S.inbound (receive n) = S.inbound n ++ [e])
    (he : S.packet? e = some p) (hn : ns[i]? = some n) (hd : p.dst = S.id n) :
    S.Attends P s (ns.modify i receive) ∧ (ns.modify i receive).map S.id = ns.map S.id ∧
      S.outs (ns.modify i receive) = S.outs ns ∧
      S.queues (ns.modify i receive) = p ::ₘ S.queues ns := by
  obtain ⟨l₁, l₂, rfl, hmodify⟩ := modify_split hn
  -- all nodes but one are what they were
  have hold : ∀ m ∈ l₁ ++ receive n :: l₂, m ∈ l₁ ++ n :: l₂ ∨ m = receive n := by
    intro m hm
    simp only [List.mem_append, List.mem_cons] at hm ⊢
    tauto
  have hmem : n ∈ l₁ ++ n :: l₂ := List.mem_append_right _ List.mem_cons_self
  have hpackets : S.packets (S.inbound (receive n)) = p ::ₘ S.packets (S.inbound n) := by
    rw [hin, packets, List.filterMap_append, ← Multiset.coe_add, packets]
    simp [he, Multiset.add_comm]
  rw [hmodify]
  refine ⟨⟨fun m hm => ?_, fun m hm e' he' q hq => ?_⟩, ?_, ?_, ?_⟩
  · rcases hold m hm with hm | rfl
    · exact h.plays m hm
    · rw [(ha n).id]
      exact (h.plays n hmem).alike (ha n)
  · rcases hold m hm with hm | rfl
    · exact h.addressed m hm e' he' q hq
    · rw [(ha n).id]
      rw [hin] at he'
      rcases List.mem_append.1 he' with he' | he'
      · exact h.addressed n hmem e' he' q hq
      · obtain rfl := List.mem_singleton.1 he'
        rw [he] at hq
        cases hq
        exact hd
  · simp [(ha n).id]
  · simp [outs, (ha n).out]
  · simp only [queues, List.map_append, List.map_cons, List.sum_append, List.sum_cons, hpackets,
      Multiset.cons_add, Multiset.add_cons]

/-- Events that bring no packet are queued at the nodes. -/
theorem Attends.nudged (h : S.Attends P s ns) (hall : List.Forall₂ S.Nudged ns ns') :
    S.Attends P s ns' ∧ ns'.map S.id = ns.map S.id ∧ S.outs ns' = S.outs ns ∧
      S.queues ns' = S.queues ns := by
  induction hall with
  | nil => exact ⟨h, rfl, rfl, rfl⟩
  | @cons n n' ns ns' hn _ ih =>
    obtain ⟨hall, hids, houts, hqueues⟩ := ih {
      plays := fun m hm => h.plays m (List.mem_cons_of_mem n hm)
      addressed := fun m hm => h.addressed m (List.mem_cons_of_mem n hm) }
    obtain ⟨ha, es, hes, hnone⟩ := hn
    refine ⟨⟨fun m hm => ?_, fun m hm e he q hq => ?_⟩, ?_, ?_, ?_⟩
    · rcases List.mem_cons.1 hm with rfl | hm
      · rw [ha.id]
        exact (h.plays n List.mem_cons_self).alike ha
      · exact hall.plays m hm
    · rcases List.mem_cons.1 hm with rfl | hm
      · rw [ha.id]
        rw [hes] at he
        rcases List.mem_append.1 he with he | he
        · exact h.addressed n List.mem_cons_self e he q hq
        · rw [hnone e he] at hq
          cases hq
      · exact hall.addressed m hm e he q hq
    · rw [List.map_cons, List.map_cons, ha.id, hids]
    · rw [outs_cons, outs_cons, ha.out, houts]
    · rw [queues_cons, queues_cons, hqueues, hes, packets, List.filterMap_append,
        List.filterMap_eq_nil_iff.2 hnone, List.append_nil, packets]

end Station

/-! ## The picture of a hierarchy -/

namespace Hierarchy

variable (P : Plan)

/-- All nodes, in the order of their ids. -/
def ids (h : Hierarchy) : List NodeId :=
  h.processors.map (·.cache.id) ++ h.banks.map (·.id) ++ h.memories.map (·.id)

/-- The packets that nodes have posted. -/
def posted (h : Hierarchy) : Multiset Packet :=
  (Processor.station P).outs h.processors + (SharedBank.station P).outs h.banks
    + (MemoryNode.station P).outs h.memories

/-- The packets that are queued at nodes. -/
def queued (h : Hierarchy) : Multiset Packet :=
  (Processor.station P).queues h.processors + (SharedBank.station P).queues h.banks
    + (MemoryNode.station P).queues h.memories

/-- The packets on the interconnect. -/
def inFlight (h : Hierarchy) : Multiset Packet := (h.net.inFlight.toList : Multiset Packet)

/-- The scene `s` pictures the hierarchy, where the packets `loose` have arrived and are to be
queued next. -/
structure Depicts (h : Hierarchy) (s : Scene) (loose : Multiset Packet) : Prop where
  processors : (Processor.station P).Attends P s h.processors
  banks : (SharedBank.station P).Attends P s h.banks
  memories : (MemoryNode.station P).Attends P s h.memories
  dense : h.ids.map (·.index.toNat) = List.range h.ids.length
  known : ∀ n, P.role n ≠ none → n.index.toNat < h.ids.length
  outgoing : s.outgoing = h.posted P
  transit : s.transit = loose + h.inFlight + h.queued P

variable {P} {h h' : Hierarchy} {s s' : Scene} {loose : Multiset Packet} {p : Packet}

/-- What routing the packet `p` does: it is queued at the node whose position the destination
names, and nothing else changes. -/
inductive Routes (p : Packet) (h : Hierarchy) : Hierarchy → Prop
  /-- The node is a cache. -/
  | processor {i : Nat} {q : Processor} (hq : h.processors[i]? = some q)
      (hid : h.ids[p.dst.index.toNat]? = some q.cache.id) :
      Routes p h { h with
        processors := h.processors.modify i fun q => { q with cache := q.cache.receive p } }
  /-- The node is a bank. -/
  | bank {i : Nat} {b : SharedBank} (hb : h.banks[i]? = some b)
      (hid : h.ids[p.dst.index.toNat]? = some b.id) :
      Routes p h { h with banks := h.banks.modify i (·.receive p) }
  /-- The node is a memory node. -/
  | memory {i : Nat} {m : MemoryNode} (hm : h.memories[i]? = some m)
      (hid : h.ids[p.dst.index.toNat]? = some m.id) :
      Routes p h { h with memories := h.memories.modify i (·.receive p) }

/-- A packet for a node that is there is queued. -/
theorem exists_route? (hlt : p.dst.index.toNat < h.ids.length) : ∃ h', h.route? p = some h' := by
  simp only [ids, List.length_append, List.length_map] at hlt
  unfold route?
  dsimp only
  rw [if_pos hlt]
  split
  · exact ⟨_, rfl⟩
  · split <;> exact ⟨_, rfl⟩

theorem routes_of_route? (hr : h.route? p = some h') : Routes p h h' := by
  unfold route? at hr
  dsimp only at hr
  -- the index of a node tells its kind: caches come first, then banks, then memories
  split at hr
  · next h₁ =>
    obtain ⟨q, hq⟩ : ∃ q, h.processors[p.dst.index.toNat]? = some q :=
      ⟨_, List.getElem?_eq_getElem h₁⟩
    cases hr
    refine .processor hq ?_
    rw [ids, List.append_assoc, List.getElem?_append_left (by simpa using h₁), List.getElem?_map, hq]
    rfl
  · next h₁ =>
    split at hr
    · next h₂ =>
      have hlt : p.dst.index.toNat - h.processors.length < h.banks.length := by omega
      obtain ⟨b, hb⟩ : ∃ b, h.banks[p.dst.index.toNat - h.processors.length]? = some b :=
        ⟨_, List.getElem?_eq_getElem hlt⟩
      cases hr
      refine .bank hb ?_
      rw [ids, List.append_assoc, List.getElem?_append_right (by simpa using h₁), List.length_map,
        List.getElem?_append_left (by simpa using hlt), List.getElem?_map, hb]
      rfl
    · next h₂ =>
      split at hr
      · next h₃ =>
        obtain ⟨m, hm⟩ : ∃ m, h.memories[p.dst.index.toNat
            - (h.processors.length + h.banks.length)]? = some m :=
          ⟨_, List.getElem?_eq_getElem (by omega)⟩
        cases hr
        refine .memory hm ?_
        rw [ids, List.getElem?_append_right (by simpa using h₂), List.length_append,
          List.length_map, List.length_map, List.getElem?_map, hm]
        rfl
      · cases hr

namespace Depicts

/-- The node at a position has the position for its index. -/
theorem index (hd : h.Depicts P s loose) {i : Nat} {n : NodeId} (hn : h.ids[i]? = some n) :
    n.index.toNat = i := by
  have hi : i < h.ids.length := (List.getElem?_eq_some_iff.1 hn).1
  have hmap : (h.ids.map (·.index.toNat))[i]? = some n.index.toNat := by
    rw [List.getElem?_map, hn]
    rfl
  rw [hd.dense, List.getElem?_range hi] at hmap
  exact (Option.some.inj hmap).symm

theorem nodup (hd : h.Depicts P s loose) : h.ids.Nodup :=
  List.Nodup.of_map _ (hd.dense ▸ List.nodup_range)

/-- A node stands at the position that its index names. -/
theorem eq_of_get (hd : h.Depicts P s loose) {k n : NodeId}
    (hn : h.ids[k.index.toNat]? = some n) : k = n := by
  have hindex := hd.index hn
  cases n
  cases k
  exact congrArg NodeId.mk (UInt32.toNat_inj.1 hindex.symm)

/-- Nodes have changed in what is queued at them, and `loose` is what is left to queue. -/
theorem requeue (hd : h.Depicts P s (p ::ₘ loose))
    (hp : (Processor.station P).Attends P s h'.processors)
    (hb : (SharedBank.station P).Attends P s h'.banks)
    (hm : (MemoryNode.station P).Attends P s h'.memories) (hids : h'.ids = h.ids)
    (hposted : h'.posted P = h.posted P) (hnet : h'.net = h.net)
    (hqueued : h'.queued P = p ::ₘ h.queued P) : h'.Depicts P s loose where
  processors := hp
  banks := hb
  memories := hm
  dense := by rw [hids, hd.dense]
  known := by rw [hids]; exact hd.known
  outgoing := by rw [hposted, hd.outgoing]
  transit := by
    rw [hqueued, Hierarchy.inFlight, hnet, hd.transit, Multiset.cons_add, Multiset.cons_add,
      Multiset.add_cons]
    rfl

/-- A packet that fits finds its node. -/
theorem route (hd : h.Depicts P s (p ::ₘ loose)) (hp : P.role p.dst ≠ none) :
    ∃ h', h.route? p = some h' ∧ h'.Depicts P s loose := by
  obtain ⟨h', hr⟩ := exists_route? (hd.known p.dst hp)
  refine ⟨h', hr, ?_⟩
  cases routes_of_route? hr with
  | processor hq hid =>
    obtain ⟨hattends, hids, houts, hqueues⟩ := hd.processors.receive
      (fun q => Processor.alike_receive q p) (fun _ => rfl) rfl hq (hd.eq_of_get hid)
    refine hd.requeue hattends hd.banks hd.memories ?_ ?_ rfl ?_
    · rw [ids, ids]
      exact congrArg (· ++ _ ++ _) hids
    · rw [posted, posted, ← houts]
    · rw [queued, queued, hqueues]
      simp only [Multiset.cons_add]
  | bank hb hid =>
    obtain ⟨hattends, hids, houts, hqueues⟩ := hd.banks.receive
      (SharedBank.alike_receive · p) (fun _ => rfl) rfl hb (hd.eq_of_get hid)
    refine hd.requeue hd.processors hattends hd.memories ?_ ?_ rfl ?_
    · rw [ids, ids]
      exact congrArg (_ ++ · ++ _) hids
    · rw [posted, posted, ← houts]
    · rw [queued, queued, hqueues]
      simp only [Multiset.cons_add, Multiset.add_cons]
  | memory hm hid =>
    obtain ⟨hattends, hids, houts, hqueues⟩ := hd.memories.receive
      (MemoryNode.alike_receive · p) (fun _ => rfl) rfl hm (hd.eq_of_get hid)
    refine hd.requeue hd.processors hd.banks hattends ?_ ?_ rfl ?_
    · rw [ids, ids]
      exact congrArg (_ ++ ·) hids
    · rw [posted, posted, ← houts]
    · rw [queued, queued, hqueues]
      simp only [Multiset.add_cons]

/-- All packets that have arrived find their nodes. -/
theorem routeAll {ps : List Packet} (hd : h.Depicts P s ps) (hs : s.Sound P) :
    ∃ h', h.routeAll ps = { hierarchy := h' } ∧ h'.Depicts P s 0 := by
  induction ps generalizing h with
  | nil => exact ⟨h, rfl, hd⟩
  | cons p rest ih =>
    have hfit : P.Fits p := hs.fits_transit (by
      rw [hd.transit]
      exact Multiset.mem_add.2 (.inl (Multiset.mem_add.2 (.inl List.mem_cons_self))))
    have hd : h.Depicts P s (p ::ₘ (rest : Multiset Packet)) := hd
    obtain ⟨h₁, hroute, hd₁⟩ := hd.route hfit.role_dst
    obtain ⟨h₂, hrest, hd₂⟩ := ih hd₁
    refine ⟨h₂, ?_, hd₂⟩
    rw [Hierarchy.routeAll, hroute]
    exact hrest

/-- At the start of a cycle what has arrived leaves the interconnect, and is loose until it is
queued. -/
theorem arrive (hd : h.Depicts P s 0) :
    ({ h.beginCycle with net := h.beginCycle.net.remaining (h.cycle + 1) } : Hierarchy).Depicts P s
      (h.net.arrived (h.cycle + 1) : Multiset Packet) :=
  { hd with
    transit := by
      show s.transit = _ + ((h.net.inFlight.remaining _).toList : Multiset Packet) + h.queued P
      rw [Multiset.coe_add]
      show s.transit
        = (h.net.inFlight.arrived _ ++ (h.net.inFlight.remaining _).toList : List Packet) + _
      rw [DelayLine.arrived_append_remaining, hd.transit, Multiset.zero_add]
      rfl }

/-- What has arrived is queued. -/
theorem deliver (hd : h.Depicts P s 0) (hs : s.Sound P) :
    ∃ h', h.beginCycle.deliver = { hierarchy := h' } ∧ h'.Depicts P s 0 :=
  hd.arrive.routeAll hs

/-- What happens at cores is not seen. -/
theorem nudged {ps : List Processor} (hd : h.Depicts P s 0)
    (hall : List.Forall₂ (Processor.station P).Nudged h.processors ps) :
    ({ h with processors := ps } : Hierarchy).Depicts P s 0 := by
  obtain ⟨hattends, hids, houts, hqueues⟩ := hd.processors.nudged hall
  have hids' : ({ h with processors := ps } : Hierarchy).ids = h.ids := congrArg (· ++ _ ++ _) hids
  exact {
    processors := hattends
    banks := hd.banks
    memories := hd.memories
    dense := by rw [hids', hd.dense]
    known := by rw [hids']; exact hd.known
    outgoing := by
      rw [hd.outgoing, posted, posted, ← houts]
    transit := by
      rw [hd.transit, queued, queued, ← hqueues]
      rfl }

/-- Cores issue accesses. -/
theorem issue (hd : h.Depicts P s 0) : h.issue.Depicts P s 0 :=
  hd.nudged (List.forall₂_map_right_iff.2
    (List.forall₂_same.2 fun q _ => Processor.nudged_issue q h.cycle))

/-- Cores are given accesses. -/
theorem load (hd : h.Depicts P s 0) (t : Trace) : (h.load t).1.Depicts P s 0 :=
  hd.nudged (Station.forall₂_mapIdx (fun _ q => Processor.nudged_enqueue q _) h.processors)

end Depicts

/-! ## A cycle -/

/-- What has come of a sound scene: another one that pictures the hierarchy, or one in which a
client refuses a packet. -/
def Turns (P : Plan) (o : Outcome) : Prop :=
  (o.error = none ∧ ∃ s : Scene, s.Sound P ∧ o.hierarchy.Depicts P s 0) ∨
    ∃ (f : Fault) (s : Scene), o.error = some (.fault f) ∧ s.Sound P ∧ s.Refuses P f

/-- What nodes in the role `r` have made of the scene `s`: one that pictures the hierarchy, or one
in which a client refuses a packet. -/
def Stage (P : Plan) (r : Role) (s : Scene) (o : Outcome) : Prop :=
  (o.error = none ∧ ∃ s', s.Run P r s' ∧ o.hierarchy.Depicts P s' 0) ∨
    ∃ f s', o.error = some (.fault f) ∧ s.Run P r s' ∧ s'.Refuses P f

theorem Stage.turns {r : Role} {o : Outcome} (h : Stage P r s o) (hs : s.Sound P) : Turns P o := by
  rcases h with ⟨herr, s', hrun, hd⟩ | ⟨f, s', herr, hrun, href⟩
  · exact .inl ⟨herr, s', hrun.sound hs, hd⟩
  · exact .inr ⟨f, s', herr, hrun.sound hs, href⟩

/-- A stage of a cycle is followed by the next. -/
theorem Turns.andThen {o : Outcome} (ho : Turns P o) {next : Hierarchy → Outcome}
    (hnext : ∀ (h : Hierarchy) s, h.Depicts P s 0 → s.Sound P → Turns P (next h)) :
    Turns P (o.andThen next) := by
  rcases ho with ⟨herr, s, hs, hd⟩ | ⟨f, s, herr, hs, href⟩
  · rw [Outcome.andThen, herr]
    exact hnext _ s hd hs
  · rw [Outcome.andThen, herr]
    exact .inr ⟨f, s, herr, hs, href⟩

/-- Packets leave for the interconnect. -/
theorem inFlight_sendAll {ps : List Packet} (hnet : h'.net = h.net.sendAll ps) :
    h'.inFlight = h.inFlight + (ps : Multiset Packet) := by
  rw [inFlight, hnet, Interconnect.toList_sendAll, ← Multiset.coe_add]
  rfl

namespace Depicts

/-- Nodes of one kind have been at work, and have sent `ps`. -/
theorem advance (hd : h.Depicts P s 0) {ps : List Packet}
    (hp : (Processor.station P).Attends P s' h'.processors)
    (hb : (SharedBank.station P).Attends P s' h'.banks)
    (hm : (MemoryNode.station P).Attends P s' h'.memories) (hids : h'.ids = h.ids)
    (hnet : h'.net = h.net.sendAll ps) (hposted : s'.outgoing = h'.posted P)
    (htransit : s'.transit = h.inFlight + (ps : Multiset Packet) + h'.queued P) :
    h'.Depicts P s' 0 where
  processors := hp
  banks := hb
  memories := hm
  dense := by rw [hids, hd.dense]
  known := by rw [hids]; exact hd.known
  outgoing := hposted
  transit := by rw [htransit, inFlight_sendAll hnet, Multiset.zero_add]

/-- The caches stand side by side. -/
theorem caches (hd : h.Depicts P s 0) : (Processor.station P).Company P s h.processors
    ((SharedBank.station P).outs h.banks + (MemoryNode.station P).outs h.memories)
    (h.inFlight + ((SharedBank.station P).queues h.banks
      + (MemoryNode.station P).queues h.memories)) := by
  obtain ⟨hcaches, -, -⟩ := List.nodup_append.1 hd.nodup
  obtain ⟨hcaches, -, -⟩ := List.nodup_append.1 hcaches
  refine { hd.processors with nodup := hcaches, outgoing := ?_, transit := ?_ }
  · rw [hd.outgoing, posted]
    abel
  · rw [hd.transit, queued]
    abel

/-- The caches have done the work `w`, and the other nodes nothing. -/
theorem worked (hd : h.Depicts P s 0) {w : Work (List Processor)}
    (ha : (Processor.station P).Advanced P s h.processors w
      ((SharedBank.station P).outs h.banks + (MemoryNode.station P).outs h.memories)
      (h.inFlight + ((SharedBank.station P).queues h.banks
        + (MemoryNode.station P).queues h.memories)) s') :
    ({ h with processors := w.node, net := h.net.sendAll w.sent } : Hierarchy).Depicts P s' 0 := by
  obtain ⟨hcaches, -, hdisj⟩ := List.nodup_append.1 hd.nodup
  obtain ⟨-, -, hdisj'⟩ := List.nodup_append.1 hcaches
  have hcomp := ha.company
  refine hd.advance hcomp.toAttends
    (hd.banks.frame fun b hb => ha.others _ fun hmem => ?_)
    (hd.memories.frame fun m hm => ha.others _ fun hmem => ?_)
    (congrArg (· ++ _ ++ _) ha.ids) rfl ?_ ?_
  · -- no bank and no memory has been at work, since ids differ
    exact hdisj' _ hmem _ (List.mem_map_of_mem hb) rfl
  · exact hdisj _ (List.mem_append_left _ hmem) _ (List.mem_map_of_mem hm) rfl
  · rw [hcomp.outgoing, posted]
    show _ = (Processor.station P).outs w.node
      + (SharedBank.station P).outs h.banks + (MemoryNode.station P).outs h.memories
    abel
  · rw [hcomp.transit, queued]
    show _ = _ + _ + ((Processor.station P).queues w.node
      + (SharedBank.station P).queues h.banks + (MemoryNode.station P).queues h.memories)
    abel

/-- The caches tick. -/
theorem tickProcessors (hd : h.Depicts P s 0) (hs : s.Sound P) :
    Stage P .client s h.tickProcessors := by
  rcases hd.caches.forEach (fun q hq => Processor.tick_works h.cycle hq) hs with
    ⟨hf, s', ha⟩ | ⟨f, s', hf, hrun, href⟩
  · exact .inl ⟨by rw [Hierarchy.tickProcessors, hf]; rfl, s', ha.run, hd.worked ha⟩
  · exact .inr ⟨f, s', by rw [Hierarchy.tickProcessors, hf]; rfl, hrun, href⟩

/-- The banks tick. -/
theorem tickBanks (hd : h.Depicts P s 0) (hs : s.Sound P) : Stage P .bank s h.tickBanks := by
  obtain ⟨hcaches, hmems, hdisj⟩ := List.nodup_append.1 hd.nodup
  obtain ⟨hcaches, hbanks, hdisj'⟩ := List.nodup_append.1 hcaches
  have hcompany : (SharedBank.station P).Company P s h.banks
      ((Processor.station P).outs h.processors + (MemoryNode.station P).outs h.memories)
      (h.inFlight + ((Processor.station P).queues h.processors
        + (MemoryNode.station P).queues h.memories)) := by
    refine { hd.banks with nodup := hbanks, outgoing := ?_, transit := ?_ }
    · rw [hd.outgoing, posted]
      abel
    · rw [hd.transit, queued]
      abel
  rcases hcompany.forEach (fun b hb => SharedBank.tick_works hb) hs with
    ⟨hf, s', ha⟩ | ⟨f, s', hf, hrun, href⟩
  · have hcomp := ha.company
    refine .inl ⟨by rw [Hierarchy.tickBanks, hf]; rfl, s', ha.run, hd.advance
      (hd.processors.frame fun q hq => ha.others _ fun hmem => ?_) hcomp.toAttends
      (hd.memories.frame fun m hm => ha.others _ fun hmem => ?_)
      (congrArg (_ ++ · ++ _) ha.ids) rfl ?_ ?_⟩
    · -- no other node has been at work, since ids differ
      exact hdisj' _ (List.mem_map_of_mem hq) _ hmem rfl
    · exact hdisj _ (List.mem_append_right _ hmem) _ (List.mem_map_of_mem hm) rfl
    · rw [hcomp.outgoing, posted]
      show _ = (Processor.station P).outs h.processors
        + (SharedBank.station P).outs (Work.forEach _ _).node
        + (MemoryNode.station P).outs h.memories
      abel
    · rw [hcomp.transit, queued]
      show _ = _ + _ + ((Processor.station P).queues h.processors
        + (SharedBank.station P).queues (Work.forEach _ _).node
        + (MemoryNode.station P).queues h.memories)
      abel
  · exact .inr ⟨f, s', by rw [Hierarchy.tickBanks, hf]; rfl, hrun, href⟩

/-- The memory nodes tick. -/
theorem tickMemories (hd : h.Depicts P s 0) (hs : s.Sound P) :
    Stage P .memory s h.tickMemories := by
  obtain ⟨hcaches, hmems, hdisj⟩ := List.nodup_append.1 hd.nodup
  have hcompany : (MemoryNode.station P).Company P s h.memories
      ((Processor.station P).outs h.processors + (SharedBank.station P).outs h.banks)
      (h.inFlight + ((Processor.station P).queues h.processors
        + (SharedBank.station P).queues h.banks)) := by
    refine { hd.memories with nodup := hmems, outgoing := ?_, transit := ?_ }
    · rw [hd.outgoing, posted]
    · rw [hd.transit, queued]
      abel
  rcases hcompany.forEach (fun m hm => MemoryNode.tick_works hm) hs with
    ⟨hf, s', ha⟩ | ⟨f, s', hf, hrun, href⟩
  · have hcomp := ha.company
    refine .inl ⟨by rw [Hierarchy.tickMemories, hf]; rfl, s', ha.run, hd.advance
      (hd.processors.frame fun q hq => ha.others _ fun hmem => ?_)
      (hd.banks.frame fun b hb => ha.others _ fun hmem => ?_) hcomp.toAttends
      (congrArg (_ ++ ·) ha.ids) rfl ?_ ?_⟩
    · exact hdisj _ (List.mem_append_left _ (List.mem_map_of_mem hq)) _ hmem rfl
    · exact hdisj _ (List.mem_append_right _ (List.mem_map_of_mem hb)) _ hmem rfl
    · rw [hcomp.outgoing, posted]
      rfl
    · rw [hcomp.transit, queued]
      show _ = _ + _ + ((Processor.station P).queues h.processors
        + (SharedBank.station P).queues h.banks
        + (MemoryNode.station P).queues (Work.forEach _ _).node)
      abel
  · exact .inr ⟨f, s', by rw [Hierarchy.tickMemories, hf]; rfl, hrun, href⟩

/-- A cycle of the hierarchy leads from a sound scene to a sound scene, unless a client refuses
a packet. -/
theorem step (hd : h.Depicts P s 0) (hs : s.Sound P) : Turns P h.step := by
  obtain ⟨h₁, hdeliver, hd₁⟩ := hd.deliver hs
  rw [Hierarchy.step, hdeliver]
  have hcaches : Turns P h₁.issue.tickProcessors := (hd₁.issue.tickProcessors hs).turns hs
  exact (hcaches.andThen fun _ _ hd hs => (hd.tickBanks hs).turns hs).andThen
    fun _ _ hd hs => (hd.tickMemories hs).turns hs

end Depicts

end Hierarchy

end CacheCoherence
