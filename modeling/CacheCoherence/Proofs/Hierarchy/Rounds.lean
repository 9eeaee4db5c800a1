import CacheCoherence.Proofs.Hierarchy.Ports

/-!
# Rounds — one cycle, node by node

In a cycle what has arrived is queued at its destination, and then every node has its turn. Seen
from the interconnect a cycle is the list of these turns: together they tell what has been put on
the interconnect and what the nodes are like afterwards.
-/

namespace CacheCoherence

/-- Packets are queued at a node as far as they are for it. -/
def Port.queue (n : Port) (ps : List Packet) : Port :=
  { n with inbound := n.inbound ++ ps.filter (·.dst == n.id) }

namespace Port

variable {n : Port} {p : Packet} {ps qs : List Packet}

theorem queue_nil (n : Port) : n.queue [] = n := by
  simp [queue]

theorem queue_cons (n : Port) (p : Packet) (ps : List Packet) :
    n.queue (p :: ps) = (n.queue [p]).queue ps := by
  simp [queue, ← List.filter_append]

theorem queue_of_dst (h : p.dst = n.id) : n.queue [p] = { n with inbound := n.inbound ++ [p] } := by
  simp [queue, h]

theorem queue_of_dst_ne (h : p.dst ≠ n.id) : n.queue [p] = n := by
  simp [queue, h]

/-- Only the node that a packet is for is changed. -/
theorem map_queue_split {l₁ l₂ : List Port} (hnodup : ((l₁ ++ n :: l₂).map (·.id)).Nodup)
    (h : p.dst = n.id) :
    (l₁ ++ n :: l₂).map (·.queue [p]) = l₁ ++ { n with inbound := n.inbound ++ [p] } :: l₂ := by
  rw [List.map_append, List.map_cons, List.nodup_append, List.nodup_cons] at hnodup
  obtain ⟨-, ⟨hright, -⟩, hleft⟩ := hnodup
  have hsame : ∀ l : List Port, (∀ m ∈ l, n.id ≠ m.id) → l.map (·.queue [p]) = l := by
    intro l hl
    refine (List.map_congr_left fun m hm => queue_of_dst_ne ?_).trans (List.map_id l)
    rw [h]
    exact hl m hm
  rw [List.map_append, List.map_cons, queue_of_dst h, hsame l₁, hsame l₂]
  · intro m hm heq
    exact hright (heq ▸ List.mem_map_of_mem hm)
  · intro m hm heq
    exact hleft m.id (List.mem_map_of_mem hm) n.id List.mem_cons_self heq.symm

end Port

namespace Work

variable {σ : Type} {work : σ → Work σ}

/-- What nodes send one after another. -/
theorem forEach_sent {ns : List σ} (hf : (forEach work ns).fault = none) :
    (forEach work ns).sent = ns.flatMap fun n => (work n).sent := by
  induction ns with
  | nil => rfl
  | cons n rest ih =>
    unfold forEach at hf ⊢
    dsimp only at hf ⊢
    split at hf
    · next f hn =>
      rw [hn] at hf
      cases hf
    · next hn =>
      simp only [List.flatMap_cons]
      rw [← ih hf]

end Work

/-- To the interconnect it does not matter what a core asks of its cache. -/
theorem Processor.port_issue (q : Processor) (now : Nat) : (q.issue now).port = q.port := by
  unfold issue
  split
  · next r core _ =>
    simp [port, PrivateCache.port, PrivateCache.request, ClientInput.packet?]
  · rfl

/-- Work that ends without an error has gone on after its first part. -/
theorem Outcome.andThen_eq {o : Outcome} {next : Hierarchy → Outcome} {h' : Hierarchy}
    (ho : o.andThen next = { hierarchy := h' }) :
    ∃ h, o = { hierarchy := h } ∧ next h = { hierarchy := h' } := by
  obtain ⟨h, error⟩ := o
  cases error with
  | none => exact ⟨h, rfl, ho⟩
  | some e => cases ho

namespace Hierarchy

/-- The hierarchy as its nodes take their turns: what has arrived is queued, and the cores have
issued their accesses. -/
def ready (h : Hierarchy) : Hierarchy := h.beginCycle.deliver.hierarchy.issue

/-- The turns of one cycle. -/
def rounds (h : Hierarchy) : List Round :=
  h.ready.processors.map (·.cache.round) ++ h.ready.banks.map (·.round)
    ++ h.ready.memories.map (·.round)

/-- The packets that are put on the interconnect in one cycle, in order. -/
def sends (h : Hierarchy) : List Packet := h.rounds.flatMap (·.sent)

/-- The packets that the interconnect delivers at the start of a cycle, in order. -/
def deliveries (h : Hierarchy) : List Packet := h.net.arrived (h.cycle + 1)

/-- A cycle leads from `h` to `h'`: what has arrived is queued, every node has its turn, and
what the nodes have sent is on its way. -/
structure Advances (h h' : Hierarchy) : Prop where
  addressed : ∀ p ∈ h.deliveries, p.dst ∈ h.ids
  nodup : h.ids.Nodup
  queued : h.rounds.map (·.before) = h.ports.map (·.queue h.deliveries)
  orderly : ∀ r ∈ h.rounds, r.Orderly
  ports : h'.ports = h.rounds.map (·.after)
  net : h'.net = (({ h.net with now := h.cycle + 1 } : Interconnect).remaining
    (h.cycle + 1)).sendAll h.sends
  cycle : h'.cycle = h.cycle + 1

variable {P : Plan} {h h' : Hierarchy} {s : Scene} {p : Packet} {ps : List Packet}
  {loose : Multiset Packet}

/-! ## What has arrived is queued -/

namespace Depicts

/-- A node with a part to play is there. -/
theorem mem_ids {n : NodeId} (hd : h.Depicts P s loose) (hn : P.role n ≠ none) : n ∈ h.ids := by
  have hget := List.getElem?_eq_getElem (hd.known n hn)
  rw [hd.eq_of_get hget]
  exact List.getElem_mem _

/-- A packet is queued at the node that it is for. -/
theorem ports_route (hd : h.Depicts P s loose) (hr : h.route? p = some h') :
    h'.ports = h.ports.map (·.queue [p]) ∧ h'.net = h.net ∧ h'.cycle = h.cycle ∧
      h'.ids = h.ids := by
  have hnodup : (h.ports.map (·.id)).Nodup := by
    rw [ids_ports]
    exact hd.nodup
  -- whatever kind of node it is, it stands somewhere among the ports
  have hqueue : ∀ (l₁ l₂ : List Port) (n : Port), h.ports = l₁ ++ n :: l₂ → p.dst = n.id →
      h'.ports = l₁ ++ { n with inbound := n.inbound ++ [p] } :: l₂ →
      h'.ports = h.ports.map (·.queue [p]) ∧ h'.ids = h.ids := by
    intro l₁ l₂ n hports hdst hports'
    rw [hports] at hnodup
    rw [← ids_ports, ← ids_ports, hports, Port.map_queue_split hnodup hdst, hports']
    simp
  cases routes_of_route? hr with
  | @processor i q hq hid =>
    obtain ⟨l₁, l₂, hl, hmodify⟩ := Station.modify_split hq
    obtain ⟨hports, hids⟩ := hqueue (l₁.map (·.port))
      (l₂.map (·.port) ++ (h.banks.map (·.port) ++ h.memories.map (·.port)))
      q.port (by simp [ports, hl]) (hd.eq_of_get hid)
      (by simp [ports, hmodify, Processor.port, PrivateCache.port, PrivateCache.receive,
        ClientInput.packet?])
    exact ⟨hports, rfl, rfl, hids⟩
  | @bank i b hb hid =>
    obtain ⟨l₁, l₂, hl, hmodify⟩ := Station.modify_split hb
    obtain ⟨hports, hids⟩ := hqueue (h.processors.map (·.port) ++ l₁.map (·.port))
      (l₂.map (·.port) ++ h.memories.map (·.port)) b.port (by simp [ports, hl]) (hd.eq_of_get hid)
      (by simp [ports, hmodify, SharedBank.port, SharedBank.receive])
    exact ⟨hports, rfl, rfl, hids⟩
  | @memory i m hm hid =>
    obtain ⟨l₁, l₂, hl, hmodify⟩ := Station.modify_split hm
    obtain ⟨hports, hids⟩ := hqueue
      (h.processors.map (·.port) ++ (h.banks.map (·.port) ++ l₁.map (·.port)))
      (l₂.map (·.port)) m.port (by simp [ports, hl]) (hd.eq_of_get hid)
      (by simp [ports, hmodify, MemoryNode.port, MemoryNode.receive])
    exact ⟨hports, rfl, rfl, hids⟩

/-- All packets that have arrived are queued. -/
theorem ports_routeAll (hd : h.Depicts P s ps) (hs : s.Sound P)
    (hr : h.routeAll ps = { hierarchy := h' }) :
    h'.ports = h.ports.map (·.queue ps) ∧ h'.net = h.net ∧ h'.cycle = h.cycle ∧
      ∀ p ∈ ps, p.dst ∈ h.ids := by
  induction ps generalizing h with
  | nil =>
    cases hr
    simp [Port.queue_nil]
  | cons p rest ih =>
    have hd : h.Depicts P s (p ::ₘ (rest : Multiset Packet)) := hd
    have hrole : P.role p.dst ≠ none := by
      refine (hs.fits_transit (p := p) ?_).role_dst
      rw [hd.transit]
      exact Multiset.mem_add.2 (.inl (Multiset.mem_add.2 (.inl (Multiset.mem_cons_self p _))))
    obtain ⟨h₁, hroute, hd₁⟩ := hd.route hrole
    rw [Hierarchy.routeAll, hroute] at hr
    obtain ⟨hports₁, hnet₁, hcycle₁, hids₁⟩ := hd.ports_route hroute
    obtain ⟨hports, hnet, hcycle, hrest⟩ := ih hd₁ hr
    refine ⟨?_, hnet.trans hnet₁, hcycle.trans hcycle₁, ?_⟩
    · rw [hports, hports₁, List.map_map]
      refine List.map_congr_left fun n _ => ?_
      exact (Port.queue_cons n p rest).symm
    · rw [hids₁] at hrest
      exact List.forall_mem_cons.2 ⟨hd.mem_ids hrole, hrest⟩

/-- Before the nodes take their turns what has arrived is queued at them. -/
theorem ready (hd : h.Depicts P s 0) (hs : s.Sound P) :
    h.beginCycle.deliver.error = none ∧ h.ready.Depicts P s 0 ∧
      h.ready.ports = h.ports.map (·.queue h.deliveries) ∧
      h.ready.net = ({ h.net with now := h.cycle + 1 } : Interconnect).remaining (h.cycle + 1) ∧
      h.ready.cycle = h.cycle + 1 ∧ ∀ p ∈ h.deliveries, p.dst ∈ h.ids := by
  obtain ⟨h₁, hdeliver, hd₁⟩ := hd.deliver hs
  obtain ⟨hports, hnet, hcycle, hdst⟩ := hd.arrive.ports_routeAll hs hdeliver
  rw [Hierarchy.ready, hdeliver]
  refine ⟨rfl, hd₁.issue, ?_, hnet, hcycle, hdst⟩
  have hissue : h₁.issue.ports = h₁.ports := by
    have hcores : h₁.issue.processors.map Processor.port = h₁.processors.map Processor.port := by
      rw [Hierarchy.issue, List.map_map]
      exact List.map_congr_left fun q _ => q.port_issue h₁.cycle
    rw [ports, hcores]
    rfl
  rw [hissue, hports]
  rfl

end Depicts

/-! ## The nodes take their turns -/

theorem tickProcessors_eq (ht : h.tickProcessors = { hierarchy := h' }) :
    (∀ q ∈ h.processors, q.cache.tick.1.fault = none) ∧
      h' = { h with
        processors := h.processors.map fun q => (q.tick h.cycle).node
        net := h.net.sendAll (h.processors.flatMap fun q => q.cache.round.sent) } := by
  simp only [tickProcessors, Outcome.mk.injEq, Option.map_eq_none_iff] at ht
  obtain ⟨rfl, hf⟩ := ht
  obtain ⟨hnode, hall⟩ := Work.forEach_node hf
  refine ⟨hall, ?_⟩
  rw [hnode, Work.forEach_sent hf]
  rfl

theorem tickBanks_eq (ht : h.tickBanks = { hierarchy := h' }) :
    (∀ b ∈ h.banks, b.tick.fault = none) ∧
      h' = { h with
        banks := h.banks.map fun b => b.tick.node
        net := h.net.sendAll (h.banks.flatMap fun b => b.round.sent) } := by
  simp only [tickBanks, Outcome.mk.injEq, Option.map_eq_none_iff] at ht
  obtain ⟨rfl, hf⟩ := ht
  obtain ⟨hnode, hall⟩ := Work.forEach_node hf
  refine ⟨hall, ?_⟩
  rw [hnode, Work.forEach_sent hf]
  rfl

theorem tickMemories_eq (ht : h.tickMemories = { hierarchy := h' }) :
    (∀ m ∈ h.memories, m.tick.fault = none) ∧
      h' = { h with
        memories := h.memories.map fun m => m.tick.node
        net := h.net.sendAll (h.memories.flatMap fun m => m.round.sent) } := by
  simp only [tickMemories, Outcome.mk.injEq, Option.map_eq_none_iff] at ht
  obtain ⟨rfl, hf⟩ := ht
  obtain ⟨hnode, hall⟩ := Work.forEach_node hf
  refine ⟨hall, ?_⟩
  rw [hnode, Work.forEach_sent hf]
  rfl

/-- A cycle that ends without an error has gone through all of its stages. -/
theorem step_stages (hstep : h.step = { hierarchy := h' }) : ∃ h₁ h₂,
    h.ready.tickProcessors = { hierarchy := h₁ } ∧ h₁.tickBanks = { hierarchy := h₂ } ∧
      h₂.tickMemories = { hierarchy := h' } := by
  obtain ⟨h₂, hbanked, hmemories⟩ := Outcome.andThen_eq hstep
  obtain ⟨h₁, hcached, hbanks⟩ := Outcome.andThen_eq hbanked
  obtain ⟨h₀, hdeliver, hcaches⟩ := Outcome.andThen_eq hcached
  have hissue : h₀.issue = h.ready := by rw [Hierarchy.ready, hdeliver]
  rw [hissue] at hcaches
  exact ⟨h₁, h₂, hcaches, hbanks, hmemories⟩

/-- A cycle that ends without an error, node by node. -/
theorem Depicts.advances (hd : h.Depicts P s 0) (hs : s.Sound P)
    (hstep : h.step = { hierarchy := h' }) : Advances h h' := by
  obtain ⟨herr, hready, hports, hnet, hcycle, hdst⟩ := hd.ready hs
  obtain ⟨h₁, h₂, hcaches, hbanks, hmemories⟩ := step_stages hstep
  obtain ⟨hcacheFaults, rfl⟩ := tickProcessors_eq hcaches
  obtain ⟨hbankFaults, rfl⟩ := tickBanks_eq hbanks
  obtain ⟨hmemoryFaults, rfl⟩ := tickMemories_eq hmemories
  have hproper : ∀ n ∈ h.ready.ports, n.Proper := fun n hn =>
    hready.port_induction (Q := Port.Proper) (fun S m hplays => hplays.senders) hn
  have hbefore : h.rounds.map (·.before) = h.ready.ports := by
    simp only [rounds, ports, List.map_append, List.map_map]
    rfl
  refine { addressed := hdst, nodup := hd.nodup, queued := hbefore.trans hports, orderly := ?_,
           ports := ?_, net := ?_, cycle := hcycle }
  · intro r hr
    have hr' : r.before.Proper := hproper _ (hbefore ▸ List.mem_map_of_mem hr)
    rw [rounds, List.mem_append, List.mem_append] at hr
    rcases hr with (hr | hr) | hr
    · obtain ⟨q, hq, rfl⟩ := List.mem_map.1 hr
      exact q.cache.orderly_round hr' (hcacheFaults q hq)
    · obtain ⟨b, hb, rfl⟩ := List.mem_map.1 hr
      exact b.orderly_round hr' (hbankFaults b hb)
    · obtain ⟨m, hm, rfl⟩ := List.mem_map.1 hr
      exact m.orderly_round hr' (hmemoryFaults m hm)
  · simp only [rounds, ports, List.map_append, List.map_map]
    rfl
  · rw [← hnet, sends, rounds, List.flatMap_append, List.flatMap_append, List.flatMap_map,
      List.flatMap_map, List.flatMap_map, Interconnect.sendAll_append, Interconnect.sendAll_append]

end Hierarchy

end CacheCoherence
