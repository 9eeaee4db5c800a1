import CacheCoherence.Proofs.Hierarchy.Reached
import CacheCoherence.Proofs.Hierarchy.Rounds
import CacheCoherence.Proofs.Traffic.Schedule

/-!
# Channels — between two nodes nothing is lost, doubled or overtaken

A packet spends its time on the delay line of its sender, in the sender's link until there is a
credit, on the interconnect, and in the queue of its receiver. Each of these keeps order, and
what leaves one of them enters the next. So what one node has handled from another, followed by
what is on its way between them, is what the other has produced for it.
-/

namespace CacheCoherence

/-- The packet comes from `s`, and takes a credit to travel. -/
def Packet.isFrom (p : Packet) (s : NodeId) : Bool := p.src == s && !p.isCredit

namespace Hierarchy

/-- The packets from `s` that the node `d` handles in a cycle, credits aside. -/
def dispatched (h : Hierarchy) (s d : NodeId) : List Packet :=
  (h.rounds.filter (·.before.id == d)).flatMap (·.before.inbound.filter (·.isFrom s))

/-- The packets for `d` that the node `s` produces in a cycle. -/
def produced (h : Hierarchy) (s d : NodeId) : List Packet :=
  (h.rounds.filter (·.before.id == s)).flatMap (·.made.filter (·.dst == d))

/-- The packets on their way from `s` to `d`, the next to arrive first: those queued at `d`, those
on the interconnect, and those that are still at `s`. -/
def underWay (h : Hierarchy) (s d : NodeId) : List Packet :=
  (h.ports.filter (·.id == d)).flatMap (·.inbound.filter (·.isFrom s))
    ++ h.net.inFlight.toList.filter (fun p => p.isFrom s && p.dst == d)
    ++ (h.ports.filter (·.id == s)).flatMap (·.outlet.toList.filter (·.dst == d))

/-! ## One cycle -/

section Lists

variable {α : Type} {key : α → NodeId} {l : List α} {k s d : NodeId}

/-- At most one member of a list has a given key. -/
theorem filter_key (hnodup : (l.map key).Nodup) (k : NodeId) :
    l.filter (key · == k) = [] ∧ k ∉ l.map key ∨
      ∃ x ∈ l, key x = k ∧ l.filter (key · == k) = [x] := by
  by_cases hk : k ∈ l.map key
  · right
    obtain ⟨x, hx, rfl⟩ := List.mem_map.1 hk
    refine ⟨x, hx, rfl, ?_⟩
    obtain ⟨l₁, l₂, rfl⟩ := List.append_of_mem hx
    rw [List.map_append, List.map_cons, List.nodup_append, List.nodup_cons] at hnodup
    obtain ⟨-, ⟨hright, -⟩, hleft⟩ := hnodup
    have h₁ : l₁.filter (key · == key x) = [] := by
      refine List.filter_eq_nil_iff.2 fun y hy heq => ?_
      exact hleft (key y) (List.mem_map_of_mem hy) (key x) List.mem_cons_self (beq_iff_eq.1 heq)
    have h₂ : l₂.filter (key · == key x) = [] := by
      refine List.filter_eq_nil_iff.2 fun y hy heq => ?_
      exact hright (beq_iff_eq.1 heq ▸ List.mem_map_of_mem hy)
    rw [List.filter_append, List.filter_cons_of_pos (by simp), h₁, h₂]
    rfl
  · left
    refine ⟨List.filter_eq_nil_iff.2 fun y hy heq => hk ?_, hk⟩
    exact beq_iff_eq.1 heq ▸ List.mem_map_of_mem hy

/-- Among what several nodes send, that which is from `s` was sent by `s`. -/
theorem filter_sent {sent : α → List Packet}
    (hsrc : ∀ x ∈ l, ∀ p ∈ sent x, p.isCredit = false → p.src = key x) :
    (l.flatMap sent).filter (fun p => p.isFrom s && p.dst == d)
      = (l.filter (key · == s)).flatMap
        fun x => ((sent x).filter (!·.isCredit)).filter (·.dst == d) := by
  induction l with
  | nil => rfl
  | cons x rest ih =>
    have hrest := ih fun y hy => hsrc y (List.mem_cons_of_mem x hy)
    rw [List.flatMap_cons, List.filter_append, hrest]
    have hx := hsrc x List.mem_cons_self
    by_cases hk : key x = s
    · rw [List.filter_cons_of_pos (by simpa using hk), List.flatMap_cons, List.filter_filter]
      congr 1
      refine List.filter_congr fun p hp => ?_
      cases hc : p.isCredit with
      | true => simp [Packet.isFrom, hc]
      | false => simp [Packet.isFrom, hc, hx p hp hc, hk]
    · rw [List.filter_cons_of_neg (by simpa using hk)]
      have hnone : (sent x).filter (fun p => p.isFrom s && p.dst == d) = [] := by
        refine List.filter_eq_nil_iff.2 fun p hp => ?_
        cases hc : p.isCredit with
        | true => simp [Packet.isFrom, hc]
        | false => simp [Packet.isFrom, hc, hx p hp hc, hk]
      rw [hnone, List.nil_append]

end Lists

variable {h h' : Hierarchy} {s d : NodeId}

/-- What `d` handles in a cycle was queued there, or has just arrived. -/
theorem Advances.dispatched_eq (ha : Advances h h') (s d : NodeId) :
    h.dispatched s d = (h.ports.filter (·.id == d)).flatMap (·.inbound.filter (·.isFrom s))
      ++ h.deliveries.filter (fun p => p.isFrom s && p.dst == d) := by
  have hbefore : (h.rounds.filter (·.before.id == d)).map (·.before)
      = (h.ports.filter (·.id == d)).map (·.queue h.deliveries) := by
    have hfilter := congrArg (List.filter (·.id == d)) ha.queued
    rw [List.filter_map, List.filter_map] at hfilter
    exact hfilter
  have hdispatched : h.dispatched s d
      = ((h.rounds.filter (·.before.id == d)).map (·.before)).flatMap
        (·.inbound.filter (·.isFrom s)) := by
    rw [List.flatMap_map]
    rfl
  rw [hdispatched, hbefore, List.flatMap_map]
  have hnodup : (h.ports.map (·.id)).Nodup := by
    rw [ids_ports]
    exact ha.nodup
  rcases filter_key hnodup d with ⟨hnil, hmem⟩ | ⟨n, -, hid, hone⟩
  · -- nothing arrives at a node that is not there
    have hnone : h.deliveries.filter (fun p => p.isFrom s && p.dst == d) = [] := by
      refine List.filter_eq_nil_iff.2 fun p hp hcond => hmem ?_
      rw [Bool.and_eq_true, beq_iff_eq] at hcond
      rw [ids_ports, ← hcond.2]
      exact ha.addressed p hp
    rw [hnil, hnone]
    rfl
  · rw [hone]
    simp only [List.flatMap_cons, List.flatMap_nil, List.append_nil, Port.queue,
      List.filter_append, List.filter_filter, hid]

/-- What `s` has for `d` once it has had its turn, behind what it has sent, is what it had and
what it has produced. -/
theorem Advances.produced_eq (ha : Advances h h') (s d : NodeId) :
    h.sends.filter (fun p => p.isFrom s && p.dst == d)
        ++ (h'.ports.filter (·.id == s)).flatMap (·.outlet.toList.filter (·.dst == d))
      = (h.ports.filter (·.id == s)).flatMap (·.outlet.toList.filter (·.dst == d))
        ++ h.produced s d := by
  have hsrc : ∀ r ∈ h.rounds, ∀ p ∈ r.sent, p.isCredit = false → p.src = r.before.id := by
    intro r hr p hp hc
    have hr' := ha.orderly r hr
    refine (hr'.issued p ?_).1
    rw [← hr'.order]
    exact List.mem_append_left _ (List.mem_filter.2 ⟨hp, by rw [hc]; rfl⟩)
  rw [sends, filter_sent hsrc]
  -- both before and after its turn the node `s` is found in the same place
  have hafter : h'.ports.filter (·.id == s)
      = (h.rounds.filter (·.before.id == s)).map (·.after) := by
    rw [ha.ports, List.filter_map]
    congr 1
    refine List.filter_congr fun r hr => ?_
    show (r.after.id == s) = _
    rw [(ha.orderly r hr).id]
  have hbefore : (h.ports.filter (·.id == s)).flatMap (·.outlet.toList.filter (·.dst == d))
      = (h.rounds.filter (·.before.id == s)).flatMap
        (·.before.outlet.toList.filter (·.dst == d)) := by
    have hfilter := congrArg (fun ns => (ns.filter (·.id == s)).flatMap
      (·.outlet.toList.filter (·.dst == d))) ha.queued
    simp only [List.filter_map, List.flatMap_map] at hfilter
    exact hfilter.symm
  rw [hafter, hbefore, List.flatMap_map, produced]
  have hnodup : (h.rounds.map (·.before.id)).Nodup := by
    have hids : h.rounds.map (·.before.id) = h.ids := by
      have hmap := congrArg (List.map (·.id)) ha.queued
      rw [List.map_map, List.map_map] at hmap
      exact hmap.trans h.ids_ports
    rw [hids]
    exact ha.nodup
  rcases filter_key hnodup s with ⟨hnil, -⟩ | ⟨r, hr, -, hone⟩
  · rw [hnil]
    rfl
  · rw [hone]
    simp only [List.flatMap_cons, List.flatMap_nil, List.append_nil]
    rw [← List.filter_append, ← List.filter_append, (ha.orderly r hr).order]

/-- In a cycle packets move on between two nodes, in order. -/
theorem Advances.channel (ha : Advances h h') (s d : NodeId) :
    h.dispatched s d ++ h'.underWay s d = h.underWay s d ++ h.produced s d := by
  have hinbound : (h'.ports.filter (·.id == d)).flatMap (·.inbound.filter (·.isFrom s)) = [] := by
    refine List.flatMap_eq_nil_iff.2 fun n hn => ?_
    have hn := (List.mem_filter.1 hn).1
    rw [ha.ports] at hn
    obtain ⟨r, hr, rfl⟩ := List.mem_map.1 hn
    rw [(ha.orderly r hr).inbound]
    rfl
  have hnet : h'.net.inFlight.toList = (h.net.inFlight.remaining (h.cycle + 1)).toList ++ h.sends := by
    rw [ha.net, Interconnect.toList_sendAll]
    rfl
  have harrived : h.deliveries ++ (h.net.inFlight.remaining (h.cycle + 1)).toList
      = h.net.inFlight.toList :=
    DelayLine.arrived_append_remaining ..
  rw [ha.dispatched_eq, underWay, underWay, hinbound, hnet, ← harrived, List.filter_append,
    List.filter_append, List.nil_append]
  simp only [List.append_assoc]
  rw [ha.produced_eq]

/-! ## A run -/

/-- A run from the configuration `c` and the trace `t` that has gone through the hierarchies
`past`, by cycles that end without an error, and has got to `h`. -/
inductive Ran (c : Config) (t : Trace) : List Hierarchy → Hierarchy → Prop
  | load {h : Hierarchy} (hc : create? c = .ok h) (ht : (h.load t).2 = none) :
      Ran c t [] (h.load t).1
  | step {past : List Hierarchy} {h h' : Hierarchy} (hr : Ran c t past h)
      (hs : h.step = { hierarchy := h' }) : Ran c t (past ++ [h]) h'

variable {c : Config} {t : Trace} {past : List Hierarchy}

theorem Ran.reached (hr : Ran c t past h) : Reached c t h := by
  induction hr with
  | load hc ht => exact .load hc ht
  | step _ hs ih => exact ih.step hs

theorem Reached.ran (hr : Reached c t h) : ∃ past, Ran c t past h := by
  induction hr with
  | load hc ht => exact ⟨[], .load hc ht⟩
  | step _ hs ih =>
    obtain ⟨past, hr⟩ := ih
    exact ⟨_, hr.step hs⟩

/-- The hierarchies that `n` cycles go through. -/
def trail : Nat → Hierarchy → List Hierarchy
  | 0, _ => []
  | n + 1, h => h :: trail n h.step.hierarchy

/-- Nothing is under way in a hierarchy that is pictured by the idle scene. -/
theorem underWay_idle {P : Plan} (hd : h.Depicts P (.idle P) 0) (s d : NodeId) :
    h.underWay s d = [] := by
  have hnone : h.undispatched = [] := (Multiset.coe_eq_zero _).1 hd.transit_eq.symm
  have hposted : h.ports.flatMap (·.outlet.toList) = [] :=
    (Multiset.coe_eq_zero _).1 hd.outgoing_eq.symm
  obtain ⟨hnet, hinbound⟩ := List.append_eq_nil_iff.1 hnone
  rw [List.flatMap_eq_nil_iff] at hinbound hposted
  rw [underWay, hnet, List.filter_nil, List.append_nil, List.append_eq_nil_iff,
    List.flatMap_eq_nil_iff, List.flatMap_eq_nil_iff]
  refine ⟨fun n hn => ?_, fun n hn => ?_⟩
  · rw [hinbound n (List.mem_filter.1 hn).1]
    rfl
  · rw [hposted n (List.mem_filter.1 hn).1]
    rfl

/-- What has become of the packets of a run, where each takes `latency` cycles on the
interconnect. -/
structure InOrder (latency : Nat) (past : List Hierarchy) (h : Hierarchy) : Prop where
  /-- What `d` has handled from `s` comes first among what `s` has produced for `d`. -/
  fifo : ∀ s d, past.flatMap (·.dispatched s d) <+: past.flatMap (·.produced s d)
  /-- Behind it is what is on its way. -/
  channel : ∀ s d, past.flatMap (·.dispatched s d) ++ h.underWay s d
    = past.flatMap (·.produced s d)
  /-- Cycles are counted from the first one on. -/
  clock : past.map (·.cycle) = List.range past.length
  /-- In a cycle everything is delivered that was sent `latency` cycles ago, and nothing else. -/
  delivered : ∀ i (hi : i < past.length), past[i].deliveries
    = if hle : latency ≤ i then past[i - latency].sends else []
  /-- What was sent in the last cycles is still to be delivered. -/
  inFlight : h.net.inFlight.toList = (past.drop (past.length - latency)).flatMap (·.sends)
  /-- In every cycle the interconnect takes what is sent, and a node handles all that is queued. -/
  advances : ∀ g ∈ past, ∃ g', g.step = { hierarchy := g' } ∧ Advances g g'

/-- A hierarchy that has got somewhere advances in every cycle. -/
theorem Reached.advances (hr : Reached c t h) (hn : c.nodes ≤ 2 ^ 32)
    (hs : h.step = { hierarchy := h' }) : Advances h h' := by
  obtain ⟨P, s, hsound, hd⟩ := hr.depicts hn
  exact hd.advances hsound hs

namespace Ran

/-- The clock tells how many cycles a run has taken. -/
theorem clock (hr : Ran c t past h) (hn : c.nodes ≤ 2 ^ 32) :
    h.cycle = past.length ∧ past.map (·.cycle) = List.range past.length := by
  induction hr with
  | load hc ht =>
    obtain ⟨-, -, -, hcycle⟩ := of_create? hc
    exact ⟨hcycle, rfl⟩
  | step hr hs ih =>
    obtain ⟨hcycle, hpast⟩ := ih
    rw [(hr.reached.advances hn hs).cycle, List.length_append, List.length_singleton, hcycle,
      List.map_append, hpast, List.range_succ, List.map_singleton, hcycle]
    exact ⟨rfl, rfl⟩

/-- On the interconnect is what was sent in the last cycles. -/
theorem carries (hr : Ran c t past h) (hn : c.nodes ≤ 2 ^ 32) :
    h.net.Carries (max c.topology.linkLatency.toNat 1) (past.map (·.sends)) := by
  induction hr with
  | @load h hc ht =>
    obtain ⟨-, -, hnet, -⟩ := of_create? hc
    have hloaded : (h.load t).1.net = .ofLatency c.topology.linkLatency.toNat := hnet
    rw [hloaded]
    exact Interconnect.carries_nil rfl
  | @step past h h' hr hs ih =>
    have hcycle := (hr.clock hn).1
    have hnext := ih.cycle (by omega) h.sends
    rw [List.length_map, ← hcycle] at hnext
    rw [(hr.reached.advances hn hs).net, List.map_append, List.map_singleton]
    exact hnext

/-- What is delivered in a cycle was sent `latency` cycles ago. -/
theorem delivered (hr : Ran c t past h) (hn : c.nodes ≤ 2 ^ 32) (i : Nat) (hi : i < past.length) :
    past[i].deliveries = if hle : max c.topology.linkLatency.toNat 1 ≤ i then
      past[i - max c.topology.linkLatency.toNat 1].sends else [] := by
  induction hr with
  | load hc ht => cases hi
  | @step past h h' hr hs ih =>
    rw [List.length_append, List.length_singleton] at hi
    by_cases hlt : i < past.length
    · rw [List.getElem_append_left hlt, ih hlt]
      split
      · rw [List.getElem_append_left (by omega)]
      · rfl
    · obtain rfl : i = past.length := by omega
      have hlast : (past ++ [h])[past.length].deliveries
          = h.net.arrived ((past.map (·.sends)).length + 1) := by
        rw [List.getElem_concat_length rfl, deliveries, (hr.clock hn).1, List.length_map]
      rw [hlast, (hr.carries hn).arrived (by omega)]
      by_cases hle : max c.topology.linkLatency.toNat 1 ≤ past.length
      · rw [dif_pos hle, dif_pos (by simpa using hle)]
        simp only [List.getElem_map, List.length_map]
        rw [List.getElem_append_left]
      · rw [dif_neg hle, dif_neg (by simpa using hle)]

/-- What `d` has handled from `s`, followed by what is on its way, is what `s` has produced. -/
theorem channel (hr : Ran c t past h) (hn : c.nodes ≤ 2 ^ 32) (s d : NodeId) :
    past.flatMap (·.dispatched s d) ++ h.underWay s d = past.flatMap (·.produced s d) := by
  induction hr with
  | load hc ht =>
    obtain ⟨P, hd⟩ := create?_depicts hc hn
    rw [underWay_idle (hd.load t)]
    rfl
  | @step past h h' hr hs ih =>
    simp only [List.flatMap_append, List.flatMap_singleton, List.append_assoc]
    rw [(hr.reached.advances hn hs).channel, ← List.append_assoc, ih]

/-- Every hierarchy that a run has gone through has advanced. -/
theorem advances (hr : Ran c t past h) (hn : c.nodes ≤ 2 ^ 32) :
    ∀ g ∈ past, ∃ g', g.step = { hierarchy := g' } ∧ Advances g g' := by
  induction hr with
  | load hc ht => exact nofun
  | step hr hs ih =>
    intro g hg
    rcases List.mem_append.1 hg with hg | hg
    · exact ih g hg
    · obtain rfl := List.mem_singleton.1 hg
      exact ⟨_, hs, hr.reached.advances hn hs⟩

/-- Cycles that end without an error lead on. -/
theorem steps {n : Nat} (hr : Ran c t past h) (hs : (h.steps n).error = none) :
    Ran c t (past ++ trail n h) (h.steps n).hierarchy := by
  induction n generalizing past h with
  | zero =>
    rw [trail, List.append_nil]
    exact hr
  | succ n ih =>
    unfold Hierarchy.steps at hs ⊢
    split at hs
    · next next hstep =>
      have hrun := ih (hr.step hstep) hs
      rw [List.append_assoc, List.singleton_append] at hrun
      rw [trail, hstep]
      exact hrun
    · next stopped hne =>
      -- a cycle that ends with an error is where all ends
      exact absurd (show h.step = { hierarchy := h.step.hierarchy } by rw [← hs]) (hne _)

end Ran

end Hierarchy

end CacheCoherence
