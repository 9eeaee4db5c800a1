import CacheCoherence.Proofs.Driven.Runs
import CacheCoherence.Proofs.SharedBank.Turns

/-!
# Records — all the turns of a bank

Of a bank that is driven there is a record of the turns that it has taken and of the packets that
it has put on the interconnect. What every turn keeps holds of the record, and what the turns have
posted has left the bank or is about to, in the same order.
-/

namespace CacheCoherence.SharedBank

/-- The bank `c` has been built and driven. It was given the packets `given`, has taken the turns
`past` and has sent `sent`, each in order. -/
inductive Recorded : List Packet → List Turn → List Packet → SharedBank → Prop
  | create {id : NodeId} {config : NodeConfig} {tags : MessageTags} {route : Route}
      {c : SharedBank} (hc : create? id config tags route = .ok c) : Recorded [] [] [] c
  | receive {given sent : List Packet} {past : List Turn} {c : SharedBank}
      (h : Recorded given past sent c) (p : Packet) :
      Recorded (given ++ [p]) past sent (c.receive p)
  | tick {given sent : List Packet} {past : List Turn} {c : SharedBank}
      (h : Recorded given past sent c) (hf : c.tick.fault = none) :
      Recorded given (past ++ c.turns) (sent ++ c.tick.sent) c.tick.node

variable {given sent : List Packet} {past : List Turn} {c d : SharedBank}

theorem Recorded.driven (h : Recorded given past sent c) : c.Driven := by
  induction h with
  | create hc => exact .create hc
  | receive _ p ih => exact ih.receive p
  | tick _ hf ih => exact ih.tick hf

/-- Of every driven bank there is a record. -/
theorem Driven.recorded (h : c.Driven) : ∃ given past sent, Recorded given past sent c := by
  induction h with
  | create hc => exact ⟨[], [], [], .create hc⟩
  | receive _ p ih =>
    obtain ⟨given, past, sent, ih⟩ := ih
    exact ⟨given ++ [p], past, sent, ih.receive p⟩
  | tick _ hf ih =>
    obtain ⟨given, past, sent, ih⟩ := ih
    exact ⟨given, _, _, ih.tick hf⟩

/-- What is known of a new bank beside its lines. -/
structure New (c : SharedBank) : Prop where
  counters : c.counters = {}
  backlog : c.backlog = {}
  inbound : c.inbound = []
  outlet : c.outlet.toList = []

theorem new_create? {id : NodeId} {config : NodeConfig} {tags : MessageTags} {route : Route}
    (hc : create? id config tags route = .ok c) : New c := by
  obtain ⟨_, -, hc⟩ := bind_eq_ok.1 hc
  obtain ⟨_, -, hc⟩ := bind_eq_ok.1 hc
  obtain ⟨table, -, hc⟩ := bind_eq_ok.1 hc
  cases hc
  exact ⟨rfl, rfl, rfl, rfl⟩

/-! ## A cycle -/

/-- Nothing has happened when a cycle begins. -/
theorem akin_beginCycle (c : SharedBank) : Akin c c.beginCycle :=
  ⟨rfl, rfl, rfl, rfl, rfl, rfl, rfl, rfl, rfl, rfl⟩

theorem handled_of_tick (hf : c.tick.fault = none) :
    c.handled.fault = none ∧ c.tick.node = c.handled.node.flush.node :=
  have htick : c.tick = c.handled.andThen flush := rfl
  have hhandled := (Work.andThen_fault_eq_none.1 (htick ▸ hf)).1
  ⟨hhandled, Work.andThen_node hhandled⟩

/-- The turns of a cycle that meets no fault. -/
theorem turns_of_tick (h : ∃ P place, Stands P c place) (hf : c.tick.fault = none) :
    Turns c.beginCycle c.turns c.handled.node ∧ Akin c.handled.node c.tick.node := by
  obtain ⟨hhandled, hnode⟩ := handled_of_tick hf
  rw [hnode]
  exact ⟨turns_handled h hhandled, rfl, rfl, rfl, rfl, rfl, rfl, rfl, rfl, rfl, rfl⟩

theorem lineAddr_tick (h : ∃ P place, Stands P c place) (hf : c.tick.fault = none) (a : Addr) :
    c.tick.node.table.lineAddr a = c.table.lineAddr a := by
  obtain ⟨hturns, hdone⟩ := turns_of_tick h hf
  rw [hdone.table, hturns.lineAddr, c.akin_beginCycle.table]

namespace Recorded

/-- What a bank does it does in good order. -/
theorem stands (h : Recorded given past sent c) : ∃ P place, Stands P c place := by
  induction h with
  | @create _ _ _ _ c hc =>
    have hrests := rests_create? (W := c.wiring) hc
    exact ⟨_, _, { hrests with
      tags := rfl, memories := fun _ => rfl, lineOf := fun _ => rfl, wanted := fun _ => trivial }⟩
  | receive _ p ih =>
    obtain ⟨P, place, ih⟩ := ih
    exact ⟨P, place, ih.akin ⟨rfl, rfl, rfl, rfl, rfl, rfl, rfl, rfl, rfl, rfl⟩⟩
  | @tick _ _ _ c _ hf ih =>
    obtain ⟨hturns, hakin⟩ := turns_of_tick ih hf
    have hbegun : ∃ P place, Stands P c.beginCycle place := by
      obtain ⟨P, place, ih⟩ := ih
      exact ⟨P, place, ih.akin c.akin_beginCycle⟩
    obtain ⟨P, place, hstands⟩ := hturns.stands hbegun
    exact ⟨P, place, hstands.akin hakin⟩

/-- What a new bank has and every turn keeps holds of the record. -/
theorem induction {Q : List Turn → SharedBank → Prop}
    (hcreate : ∀ {id config tags route} c, create? id config tags route = .ok c → Q [] c)
    (hakin : ∀ {past c d}, Q past c → Akin c d → Q past d)
    (hturn : ∀ {past t}, Q past t.before → t.Sound → Q (past ++ [t]) t.after)
    (h : Recorded given past sent c) : Q past c := by
  induction h with
  | create hc => exact hcreate _ hc
  | receive _ p ih => exact hakin ih ⟨rfl, rfl, rfl, rfl, rfl, rfl, rfl, rfl, rfl, rfl⟩
  | tick h hf ih =>
    obtain ⟨hturns, hdone⟩ := turns_of_tick h.stands hf
    have hall := hturns.induction (Q := Q) (fun hq ha => hakin hq ha) (fun hq ht => hturn hq ht) _
      (hakin ih (akin_beginCycle _))
    exact hakin hall hdone

/-- Whatever is about to leave the bank is the bank's own. -/
theorem proper (h : Recorded given past sent c) : c.port.Proper := by
  induction h with
  | create hc =>
    have hout := (new_create? hc).outlet
    exact fun p hp => absurd (hout ▸ hp : p ∈ []) List.not_mem_nil
  | receive _ p ih => exact ih
  | tick h hf ih =>
    have hround := orderly_round ih hf
    intro p hp
    have hissued := hround.issued p (hround.order ▸ List.mem_append_right _ hp)
    rwa [Port.Issues, ← hround.id] at hissued

/-- Every packet that was given is taken up in a turn, unless it still waits. -/
theorem taken (h : Recorded given past sent c) :
    past.filterMap Turn.packet? ++ c.inbound = given := by
  induction h with
  | create hc => exact (new_create? hc).inbound
  | @receive given sent past c h p ih =>
    rw [← ih, List.append_assoc]
    rfl
  | @tick given sent past c h hf ih =>
    have hinbound : c.tick.node.inbound = [] := (orderly_round h.proper hf).inbound
    have hturns : c.turns.filterMap Turn.packet? = c.inbound := packet?_packetTurns ..
    rw [List.filterMap_append, hturns, hinbound, List.append_nil, ih]

/-- What has been posted has left the bank or is about to leave it, in the order in which it was
posted. -/
theorem posted (h : Recorded given past sent c) :
    sent.filter (!·.isCredit) ++ c.outlet.toList = past.flatMap Turn.posted := by
  induction h with
  | create hc =>
    rw [(new_create? hc).outlet]
    rfl
  | receive _ p ih => exact ih
  | @tick given sent past c h hf ih =>
    have hround := orderly_round h.proper hf
    have hturns := (turns_of_tick h.stands hf).1.posted
    have hmade : c.round.made = c.turns.flatMap Turn.posted := by
      rw [Round.made]
      show c.handled.node.outlet.delay.toList.drop c.outlet.delay.toList.length = _
      rw [hturns]
      exact List.drop_left
    have horder : c.tick.sent.filter (!·.isCredit) ++ c.tick.node.outlet.toList
        = c.outlet.toList ++ c.round.made := hround.order
    rw [List.filter_append, List.append_assoc, horder, hmade, List.flatMap_append, ← ih,
      List.append_assoc]

/-! ## Records of runs that are computed -/

theorem arrive (h : Recorded given past sent c) (packets : List Packet) :
    Recorded (given ++ packets) past sent { c with inbound := c.inbound ++ packets } := by
  induction packets generalizing c given with
  | nil => simpa using h
  | cons p rest ih =>
    have hone : Recorded (given ++ [p]) past sent { c with inbound := c.inbound ++ [p] } :=
      h.receive p
    simpa using ih hone

theorem afterWithin? {n : Nat} {more : List Packet} {rounds : List (List Packet)}
    (h : Recorded given past sent c) (hd : c.afterWithin? n rounds = some (d, more)) :
    ∃ past', Recorded (given ++ rounds.flatten) past' (sent ++ more) d := by
  induction rounds generalizing c given past sent more with
  | nil =>
    cases hd
    exact ⟨past, by simpa using h⟩
  | cons packets rest ih =>
    obtain ⟨⟨node, sent'⟩, htick, hd⟩ := Option.bind_eq_some_iff.1 hd
    obtain ⟨⟨e, more'⟩, hrest, heq⟩ := Option.map_eq_some_iff.1 hd
    cases heq
    have hnode := (h.arrive packets).tick
    rw [tick_of_tickWithin? htick] at hnode
    simpa [Work.done] using ih (hnode rfl) hrest

end Recorded

/-- What is computed of a bank that is built and driven holds of a bank with a record. -/
theorem exists_recorded {id : NodeId} {config : NodeConfig} {tags : MessageTags} {route : Route}
    {n : Nat} {rounds : List (List Packet)} {α : Type} {x : α} (f : SharedBank × List Packet → α)
    (hx : (create? id config tags route).toOption.bind
      (fun c => (c.afterWithin? n rounds).map f) = some x) :
    ∃ past sent c, Recorded rounds.flatten past sent c ∧ f (c, sent) = x := by
  obtain ⟨c, hc, hx⟩ := Option.bind_eq_some_iff.1 hx
  obtain ⟨⟨d, sent⟩, hd, rfl⟩ := Option.map_eq_some_iff.1 hx
  obtain ⟨past, h⟩ := (Recorded.create (eq_ok_of_toOption hc)).afterWithin? hd
  exact ⟨past, sent, d, h, rfl⟩

end CacheCoherence.SharedBank
