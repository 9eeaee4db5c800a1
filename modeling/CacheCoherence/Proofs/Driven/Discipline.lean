import CacheCoherence.Proofs.Driven.Records
import CacheCoherence.Proofs.SharedBank.Refusals

/-!
# Discipline — a bank and its memory

Whatever a bank is driven to do, every line goes along its circle, from the first turn to the
last. So memory is asked for a line once for every miss, and again only after it has answered and
the line has gone; and what a line was written to goes back before the line is asked for again. A
memory that answers what it is asked, in whatever order, is never refused.
-/

namespace CacheCoherence.SharedBank

variable {given sent : List Packet} {past : List Turn} {c d : SharedBank} {X : Addr} {t : Turn}

/-! ## All turns -/

/-- The turns have tended every line of the bank, from a stage that is known. -/
structure Tended (start : Addr → LineStage) (past : List Turn) (c : SharedBank) : Prop where
  lineAddr : ∀ t ∈ past, ∀ a, t.before.table.lineAddr a = c.table.lineAddr a
  tends : ∀ t ∈ past, ∀ X, c.table.lineAddr X = X → t.Tends X
  run : ∀ X, c.table.lineAddr X = X → (start X).run (past.flatMap (·.events X)) = some (c.stage X)

variable {start : Addr → LineStage}

theorem Tended.refl (h : ∀ X, c.table.lineAddr X = X → start X = c.stage X) :
    Tended start [] c where
  lineAddr _ ht := absurd ht List.not_mem_nil
  tends _ ht := absurd ht List.not_mem_nil
  run X hX := congrArg some (h X hX)

theorem Akin.stage (h : Akin c d) (X : Addr) : d.stage X = c.stage X := by
  rw [SharedBank.stage, SharedBank.stage, fetching?, fetching?, entry?, entry?, h.mshr, h.table]

theorem Tended.akin (h : Tended start past c) (ha : Akin c d) : Tended start past d where
  lineAddr t ht a := by rw [h.lineAddr t ht, ha.table]
  tends t ht X hX := h.tends t ht X (by rw [← ha.table, hX])
  run X hX := by rw [h.run X (by rw [← ha.table, hX]), ha.stage]

theorem Tended.turn (h : Tended start past t.before) (ht : t.Sound) :
    Tended start (past ++ [t]) t.after := by
  constructor
  · intro t' ht' a
    rw [ht.lineAddr]
    rcases List.mem_append.1 ht' with ht' | ht'
    · exact h.lineAddr t' ht' a
    · rw [List.mem_singleton.1 ht']
  · intro t' ht' X hX
    rw [ht.lineAddr] at hX
    rcases List.mem_append.1 ht' with ht' | ht'
    · exact h.tends t' ht' X hX
    · rw [List.mem_singleton.1 ht']
      exact ht.tends hX
  · intro X hX
    rw [ht.lineAddr] at hX
    rw [List.flatMap_append, List.flatMap_singleton, LineStage.run_trans (h.run X hX)]
    exact (ht.tends hX).run

theorem Recorded.tended (h : Recorded given past sent c) : Tended (fun _ => .absent) past c := by
  refine h.induction (fun c hc => .refl fun X hX => ?_) (fun hq ha => hq.akin ha)
    fun hq ht => hq.turn ht
  have hrests := rests_create? (W := c.wiring) hc
  exact (hrests.toFiled.stage_eq hX).symm

theorem Turns.tended (h : Turns c past d) : Tended c.stage past d := by
  have hall := h.induction (Q := Tended c.stage) (fun hq ha => hq.akin ha)
    (fun hq ht => hq.turn ht) [] (.refl fun _ _ => rfl)
  exact hall

/-! ## Counting -/

/-- What is asked of memory about the line `X` by packets, in order. -/
def memoryOps (ps : List Packet) (X : Addr) : List MemoryOp := ps.filterMap (·.memoryOp? X)

/-- A line is awaited if its registers say so. -/
theorem awaits_stage (c : SharedBank) (X : Addr) (stage : FillStage) :
    (c.stage X).awaits stage = (c.fetching? X).any fun m => m.stage = stage := by
  rw [SharedBank.stage]
  cases c.fetching? X with
  | none => dsimp only; split <;> rfl
  | some m => rfl

namespace Turn

variable (t : Turn) (X : Addr)

theorem countP_missed : (t.events X).countP (·.isMiss) = (t.missedAt? X).isSome.toNat := by
  rw [t.countP_events]
  cases t.missedAt? X <;> simp [LineEvent.isMiss]

theorem count_supplied : (t.events X).count .supplied = (t.supplies X).toNat := by
  rw [List.count, t.countP_events]
  simp [beq_eq_decide]

theorem count_posted (op : MemoryOp) :
    (t.events X).count (.posted op) = (t.memoryOps X).count op := by
  rw [List.count, t.countP_events]
  simp [List.count, beq_eq_decide]

theorem count_left : (t.events X).count (.left true)
    = ((t.leaving? X).any fun e => e.dirty).toNat := by
  rw [List.count, t.countP_events]
  simp [beq_eq_decide]

end Turn

/-- What the events of all turns come to. -/
theorem countP_flatMap_events {f : LineEvent → Bool} {b : Turn → Bool}
    (hf : ∀ t : Turn, (t.events X).countP f = (b t).toNat) :
    (past.flatMap (·.events X)).countP f = past.countP b := by
  induction past with
  | nil => rfl
  | cons t rest ih =>
    rw [List.flatMap_cons, List.countP_append, ih, hf, List.countP_cons, Nat.add_comm]
    cases b t <;> rfl

theorem count_flatMap_events (op : MemoryOp) : (past.flatMap (·.events X)).count (.posted op)
    = (past.flatMap (·.memoryOps X)).count op := by
  rw [List.count_flatMap, List.count_flatMap]
  congr 2
  funext t
  exact t.count_posted X op

theorem Recorded.memoryOps_eq (h : Recorded given past sent c) (X : Addr) :
    memoryOps (sent ++ c.outlet.toList) X = past.flatMap (·.memoryOps X) := by
  -- no credit asks memory for anything
  have hcredit : ∀ p : Packet, (if !p.isCredit then p.memoryOp? X else none) = p.memoryOp? X := by
    intro p
    cases hp : p.payload <;> simp [Packet.isCredit, Packet.memoryOp?, Packet.memory?, hp]
  have hposted : past.flatMap (·.memoryOps X) = memoryOps (past.flatMap Turn.posted) X :=
    List.filterMap_flatMap.symm
  rw [hposted, ← h.posted, memoryOps, memoryOps, List.filterMap_append, List.filterMap_append,
    List.filterMap_filter]
  simp only [hcredit]

/-! ## What is asked and what is answered -/

/-- The record shows what has become of the line `X`. -/
structure Disciplined (past : List Turn) (sent : List Packet) (c : SharedBank) (X : Addr) :
    Prop where
  /-- The line has gone along its circle. -/
  course : LineStage.absent.run (past.flatMap (·.events X)) = some (c.stage X)
  /-- Memory has been asked in the order of the turns. -/
  asked : memoryOps (sent ++ c.outlet.toList) X = past.flatMap (·.memoryOps X)
  /-- Memory has supplied the line as often as it was asked for, unless it is waited for. -/
  reads : (memoryOps (sent ++ c.outlet.toList) X).count .read
    = past.countP (·.supplies X)
      + ((c.fetching? X).any fun m => m.stage = .awaitingMemory).toNat
  /-- Memory has been asked for the line as often as it was missed, unless it has no way yet. -/
  misses : past.countP (fun t => (t.missedAt? X).isSome)
    = (memoryOps (sent ++ c.outlet.toList) X).count .read
      + ((c.fetching? X).any fun m => m.stage = .awaitingVictim).toNat
  /-- When the line left the table nobody held it. -/
  leaves : ∀ t ∈ past, (t.before.entry? X).isSome = true → t.after.entry? X = none →
    ∃ e, t.leaving? X = some e ∧ e.controller.state = .I
  /-- It was handed back exactly when it left with newer data. -/
  writes : ∀ t ∈ past, .write ∈ t.memoryOps X ↔ ∃ e, t.leaving? X = some e ∧ e.dirty = true
  /-- Nothing else was asked about it in that turn, so it was handed back before it was asked for
  again. -/
  order : ∀ before t after, past = before ++ t :: after → .write ∈ t.memoryOps X →
    memoryOps (sent ++ c.outlet.toList) X
      = before.flatMap (·.memoryOps X) ++ .write :: after.flatMap (·.memoryOps X)

/-- No bank is seen while memory has yet to be told. -/
theorem stage_ne_owed (c : SharedBank) (X : Addr) : c.stage X ≠ .owed := by
  rw [SharedBank.stage]
  split
  · rintro ⟨⟩
  · split <;> rintro ⟨⟩

/-- Newer data goes back in the turn in which its line leaves. -/
theorem Turn.Tends.write_iff (h : t.Tends X) :
    .write ∈ t.memoryOps X ↔ ∃ e, t.leaving? X = some e ∧ e.dirty = true := by
  have hleft := LineStage.count_left h.run
  rw [t.count_left, t.count_posted, decide_eq_false (stage_ne_owed t.before X),
    decide_eq_false (stage_ne_owed t.after X)] at hleft
  simp only [Bool.toNat_false, Nat.add_zero] at hleft
  have hpos : ∀ b : Bool, 0 < b.toNat ↔ b = true := by decide
  rw [← List.count_pos_iff, ← hleft, hpos, Option.any_eq_true]

/-- Then nothing else is asked about the line. -/
theorem Turn.Tends.memoryOps_of_write (h : t.Tends X) (hwrite : .write ∈ t.memoryOps X) :
    t.memoryOps X = [.write] := by
  obtain ⟨e, hleaving, hdirty⟩ := h.write_iff.1 hwrite
  have hgone : (t.before.entry? X).isSome = true ∧ t.after.entry? X = none := by
    rw [leaving?] at hleaving
    split at hleaving
    · next hbefore hafter => exact ⟨by rw [hbefore]; rfl, hafter⟩
    · cases hleaving
  obtain ⟨e', hleaving', -, hops⟩ := h.leaves hgone.1 hgone.2
  obtain rfl := Option.some.inj (hleaving.symm.trans hleaving')
  rw [hops, if_pos hdirty]

theorem Recorded.disciplined (h : Recorded given past sent c) (hX : c.table.lineAddr X = X) :
    Disciplined past sent c X := by
  have htended := h.tended
  have hrun := htended.run X hX
  have hread := LineStage.count_read hrun
  have hmissed := LineStage.count_missed hrun
  have hsupplied : (past.flatMap (·.events X)).count .supplied = past.countP (·.supplies X) :=
    countP_flatMap_events fun t => t.count_supplied X
  have hasked := h.memoryOps_eq X
  rw [count_flatMap_events, hsupplied, awaits_stage] at hread
  rw [countP_flatMap_events (fun t => t.countP_missed X), count_flatMap_events,
    awaits_stage] at hmissed
  constructor
  · exact hrun
  · exact hasked
  · rw [hasked]
    exact hread
  · rw [hasked]
    exact hmissed
  · intro t ht hbefore hafter
    obtain ⟨e, hleaving, hI, -⟩ := (htended.tends t ht X hX).leaves hbefore hafter
    exact ⟨e, hleaving, hI⟩
  · exact fun t ht => (htended.tends t ht X hX).write_iff
  · rintro before t after rfl hwrite
    have ht := htended.tends t (by simp) X hX
    rw [hasked, List.flatMap_append, List.flatMap_cons, ht.memoryOps_of_write hwrite]
    rfl

/-! ## A memory that answers -/

/-- How many replies of memory the packets bring about the line `X`. -/
def answers (c : SharedBank) (ps : List Packet) (X : Addr) : Nat :=
  ps.countP fun p => p.supply?.any fun msg => c.table.lineAddr msg.addr = X

/-- The bank `c` has been built and driven, was given the packets `given` and has sent `sent`. Its
clients may do as they like, but memory replies about a line only as often as it was asked. -/
inductive Attended : List Packet → List Packet → SharedBank → Prop
  | create {id : NodeId} {config : NodeConfig} {tags : MessageTags} {route : Route}
      {c : SharedBank} (hc : create? id config tags route = .ok c) : Attended [] [] c
  | receive {given sent : List Packet} {c : SharedBank} (h : Attended given sent c) (p : Packet)
      (hp : ∀ msg, p.supply? = some msg → c.answers given (c.table.lineAddr msg.addr)
        < (memoryOps sent (c.table.lineAddr msg.addr)).count .read) :
      Attended (given ++ [p]) sent (c.receive p)
  | tick {given sent : List Packet} {c : SharedBank} (h : Attended given sent c)
      (hf : c.tick.fault = none) : Attended given (sent ++ c.tick.sent) c.tick.node

namespace Attended

theorem recorded (h : Attended given sent c) : ∃ past, Recorded given past sent c := by
  induction h with
  | create hc => exact ⟨[], .create hc⟩
  | receive _ p hp ih =>
    obtain ⟨past, ih⟩ := ih
    exact ⟨past, ih.receive p⟩
  | tick _ hf ih =>
    obtain ⟨past, ih⟩ := ih
    exact ⟨_, ih.tick hf⟩

/-- Memory has not replied more often than it was asked. -/
theorem answers_le (h : Attended given sent c) (X : Addr) :
    c.answers given X ≤ (memoryOps sent X).count .read := by
  induction h with
  | create hc => exact Nat.zero_le _
  | @receive given sent c h p hp ih =>
    have hsplit : (c.receive p).answers (given ++ [p]) X
        = c.answers given X + c.answers [p] X := List.countP_append
    rw [hsplit]
    by_cases hmine : ∃ msg, p.supply? = some msg ∧ c.table.lineAddr msg.addr = X
    · obtain ⟨msg, hmsg, rfl⟩ := hmine
      have hone : c.answers [p] (c.table.lineAddr msg.addr) ≤ 1 := List.countP_le_length
      have hless := hp msg hmsg
      omega
    · have hnone : c.answers [p] X = 0 := by
        refine List.countP_eq_zero.2 fun p' hp' hany => hmine ?_
        rw [List.mem_singleton.1 hp'] at hany
        simpa [Option.any_eq_true] using hany
      omega
  | @tick given sent c h hf ih =>
    obtain ⟨past, hrec⟩ := h.recorded
    have hsame : c.tick.node.answers given X = c.answers given X := by
      simp only [answers, lineAddr_tick hrec.stands hf]
    rw [hsame, memoryOps, List.filterMap_append, List.count_append]
    exact Nat.le_add_right_of_le ih

end Attended

/-- Memory's replies among the packets are all waited for. -/
def Expects (ps : List Packet) (c : SharedBank) : Prop :=
  ∀ X, c.table.lineAddr X = X → c.answers ps X ≤ ((c.stage X).awaits .awaitingMemory).toNat

/-- What has been supplied has been taken up. -/
theorem Tended.countP_supplies (h : Tended start past c) (X : Addr) :
    past.countP (·.supplies X) = c.answers (past.filterMap Turn.packet?) X := by
  have hall : ∀ ts : List Turn, (∀ t ∈ ts, ∀ a, t.before.table.lineAddr a = c.table.lineAddr a) →
      ts.countP (·.supplies X) = c.answers (ts.filterMap Turn.packet?) X := by
    intro ts hts
    induction ts with
    | nil => rfl
    | cons t rest ih =>
      have hrest := ih fun t' ht' => hts t' (List.mem_cons_of_mem t ht')
      have hline := hts t List.mem_cons_self
      cases hcause : t.cause with
      | packet p =>
        have hp : t.packet? = some p := by rw [Turn.packet?, hcause]
        rw [List.filterMap_cons_some hp, List.countP_cons, hrest, answers, answers,
          List.countP_cons, Turn.supplies, t.supply?_of_packet hcause]
        simp only [hline]
      | retry q =>
        have hp : t.packet? = none := by rw [Turn.packet?, hcause]
        rw [List.filterMap_cons_none hp, List.countP_cons, hrest, Turn.supplies, Turn.supply?,
          hcause]
        rfl
  exact hall past h.lineAddr

/-- Whatever is done in turns, every reply of memory that was taken up settles one that was
waited for. -/
theorem Turns.expects {p : Packet} {rest : List Packet} (h : Turns c past d)
    (hpast : past.filterMap Turn.packet? = [p]) (hc : Expects (p :: rest) c) : Expects rest d := by
  intro X hX
  have hline := h.lineAddr X
  have htended := h.tended
  have hread := LineStage.count_read (htended.run X hX)
  have hsupplied : (past.flatMap (·.events X)).count .supplied = past.countP (·.supplies X) :=
    countP_flatMap_events fun t => t.count_supplied X
  have hsame : ∀ ps, d.answers ps X = c.answers ps X := by
    intro ps
    simp only [answers, h.lineAddr]
  have hexpected := hc X (by rw [← hline, hX])
  have hsplit : c.answers (p :: rest) X = c.answers [p] X + c.answers rest X :=
    @List.countP_append _ _ [p] rest
  rw [hsupplied, htended.countP_supplies, hpast, hsame] at hread
  rw [hsame]
  omega

/-- One packet, with all that it causes. -/
theorem blameless_react {p : Packet} (rest : List Packet) (hc : Expects (p :: rest) c) :
    (c.react p).Blameless := by
  refine (blameless_dispatch fun msg hmsg => ?_).andThen fun _ => blameless_drain _
  have hexpected := hc (c.table.lineAddr msg.addr) (AddressLayout.lineAddr_lineAddr ..)
  have hone : 0 < c.answers (p :: rest) (c.table.lineAddr msg.addr) :=
    List.countP_pos_iff.2 ⟨p, List.mem_cons_self, by simp [hmsg]⟩
  rw [awaitsMemory]
  by_contra hno
  rw [Bool.eq_false_iff.2 hno] at hexpected
  simp only [Bool.toNat_false] at hexpected
  omega

theorem expects_react {p : Packet} {rest : List Packet} (h : ∃ P place, Stands P c place)
    (hf : (c.react p).fault = none) (hc : Expects (p :: rest) c) :
    (∃ P place, Stands P (c.react p).node place) ∧ Expects rest (c.react p).node := by
  have hturns := turns_react h hf
  refine ⟨hturns.stands h, hturns.expects ?_ hc⟩
  rw [List.filterMap_cons_some (f := Turn.packet?) (b := p) rfl, packet?_drainTurns]

/-- A bank that expects the replies of memory among its packets refuses none. -/
theorem blameless_tick (h : ∃ P place, Stands P c place) (hc : Expects c.inbound c) :
    c.tick.Blameless := by
  have hhandled : c.handled.Blameless := by
    refine Work.Blameless.through (Q := fun ps d => (∃ P place, Stands P d place) ∧ Expects ps d)
      ?_ ?_
    · rintro d p rest ⟨⟨P, place, hstands⟩, hd⟩
      have hqueued : ∃ P place, Stands P { d with inbound := rest } place :=
        ⟨P, place, hstands.akin ⟨rfl, rfl, rfl, rfl, rfl, rfl, rfl, rfl, rfl, rfl⟩⟩
      exact ⟨blameless_react rest hd, fun hf => expects_react hqueued hf hd⟩
    · obtain ⟨P, place, h⟩ := h
      exact ⟨⟨P, place, h.akin c.akin_beginCycle⟩, hc⟩
  exact hhandled.andThen fun _ => .done _ _

namespace Attended

/-- What waits to be handled is expected. -/
theorem expects (h : Attended given sent c) : Expects c.inbound c := by
  intro X hX
  obtain ⟨past, hrec⟩ := h.recorded
  have hle := h.answers_le X
  have hreads := (hrec.disciplined hX).reads
  have hgiven : c.answers given X
      = c.answers (past.filterMap Turn.packet?) X + c.answers c.inbound X := by
    rw [← hrec.taken]
    exact List.countP_append
  have hsent : (memoryOps (sent ++ c.outlet.toList) X).count .read
      = (memoryOps sent X).count .read + (memoryOps c.outlet.toList X).count .read := by
    rw [memoryOps, List.filterMap_append, List.count_append]
    rfl
  rw [hsent, hrec.tended.countP_supplies, ← awaits_stage] at hreads
  omega

end Attended

/-- However a bank is driven, it asks memory for every line that it misses and for no other, it
lets go only of lines that nobody holds, and it hands newer data back before it asks for the line
again. A memory that answers once what it is asked is never refused. -/
theorem memory_discipline :
    (∀ given past sent c, Recorded given past sent c → ∀ a,
      Disciplined past sent c (c.table.lineAddr a)) ∧
    (∀ given sent c, Attended given sent c → ∀ node line,
      c.tick.fault ≠ some (.unexpectedMemoryReply node line)) := by
  constructor
  · exact fun given past sent c h a => h.disciplined (AddressLayout.lineAddr_lineAddr ..)
  · intro given sent c h node line hf
    obtain ⟨past, hrec⟩ := h.recorded
    have hblameless := (blameless_tick hrec.stands h.expects).fault _ hf
    cases hblameless

/-- So it is of a line that was fetched, handed back as its client had written to it, and fetched
again; and a reply that was asked for is taken. -/
theorem memory_discipline_of_refetched :
    (∃ given past sent c, Recorded given past sent c ∧
      memoryOps (sent ++ c.outlet.toList) (c.table.lineAddr 0) = [.read, .write, .read] ∧
      (c.stage (c.table.lineAddr 0)).awaits .awaitingMemory = true ∧
      Disciplined past sent c (c.table.lineAddr 0)) ∧
    ∃ given sent c, Attended given sent c ∧ c.inbound.map (·.supply?.isSome) = [true] ∧
      ∀ node line, c.tick.fault ≠ some (.unexpectedMemoryReply node line) := by
  let node : NodeId := { index := 0 }
  let near : NodeId := { index := 1 }
  let far : NodeId := { index := 2 }
  let asked : Packet := .about 0 .getE near node
  constructor
  · -- line 64 takes the way of line 0, and line 0 takes it back
    let rounds : List (List Packet) :=
      [[asked], [.supplied 0 far node], [.about 0 .unblockE near node],
        [.about 64 .getE near node], [.about 0 .unblockDirty near node],
        [.supplied 64 far node], [.about 64 .unblockE near node], [.about 0 .getE far node],
        [.about 64 .unblockI near node]]
    have hx : (create? node .narrow {} (.single far)).toOption.bind
        (fun c => (c.afterWithin? 1 rounds).map fun run =>
          (memoryOps (run.2 ++ run.1.outlet.toList) (run.1.table.lineAddr 0),
            (run.1.stage (run.1.table.lineAddr 0)).awaits .awaitingMemory))
        = some ([.read, .write, .read], true) := by
      cbv
    obtain ⟨past, sent, c, h, hc⟩ := exists_recorded _ hx
    simp only [Prod.mk.injEq] at hc
    exact ⟨_, past, sent, c, h, hc.1, hc.2, memory_discipline.1 _ past sent c h 0⟩
  · have hx : (create? node .narrow {} (.single far)).toOption.bind
        (fun c => ((c.receive asked).tickWithin? 0).map fun run =>
          (run.1.table.lineAddr 0, (memoryOps run.2 0).count .read, run.1.inbound))
        = some (0, 1, []) := by
      cbv
    obtain ⟨c, hc, hx⟩ := Option.bind_eq_some_iff.1 hx
    obtain ⟨⟨d, sent⟩, hd, hseen⟩ := Option.map_eq_some_iff.1 hx
    simp only [Prod.mk.injEq] at hseen
    obtain ⟨hline, hreads, hinbound⟩ := hseen
    have htick := tick_of_tickWithin? hd
    have hbegun := (Attended.create (eq_ok_of_toOption hc)).receive asked (by rintro msg ⟨⟩)
    have hasked := hbegun.tick (htick ▸ rfl)
    rw [htick] at hasked
    have hready := hasked.receive (.supplied 0 far node) (by
      rintro msg ⟨⟩
      show _ < (memoryOps sent (d.table.lineAddr 0)).count .read
      rw [hline, hreads]
      exact Nat.one_pos)
    refine ⟨_, _, _, hready, ?_, memory_discipline.2 _ _ _ hready⟩
    show (d.inbound ++ [_]).map _ = _
    rw [hinbound]
    rfl

end CacheCoherence.SharedBank
