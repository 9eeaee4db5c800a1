import CacheCoherence.Proofs.Driven.Records
import CacheCoherence.Proofs.Driven.Wakeups
import CacheCoherence.Proofs.SharedBank.Misses
import CacheCoherence.Proofs.SharedBank.Resolution

/-!
# Resolved — every request of a client is resolved once

A request may be held back and tried again any number of times. Whatever becomes of it in the end,
it is counted once: as a hit or as a miss if it asks for a copy, as confirmed, ignored or dropped
if it is a notice of an eviction. A line that is missed is being fetched until it is filed.
-/

namespace CacheCoherence.SharedBank

variable {given sent : List Packet} {past : List Turn} {c : SharedBank}

/-- The requests that are parked. -/
def parkedRequests (c : SharedBank) : List CoherenceMessage :=
  c.backlog.parked.toList.map Parked.item

/-- The requests that have been taken up for the first time, in order. -/
def dispatched (past : List Turn) : List CoherenceMessage :=
  (past.filterMap Turn.packet?).filterMap (·.request?)

/-- The record accounts for the requests of all packets that the bank was given. -/
structure Resolved (given : List Packet) (past : List Turn) (sent : List Packet)
    (c : SharedBank) : Prop where
  taken : past.filterMap Turn.packet? ++ c.inbound = given
  /-- A request for a copy is a hit, a miss or parked. -/
  copies : (dispatched past).countP (fun q => !q.op.isEviction)
    = c.counters.hits + c.counters.misses
      + c.parkedRequests.countP fun q => !q.op.isEviction
  /-- A notice of an eviction is confirmed, ignored, dropped or parked. -/
  notices : (dispatched past).countP (fun q => q.op.isEviction)
    = (sent ++ c.outlet.toList).countP (·.grantsI) + c.counters.staleIgnored
      + c.counters.staleDropped + c.parkedRequests.countP fun q => q.op.isEviction
  /-- What is counted as a miss is so in a turn of its own. -/
  missed : (past.filterMap Turn.missed?).length = c.counters.misses
  /-- The registers list what was missed and has not been filed. -/
  missing : (past.filterMap Turn.missed? : Multiset (Addr × CoherenceMessage))
    = past.flatMap Turn.filled + c.missing

namespace Recorded

theorem resolves (h : Recorded given past sent c) : Resolves past c := by
  refine h.induction (fun c hc => ?_) (fun hq ha => hq.akin ha) fun hq ht => hq.turn ht
  have hnew := new_create? hc
  constructor <;> rw [hnew.counters, hnew.backlog] <;> rfl

theorem fetches (h : Recorded given past sent c) : Fetches past c := by
  refine h.induction (fun c hc => ?_) (fun hq ha => hq.akin ha) fun hq ht => hq.turn ht
  have hcounters := (new_create? hc).counters
  have hrests := rests_create? (W := c.wiring) hc
  constructor
  · rw [hcounters]
    rfl
  · ext ⟨X, q⟩
    exact (hrests.toFiled.count_missing X q).symm

end Recorded

/-- However a bank is driven, it resolves every request of a client once, and what it has missed
is being fetched until it is filed. -/
theorem resolved_of_recorded (h : Recorded given past sent c) : Resolved given past sent c := by
  have hitems : ∀ f : CoherenceMessage → Bool,
      (c.backlog.items.countP fun q => f q) = c.parkedRequests.countP f := by
    intro f
    rw [Backlog.items, h.driven.retries, Multiset.coe_nil, add_zero, Multiset.map_coe,
      Multiset.coe_countP]
    simp [parkedRequests]
  have hdispatched : dispatched past = past.filterMap Turn.arrival? := by
    rw [dispatched, List.filterMap_filterMap]
    rfl
  -- no credit is a confirmation
  have hgrants : (sent ++ c.outlet.toList).countP (·.grantsI)
      = (past.flatMap Turn.posted).countP (·.grantsI) := by
    rw [← h.posted, List.countP_append, List.countP_append, List.countP_filter]
    congr 1
    refine List.countP_congr fun p _ => ?_
    have hcredit : p.grantsI = true → p.isCredit = false := by
      cases hp : p.payload <;> simp [Packet.grantsI, Packet.coherence?, Packet.isCredit, hp]
    constructor
    · intro hp
      simp [hp, hcredit hp]
    · intro hp
      simp only [Bool.and_eq_true] at hp
      exact hp.1
  refine ⟨h.taken, ?_, ?_, h.fetches.counted, h.fetches.missing⟩
  · rw [hdispatched, h.resolves.copies, hitems]
  · rw [hdispatched, h.resolves.notices, hitems, hgrants]

/-- So it is where a request was hit and three missed, where notices have been confirmed, ignored
and dropped, and where two requests are parked while a line is fetched. -/
theorem resolved_of_contended : ∃ given past sent c, Recorded given past sent c ∧
    c.counters.hits = 1 ∧ c.counters.misses = 3 ∧ c.counters.staleIgnored = 1 ∧
    c.counters.staleDropped = 1 ∧ c.parkedRequests.map (·.op) = [.putE, .getE] ∧
    c.missing.map (·.1) = [64] ∧ Resolved given past sent c := by
  let node : NodeId := { index := 0 }
  let near : NodeId := { index := 1 }
  let far : NodeId := { index := 2 }
  -- line 0 is passed on, line 32 is given up, and line 64 takes the way of line 0
  let rounds : List (List Packet) :=
    [[.about 0 .getE near node, .about 32 .getE near node],
      [.supplied 0 far node, .supplied 32 far node],
      [.about 0 .unblockE near node, .about 32 .unblockE near node],
      [.about 0 .getS far node, .about 0 .putM near node, .about 32 .putM near node],
      [.about 0 .clean near node, .about 0 .unblockS far node, .about 96 .putE near node],
      [.about 64 .getE far node, .about 0 .putE far node, .about 64 .getE near node]]
  have hx : (create? node .narrow {} (.single far)).toOption.bind
      (fun c => (c.afterWithin? 1 rounds).map fun run =>
        (run.1.counters.hits, run.1.counters.misses, run.1.counters.staleIgnored,
          run.1.counters.staleDropped, run.1.parkedRequests.map (·.op), run.1.missing.map (·.1)))
      = some (1, 3, 1, 1, [.putE, .getE], [64]) := by
    cbv
  obtain ⟨past, sent, c, h, hc⟩ := exists_recorded _ hx
  simp only [Prod.mk.injEq] at hc
  obtain ⟨hhits, hmisses, hignored, hdropped, hparked, hmissing⟩ := hc
  exact ⟨rounds.flatten, past, sent, c, h, hhits, hmisses, hignored, hdropped, hparked, hmissing,
    resolved_of_recorded h⟩

end CacheCoherence.SharedBank
