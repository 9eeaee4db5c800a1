import CacheCoherence.SharedBank.Basic

/-!
# Replacement in a shared bank — making room for a missing line

A bank may not drop a line that a client holds, so a replacement first takes the
line away from its holders. Once nobody holds the victim its data is written to
memory if it is dirty, and only then is the missing line asked of memory.
-/

namespace CacheCoherence

/-- The miss of a transaction that waits for `victim` to be evicted. -/
def ManagerTransaction.waitingFor? (victim : Handle) : ManagerTransaction → Option ManagerMiss
  | miss m => if m.stage = .awaitingVictim ∧ m.way = victim then some m else none
  | resident _ => none

namespace SharedBank

/-- Hands a line that left the table back to memory if its data is newer. -/
def writeBack (c : SharedBank) (line : Addr) (dirty : Bool) : SharedBank :=
  if dirty then
    { c with counters := { c.counters with writebacks := c.counters.writebacks + 1 } }.toMemory
      .write line
  else c

/-- Frees the way of an evicted line. The miss that waits for it, if there is
one, takes the way over and is asked of memory. -/
def finishEviction (c : SharedBank) (victim : Handle) (victimLine : Addr) :
    Except Fault SharedBank :=
  match c.mshr.findSome? (·.waitingFor? victim) with
  | none =>
      let (old, table) := c.table.release victim
      let c := { c with table }.writeBack victimLine (old.any LineEntry.dirty)
      .ok (c.wake (.evictionDone victimLine))
  | some (register, line, m) =>
      match c.table.replace? victim line with
      | none => .error (.lostReservation c.id line)
      | some (old, way, table) =>
          let mshr := c.mshr.assign register line (.miss { m with way, stage := .awaitingMemory })
          let c := { c with table, mshr }.writeBack victimLine old.dirty
          .ok ((c.toMemory .read line).wake (.evictionDone victimLine))

/-- Starts to evict the resident line `victimLine`, whose entry is `e`. -/
def startEviction (c : SharedBank) (victim : Handle) (victimLine : Addr)
    (e : LineEntry ManagerLine) : Except Fault SharedBank := do
  let t ← c.step victimLine e.controller .evict
  let c := { c with
    table := c.table.modify victim fun e => { e with evicting := true }
    counters := { c.counters with evictions := c.counters.evictions + 1 } }
  let c := c.commit victim victimLine t
  if t.next.isStable then c.finishEviction victim victimLine else return c

/-! ## What replacement does to the backlog -/

@[simp] theorem backlog_writeBack (c : SharedBank) (line : Addr) (dirty : Bool) :
    (c.writeBack line dirty).backlog = c.backlog := by
  cases dirty <;> rfl

theorem backlog_finishEviction {c d : SharedBank} {victim : Handle} {victimLine : Addr}
    (h : c.finishEviction victim victimLine = .ok d) :
    d.backlog = c.backlog.wake (.evictionDone victimLine) := by
  unfold finishEviction at h
  split at h
  · cases h
    rw [backlog_wake, backlog_writeBack]
  · split at h
    · cases h
    · cases h
      rw [backlog_wake, backlog_toMemory, backlog_writeBack]

theorem backlog_startEviction {c d : SharedBank} {victim : Handle} {victimLine : Addr}
    {e : LineEntry ManagerLine} (h : c.startEviction victim victimLine e = .ok d) :
    c.backlog.Stirred d.backlog := by
  obtain ⟨t, -, h⟩ := bind_eq_ok.1 h
  dsimp only at h
  split at h
  · rw [backlog_finishEviction h, backlog_commit]
    exact .wake ..
  · cases h
    rw [backlog_commit]
    exact .refl _

end SharedBank

end CacheCoherence
