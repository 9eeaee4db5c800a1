import CacheCoherence.PrivateCache.Basic

/-!
# Replacement in a private cache — making room for a missing line

A miss that finds its set full first evicts a resident line. The request for the
missing line is posted only once the eviction is over and the victim's way is
reserved for it. A clean shared victim is dropped at once; an exclusive one is
given up in a transaction of its own.
-/

namespace CacheCoherence

/-- The miss of a transaction that waits for `victim` to be evicted. -/
def ClientTransaction.waitingFor? (victim : Handle) : ClientTransaction → Option ClientMiss
  | miss m => if m.awaitsVictim ∧ m.way = victim then some m else none
  | upgrade _ _ => none

namespace PrivateCache

/-- Posts the request for a missing line whose way is reserved. -/
def issueFill (c : PrivateCache) (register : Handle) (line : Addr) (m : ClientMiss) :
    Except Fault PrivateCache := do
  let t ← c.step line m.state (.processor m.request.access.operation)
  let mshr := c.mshr.assign register line (.miss { m with state := t.next })
  return ({ c with mshr } : PrivateCache).perform line t.actions

/-- Frees the way of an evicted line. The miss that waits for it, if there is
one, takes the way over and is requested. -/
def finishEviction (c : PrivateCache) (victim : Handle) (victimLine : Addr) :
    Except Fault PrivateCache :=
  match c.mshr.findSome? (·.waitingFor? victim) with
  | none =>
      let table := (c.table.release victim).2
      .ok (({ c with table } : PrivateCache).wake (.evictionDone victimLine))
  | some (register, line, m) =>
      match c.table.replace? victim line with
      | none => .error (.lostReservation c.id line)
      | some (_, way, table) => do
          let c ← ({ c with table } : PrivateCache).issueFill register line
            { m with way, awaitsVictim := false }
          return c.wake (.evictionDone victimLine)

/-- Starts to evict the resident line `victimLine`, whose entry is `e`. -/
def startEviction (c : PrivateCache) (victim : Handle) (victimLine : Addr)
    (e : LineEntry ClientState) : Except Fault PrivateCache := do
  let t ← c.step victimLine e.controller (.processor .evict)
  let c := { c with
    table := c.table.modify victim fun e => { e with evicting := true }
    counters := { c.counters with
      evictions := c.counters.evictions + 1
      writebacks := c.counters.writebacks + e.dirty.toNat } }
  let c := (c.commit victim t.next).perform victimLine t.actions
  if t.next.isInvalid then c.finishEviction victim victimLine else return c

/-- What the register held before does not matter. -/
theorem issueFill_assign (c : PrivateCache) (register : Handle) (line : Addr)
    (v : ClientTransaction) (m : ClientMiss) :
    ({ c with mshr := c.mshr.assign register line v } : PrivateCache).issueFill register line m
      = c.issueFill register line m := by
  simp only [issueFill, step, Mshr.assign_assign]

/-! ## What replacement does to the backlog -/

theorem backlog_issueFill {c d : PrivateCache} {register : Handle} {line : Addr} {m : ClientMiss}
    (h : c.issueFill register line m = .ok d) : d.backlog = c.backlog := by
  obtain ⟨t, -, h⟩ := bind_eq_ok.1 h
  cases h
  exact backlog_perform ..

theorem backlog_finishEviction {c d : PrivateCache} {victim : Handle} {victimLine : Addr}
    (h : c.finishEviction victim victimLine = .ok d) :
    d.backlog = c.backlog.wake (.evictionDone victimLine) := by
  unfold finishEviction at h
  split at h
  · cases h
    rfl
  · split at h
    · cases h
    · obtain ⟨d', hf, h⟩ := bind_eq_ok.1 h
      cases h
      rw [backlog_wake, backlog_issueFill hf]

theorem backlog_startEviction {c d : PrivateCache} {victim : Handle} {victimLine : Addr}
    {e : LineEntry ClientState} (h : c.startEviction victim victimLine e = .ok d) :
    c.backlog.Stirred d.backlog := by
  obtain ⟨t, -, h⟩ := bind_eq_ok.1 h
  dsimp only at h
  split at h
  · rw [backlog_finishEviction h, backlog_perform, backlog_commit]
    exact .wake ..
  · cases h
    rw [backlog_perform, backlog_commit]
    exact .refl _

end PrivateCache

end CacheCoherence
