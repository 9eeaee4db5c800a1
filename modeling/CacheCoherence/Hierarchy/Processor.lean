import CacheCoherence.PrivateCache.Tick
import CacheCoherence.Trace

/-!
# Processor — a core and its private cache

A core works its accesses off one at a time: the next one is issued when the last
one has been answered.
-/

namespace CacheCoherence

/-- What a core has done so far. -/
structure CoreProgress where
  /-- Accesses completed. -/
  completed : Nat := 0
  /-- Sum over completed accesses of the cycles from issue to response. -/
  totalLatency : Nat := 0
deriving DecidableEq, Repr, Inhabited

/-- Cycles per completed access. -/
def CoreProgress.averageLatency (p : CoreProgress) : Float :=
  Decimal.ratio p.totalLatency p.completed

/-- A core. -/
structure Core where
  /-- Accesses to come, in order. -/
  pending : List Request := []
  /-- An access was issued and is not answered yet. -/
  waiting : Bool := false
  progress : CoreProgress := {}
deriving DecidableEq, Repr, Inhabited

namespace Core

/-- Nothing is to come and nothing is awaited. -/
def isDone (c : Core) : Bool := !c.waiting && c.pending.isEmpty

/-- The access that the core issues at cycle `now`, and the core that waits for it. -/
def issue? (c : Core) (now : Nat) : Option (Request × Core) :=
  match c.waiting, c.pending with
  | false, r :: rest => some ({ r with issuedAt := now }, { c with pending := rest, waiting := true })
  | _, _ => none

/-- The core once `r` was answered at cycle `now`. -/
def answer (c : Core) (now : Nat) (r : Request) : Core :=
  { c with
    waiting := false
    progress := {
      completed := c.progress.completed + 1
      totalLatency := c.progress.totalLatency + (now - r.issuedAt) } }

end Core

/-- A core with its private cache. -/
structure Processor where
  core : Core := {}
  cache : PrivateCache
deriving DecidableEq, Repr

namespace Processor

/-- Gives the core more accesses. -/
def enqueue (p : Processor) (accesses : List TraceEntry) : Processor :=
  let requests := accesses.map fun e => { core := e.core.toNat, access := e.access, addr := e.addr }
  { p with core := { p.core with pending := p.core.pending ++ requests } }

/-- Hands the core's next access to the cache, unless the core waits or is done. -/
def issue (p : Processor) (now : Nat) : Processor :=
  match p.core.issue? now with
  | some (r, core) => { core, cache := p.cache.request r }
  | none => p

/-- One cycle of the cache; the core takes note of the answers. -/
def tick (now : Nat) (p : Processor) : Work Processor :=
  let (w, answered) := p.cache.tick
  { w with node := { core := answered.foldl (·.answer now) p.core, cache := w.node } }

/-- Neither the core nor the cache has anything to do. -/
def isIdle (p : Processor) : Bool := p.core.isDone && p.cache.isIdle

end Processor

end CacheCoherence
