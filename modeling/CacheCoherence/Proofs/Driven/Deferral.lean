import CacheCoherence.Proofs.Driven.Runs

/-!
# Deferral — parking a request changes nothing else

Whether a request can proceed may turn out late, with its transition looked up, a way asked for
or a register tried. Still the request is parked in a cache or a bank that is as it was: where a
way would have to be given back, the register that was free before is free yet, so it does not
come to that.
-/

namespace CacheCoherence

/-- On the way from the backlog `b` to `b'` the request `item` for `line` has been parked in the
cycle `now`, and nothing else has happened to it. -/
structure Backlog.Gains {α : Type} (b b' : Backlog α) (item : α) (line : Addr) (now : Nat) :
    Prop where
  retries : b'.retries = b.retries
  parked : ∃ e : Parked α, e.item = item ∧ e.line = line ∧ e.since = now ∧
    b'.parked = b.parked.park e ∧ b'.parked.toList.Perm (e :: b.parked.toList)

theorem Backlog.gains_park {α : Type} (b : Backlog α) (e : Parked α) :
    b.Gains (b.park e) e.item e.line e.since :=
  ⟨rfl, e, rfl, rfl, rfl, rfl, b.parked.perm_toList_park e⟩

namespace PrivateCache

/-- The cache `d` is `c` with the request parked. But for the backlog and the counters it is `c`:
in table, registers, outbound packets, link, responses and all else. -/
structure Defers (c : PrivateCache) (r : Request) (d : PrivateCache) : Prop where
  frame : { d with backlog := c.backlog, counters := c.counters } = c
  backlog : c.backlog.Gains d.backlog r (c.table.lineAddr r.addr) c.cycle

/-- What it means that an attempt ends in one way or the other: the request is parked, or nothing
is. -/
def Attempted (c : PrivateCache) (r : Request) : Ending → PrivateCache → Prop
  | .parked, d => c.Defers r d
  | .taken, d => c.backlog.Stirred d.backlog

theorem attempted_of_attempt {c d : PrivateCache} {r : Request} {fresh : Bool} {ending : Ending}
    (h : c.attempt r fresh = .ok (ending, d)) : c.Attempted r ending d := by
  cases ending with
  | parked =>
    obtain ⟨reason, watch, rfl⟩ := attempt_parked h
    exact ⟨rfl, c.backlog.gains_park _⟩
  | taken => exact attempt_taken h

end PrivateCache

namespace SharedBank

/-- The bank `d` is `c` with the request parked. But for the backlog and the counters it is `c`:
in table, registers, outbound packets, link and all else. -/
structure Defers (c : SharedBank) (msg : CoherenceMessage) (d : SharedBank) : Prop where
  frame : { d with backlog := c.backlog, counters := c.counters } = c
  backlog : c.backlog.Gains d.backlog msg (c.table.lineAddr msg.addr) c.cycle

/-- What it means that an attempt ends in one way or the other: the request is parked, or nothing
is. -/
def Attempted (c : SharedBank) (msg : CoherenceMessage) : Ending → SharedBank → Prop
  | .parked, d => c.Defers msg d
  | .taken, d => c.backlog.Stirred d.backlog

theorem attempted_of_attempt {c d : SharedBank} {msg : CoherenceMessage} {fresh : Bool}
    {ending : Ending} (h : c.attempt msg fresh = .ok (ending, d)) : c.Attempted msg ending d := by
  cases ending with
  | parked =>
    obtain ⟨reason, watch, rfl⟩ := attempt_parked h
    exact ⟨rfl, c.backlog.gains_park _⟩
  | taken => exact attempt_taken h

end SharedBank

/-- Whatever state a cache or a bank is in, a request that it ends up parking changes nothing else,
and one that it does not park adds nothing to the parked ones. -/
theorem defers_of_attempt :
    (∀ (c d : PrivateCache) (r : Request) (fresh : Bool) (ending : Ending),
      c.attempt r fresh = .ok (ending, d) → c.process r fresh = .ok d ∧ c.Attempted r ending d) ∧
    (∀ (c d : SharedBank) (msg : CoherenceMessage) (fresh : Bool) (ending : Ending),
      c.attempt msg fresh = .ok (ending, d) →
        c.process msg fresh = .ok d ∧ c.Attempted msg ending d) := by
  constructor
  · intro c d r fresh ending h
    refine ⟨?_, PrivateCache.attempted_of_attempt h⟩
    rw [PrivateCache.process, h]
    rfl
  · intro c d msg fresh ending h
    refine ⟨?_, SharedBank.attempted_of_attempt h⟩
    rw [SharedBank.process, h]
    rfl

/-- A cache and a bank whose one register is taken park a request for a line that they hold, once
its transition has turned out to need a register. -/
theorem defers_of_full : ∃ c d b b', PrivateCache.Driven c ∧ SharedBank.Driven b ∧
    c.attempt (.write 0) true = .ok (.parked, d) ∧
    b.attempt (.build .getS 0 { index := 2 }) true = .ok (.parked, b') ∧
    d.backlog.parked.toList.map Parked.reason = [.noRegister] ∧
    b'.backlog.parked.toList.map Parked.reason = [.noRegister] ∧
    c.Defers (.write 0) d ∧ b.Defers (.build .getS 0 { index := 2 }) b' := by
  let node : NodeId := { index := 0 }
  let near : NodeId := { index := 1 }
  let far : NodeId := { index := 2 }
  let read (a : Addr) : ClientInput := .request { core := 0, access := .read, addr := a }
  let asked : CoherenceMessage := .build .getS 0 far
  -- line 0 is filed first, and line 32 takes the register
  obtain ⟨c, hc, hcache⟩ := PrivateCache.exists_driven
    (fun c => (c.attempt (.write 0) true).toOption.map fun p =>
      (p.1, p.2.backlog.parked.toList.map Parked.reason))
    (show (PrivateCache.create? node .tiny {} (.single near)).toOption.bind (fun c =>
        (c.after? [[read 0], [.packet (.about 0 .grantS near node)], [read 32]]).map fun d =>
          (d.1.attempt (.write 0) true).toOption.map fun p =>
            (p.1, p.2.backlog.parked.toList.map Parked.reason))
      = some (some (.parked, [.noRegister])) by cbv)
  obtain ⟨b, hb, hbank⟩ := SharedBank.exists_driven
    (fun b => (b.attempt asked true).toOption.map fun p =>
      (p.1, p.2.backlog.parked.toList.map Parked.reason))
    (show (SharedBank.create? node .tiny {} (.single far)).toOption.bind (fun b =>
        (b.after? [[.about 0 .getE near node], [.supplied 0 far node],
          [.about 0 .unblockE near node], [.about 32 .getE near node]]).map fun d =>
            (d.attempt asked true).toOption.map fun p =>
              (p.1, p.2.backlog.parked.toList.map Parked.reason))
      = some (some (.parked, [.noRegister])) by cbv)
  obtain ⟨⟨ending, d⟩, hd, heq⟩ := Option.map_eq_some_iff.1 hcache
  obtain ⟨rfl, hdreasons⟩ := Prod.mk.inj heq
  obtain ⟨⟨ending, b'⟩, hb', heq⟩ := Option.map_eq_some_iff.1 hbank
  obtain ⟨rfl, hbreasons⟩ := Prod.mk.inj heq
  have hd := eq_ok_of_toOption hd
  have hb' := eq_ok_of_toOption hb'
  exact ⟨c, d, b, b', hc, hb, hd, hb', hdreasons, hbreasons,
    (defers_of_attempt.1 c d (.write 0) true .parked hd).2,
    (defers_of_attempt.2 b b' asked true .parked hb').2⟩

end CacheCoherence
