import CacheCoherence.PrivateCache.Replacement

/-!
# Admission to a private cache — what becomes of a processor request

A request that cannot proceed is parked where this turns out: before the line is looked
up, at the resident line, or when a register and a way are to be taken for a missing one
(`attempt`). All of this comes to a decision that needs no more than a look at the cache
(`admission`), which is then carried out (`attempt_eq`). A request waits behind a transaction
on its line, and, when it is new, also behind parked requests for its line.
-/

namespace CacheCoherence.PrivateCache

/-! ## Step by step -/

/-- Serves a request from the resident line behind `way`. -/
def serve (c : PrivateCache) (r : Request) (line : Addr) (way : Handle) (next : ClientState) :
    PrivateCache :=
  let c := { c with counters := { c.counters with hits := c.counters.hits + 1 } }
  let c := c.commit way next
  ({ c with table := c.table.touch way }.respond r).wake (.transactionDone line)

/-- Handles a request for the line `line`, which is resident. -/
def attemptResident (c : PrivateCache) (r : Request) (line : Addr) (way : Handle)
    (e : LineEntry ClientState) : Except Fault (Ending × PrivateCache) := do
  if e.evicting then return (.parked, c.park r line .lineEvicting line)
  let t ← c.step line e.controller (.processor r.access.operation)
  if t.next.isStable then return (.taken, c.serve r line way t.next)
  match c.mshr.reserve? line (.upgrade way r) with
  | some (_, mshr) =>
      let c := { c.countMiss with mshr }.commit way t.next
      return (.taken, { c with table := c.table.touch way }.perform line t.actions)
  | none => return (.parked, c.park r line .noRegister line)

/-- Handles a request for the line `line`, which is not resident. -/
def attemptAbsent (c : PrivateCache) (r : Request) (line : Addr) :
    Except Fault (Ending × PrivateCache) := do
  if c.mshr.isFull then return (.parked, c.park r line .noRegister line)
  let (reservation, table) := c.table.reserve line
  let c := { c with table }
  match reservation with
  | .free way =>
      let m := { state := .I, way, request := r, awaitsVictim := false }
      match c.mshr.reserve? line (.miss m) with
      | some (register, mshr) =>
          return (.taken, ← { c.countMiss with mshr }.issueFill register line m)
      | none =>
          let table := (c.table.release way).2
          return (.parked, { c with table }.park r line .noRegister line)
  | .victim victim =>
      let victimLine := (c.table.lineOf? victim).getD line
      match (c.table.entry? victim).filter fun e => !e.evicting && e.controller.isStable with
      | none => return (.parked, c.park r line .victimBusy victimLine)
      | some e =>
          let m := { state := .I, way := victim, request := r, awaitsVictim := true }
          match c.mshr.reserve? line (.miss m) with
          | some (_, mshr) =>
              return (.taken, ← { c.countMiss with mshr }.startEviction victim victimLine e)
          | none => return (.parked, c.park r line .noRegister line)
  | .busy pendingLine => return (.parked, c.park r line .victimBusy pendingLine)

/-- Handles a request of the processor and says how that ended. A request is `fresh` unless it
was parked before. -/
def attempt (c : PrivateCache) (r : Request) (fresh : Bool) :
    Except Fault (Ending × PrivateCache) :=
  let line := c.table.lineAddr r.addr
  if c.mshr.tracks line || (fresh && c.backlog.parked.addresses line) then
    .ok (.parked, c.park r line .linePending line)
  else
    match c.table.resident? line with
    | some (way, e) => c.attemptResident r line way e
    | none => c.attemptAbsent r line

/-- Handles a request of the processor. -/
def process (c : PrivateCache) (r : Request) (fresh : Bool) : Except Fault PrivateCache :=
  (c.attempt r fresh).map Prod.snd

/-- Counts a request that the processor just made. -/
def countRequest (c : PrivateCache) (r : Request) : PrivateCache :=
  match r.access with
  | .read =>
      { c with counters := { c.counters with processorReads := c.counters.processorReads + 1 } }
  | .write =>
      { c with counters := { c.counters with processorWrites := c.counters.processorWrites + 1 } }

/-! ## The decision -/

/-- What becomes of a request. -/
inductive Admission where
  /-- It is parked until something happens to the line `watch`. -/
  | park (reason : StallReason) (watch : Addr)
  /-- The resident line serves it. -/
  | hit (way : Handle) (next : ClientState)
  /-- The resident line asks its manager for more permission. -/
  | upgrade (register way : Handle) (t : ClientTransition)
  /-- The line is fetched into a free way, which is now reserved in `table`. -/
  | fill (register way : Handle) (table : LineTable ClientState)
  /-- The line is fetched once the resident victim is gone. -/
  | replace (register victim : Handle) (victimLine : Addr) (e : LineEntry ClientState)
deriving DecidableEq, Repr

/-- What becomes of a request for the line `line`, which is resident. -/
def admissionResident (c : PrivateCache) (r : Request) (line : Addr) (way : Handle)
    (e : LineEntry ClientState) : Except Fault Admission := do
  if e.evicting then return .park .lineEvicting line
  let t ← c.step line e.controller (.processor r.access.operation)
  if t.next.isStable then return .hit way t.next
  match c.mshr.free? with
  | some register => return .upgrade register way t
  | none => return .park .noRegister line

/-- What becomes of a request for the line `line`, which is not resident. -/
def admissionAbsent (c : PrivateCache) (line : Addr) : Admission :=
  match c.mshr.free? with
  | none => .park .noRegister line
  | some register =>
      match c.table.reserve line with
      | (.free way, table) => .fill register way table
      | (.busy pendingLine, _) => .park .victimBusy pendingLine
      | (.victim victim, _) =>
          let victimLine := (c.table.lineOf? victim).getD line
          match (c.table.entry? victim).filter fun e => !e.evicting && e.controller.isStable with
          | some e => .replace register victim victimLine e
          | none => .park .victimBusy victimLine

/-- What becomes of a request. -/
def admission (c : PrivateCache) (r : Request) (fresh : Bool) : Except Fault Admission :=
  let line := c.table.lineAddr r.addr
  if c.mshr.tracks line || (fresh && c.backlog.parked.addresses line) then
    .ok (.park .linePending line)
  else
    match c.table.resident? line with
    | some (way, e) => c.admissionResident r line way e
    | none => .ok (c.admissionAbsent line)

/-- Opens a transaction for more permission on the resident line behind `way`. -/
def startUpgrade (c : PrivateCache) (r : Request) (line : Addr) (register way : Handle)
    (t : ClientTransition) : PrivateCache :=
  let c := { c.countMiss with mshr := c.mshr.assign register line (.upgrade way r) }.commit way t.next
  { c with table := c.table.touch way }.perform line t.actions

/-- Opens a transaction for a missing line whose way is reserved in `table`. -/
def startFill (c : PrivateCache) (r : Request) (line : Addr) (register way : Handle)
    (table : LineTable ClientState) : Except Fault PrivateCache :=
  { c.countMiss with table }.issueFill register line
    { state := .I, way, request := r, awaitsVictim := false }

/-- Opens a transaction for a missing line and evicts the victim in its place. -/
def startReplacement (c : PrivateCache) (r : Request) (line : Addr) (register victim : Handle)
    (victimLine : Addr) (e : LineEntry ClientState) : Except Fault PrivateCache :=
  let m := { state := .I, way := victim, request := r, awaitsVictim := true }
  { c.countMiss with mshr := c.mshr.assign register line (.miss m) }.startEviction
    victim victimLine e

/-- Carries out what was decided on a request for the line `line`. -/
def carryOut (c : PrivateCache) (r : Request) (line : Addr) : Admission → Except Fault PrivateCache
  | .park reason watch => .ok (c.park r line reason watch)
  | .hit way next => .ok (c.serve r line way next)
  | .upgrade register way t => .ok (c.startUpgrade r line register way t)
  | .fill register way table => c.startFill r line register way table
  | .replace register victim victimLine e => c.startReplacement r line register victim victimLine e

/-- How a request ends for which this is decided. -/
def Admission.ending : Admission → Ending
  | .park _ _ => .parked
  | _ => .taken

/-- Carries out a decision and says how that ended. -/
def enact (c : PrivateCache) (r : Request) (line : Addr) (a : Admission) :
    Except Fault (Ending × PrivateCache) :=
  (c.carryOut r line a).map (a.ending, ·)

theorem attemptResident_eq (c : PrivateCache) (r : Request) (line : Addr) (way : Handle)
    (e : LineEntry ClientState) :
    c.attemptResident r line way e
      = (c.admissionResident r line way e).bind (c.enact r line) := by
  unfold attemptResident admissionResident Mshr.reserve?
  split
  · rfl
  · cases c.step line e.controller (.processor r.access.operation) with
    | error f => rfl
    | ok t =>
      show (if t.next.isStable then _ else _) = Except.bind (if t.next.isStable then _ else _) _
      split
      · rfl
      · cases c.mshr.free? <;> rfl

theorem attemptAbsent_eq (c : PrivateCache) (r : Request) (line : Addr) :
    c.attemptAbsent r line = c.enact r line (c.admissionAbsent line) := by
  unfold attemptAbsent admissionAbsent Mshr.isFull Mshr.reserve?
  cases hfree : c.mshr.free? with
  | none => rfl
  | some register =>
    generalize hres : c.table.reserve line = res
    obtain ⟨reservation, table⟩ := res
    -- the register that is free is there when it is taken, so nothing is undone
    simp only [hfree, Option.map_some, Option.isSome_some, Bool.not_true, Bool.false_eq_true,
      if_false]
    cases reservation with
    | free way =>
      have hfill := issueFill_assign { c.countMiss with table } register line
        (.miss { state := .I, way, request := r, awaitsVictim := false })
        { state := .I, way, request := r, awaitsVictim := false }
      exact (congrArg (· >>= fun d => pure (Ending.taken, d)) hfill).trans
        (bind_pure_comp (Ending.taken, ·) _)
    | victim victim =>
      obtain rfl : table = c.table := (LineTable.reserve_eq hres).resolve_left nofun
      dsimp only
      cases (c.table.entry? victim).filter fun e => !e.evicting && e.controller.isStable with
      | none => rfl
      | some e =>
        exact bind_pure_comp (Ending.taken, ·) (c.startReplacement r line register victim _ e)
    | busy pendingLine =>
      obtain rfl : table = c.table := (LineTable.reserve_eq hres).resolve_left nofun
      rfl

/-- The steps come to the decision, carried out. -/
theorem attempt_eq (c : PrivateCache) (r : Request) (fresh : Bool) :
    c.attempt r fresh
      = (c.admission r fresh).bind (c.enact r (c.table.lineAddr r.addr)) := by
  unfold attempt admission
  dsimp only
  split
  · rfl
  · split
    · exact attemptResident_eq ..
    · exact attemptAbsent_eq ..

theorem process_eq (c : PrivateCache) (r : Request) (fresh : Bool) :
    c.process r fresh = (do
      let decision ← c.admission r fresh
      c.carryOut r (c.table.lineAddr r.addr) decision) := by
  rw [process, attempt_eq]
  cases c.admission r fresh with
  | error f => rfl
  | ok a =>
    show ((c.carryOut r _ a).map _).map _ = c.carryOut r _ a
    cases c.carryOut r (c.table.lineAddr r.addr) a <;> rfl

/-! ## What a request does to the backlog

It is parked, with nothing else changed in the backlog, or at most wakes others. No request
does both. -/

theorem backlog_carryOut {c d : PrivateCache} {r : Request} {line : Addr} {a : Admission}
    (h : c.carryOut r line a = .ok d) (ha : a.ending = .taken) : c.backlog.Stirred d.backlog := by
  cases a with
  | park reason watch => cases ha
  | hit way next =>
    cases h
    exact .wake ..
  | upgrade register way t =>
    cases h
    rw [startUpgrade, backlog_perform]
    exact .refl _
  | fill register way table =>
    have hb := backlog_issueFill (show startFill .. = _ from h)
    exact .inl hb
  | replace register victim victimLine e =>
    have hb := backlog_startEviction (show startReplacement .. = _ from h)
    exact hb

theorem attempt_parked {c d : PrivateCache} {r : Request} {fresh : Bool}
    (h : c.attempt r fresh = .ok (.parked, d)) :
    ∃ reason watch, d = c.park r (c.table.lineAddr r.addr) reason watch := by
  rw [attempt_eq] at h
  obtain ⟨a, -, h⟩ := bind_eq_ok.1 h
  cases a with
  | park reason watch =>
    cases h
    exact ⟨reason, watch, rfl⟩
  | hit | upgrade | fill | replace =>
    obtain ⟨d', -, h⟩ := map_eq_ok h
    cases h

theorem attempt_taken {c d : PrivateCache} {r : Request} {fresh : Bool}
    (h : c.attempt r fresh = .ok (.taken, d)) : c.backlog.Stirred d.backlog := by
  rw [attempt_eq] at h
  obtain ⟨a, -, h⟩ := bind_eq_ok.1 h
  obtain ⟨d', hd, h⟩ := map_eq_ok h
  obtain ⟨ha, rfl⟩ := Prod.mk.inj h
  exact backlog_carryOut hd ha

theorem load_process {c d : PrivateCache} {r : Request} {fresh : Bool}
    (h : c.process r fresh = .ok d) :
    d.load = c.load ∨ d.load = c.load + 1 ∧ d.backlog.retries = c.backlog.retries := by
  obtain ⟨⟨ending, d⟩, hd, rfl⟩ := map_eq_ok h
  cases ending with
  | parked =>
    obtain ⟨reason, watch, rfl⟩ := attempt_parked hd
    exact .inr ⟨Backlog.load_park .., rfl⟩
  | taken => exact .inl (attempt_taken hd).load

end CacheCoherence.PrivateCache
