import CacheCoherence.SharedBank.Replacement

/-!
# Admission to a shared bank — what becomes of a client request

As in a private cache a request that cannot proceed is parked where this turns out
(`attempt`), and the steps come to a decision that is taken by looking and then carried out
(`attempt_eq`). A request whose answer needs the clients' word occupies a register until they
have given it. An eviction notice for a line that the bank no longer holds is dropped.
-/

namespace CacheCoherence.SharedBank

/-! ## Step by step -/

/-- Counts a request for a copy of a resident line. -/
def countHit (c : SharedBank) (op : Opcode) : SharedBank :=
  if op.isEviction then c
  else { c with counters := { c.counters with hits := c.counters.hits + 1 } }

/-- Applies a request's transition to the resident line behind `way`. -/
def apply (c : SharedBank) (msg : CoherenceMessage) (line : Addr) (way : Handle)
    (t : ManagerTransition) : SharedBank :=
  let c := (c.countHit msg.op).commit way line t
  { c with table := c.table.touch way }

/-- Drops an eviction notice. -/
def dropNotice (c : SharedBank) (line : Addr) : SharedBank :=
  let counters := { c.counters with staleDropped := c.counters.staleDropped + 1 }
  { c with counters }.wake (.transactionDone line)

/-- Handles a request for the line `line`, which is resident. -/
def attemptResident (c : SharedBank) (msg : CoherenceMessage) (line : Addr) (way : Handle)
    (e : LineEntry ManagerLine) : Except Fault (Ending × SharedBank) := do
  if e.evicting then return (.parked, c.park msg line .lineEvicting line)
  let t ← c.step line e.controller (.request msg.op msg.src)
  if t.next.isStable then
    return (.taken, (c.apply msg line way t).wake (.transactionDone line))
  match c.mshr.reserve? line (.resident way) with
  | some (_, mshr) => return (.taken, { c with mshr }.apply msg line way t)
  | none => return (.parked, c.park msg line .noRegister line)

/-- Handles a request for the line `line`, which is not resident. -/
def attemptAbsent (c : SharedBank) (msg : CoherenceMessage) (line : Addr) :
    Except Fault (Ending × SharedBank) := do
  if msg.op.isEviction then return (.taken, c.dropNotice line)
  if c.mshr.isFull then return (.parked, c.park msg line .noRegister line)
  let (reservation, table) := c.table.reserve line
  let c := { c with table }
  match reservation with
  | .free way =>
      let m := { controller := .initial, way, request := msg, stage := .awaitingMemory }
      match c.mshr.reserve? line (.miss m) with
      | some (_, mshr) => return (.taken, { c.countMiss with mshr }.toMemory .read line)
      | none =>
          let table := (c.table.release way).2
          return (.parked, { c with table }.park msg line .noRegister line)
  | .victim victim =>
      let victimLine := (c.table.lineOf? victim).getD line
      match (c.table.entry? victim).filter fun e => !e.evicting && e.controller.isStable with
      | none => return (.parked, c.park msg line .victimBusy victimLine)
      | some e =>
          let m :=
            { controller := .initial, way := victim, request := msg, stage := .awaitingVictim }
          match c.mshr.reserve? line (.miss m) with
          | some (_, mshr) =>
              return (.taken, ← { c.countMiss with mshr }.startEviction victim victimLine e)
          | none => return (.parked, c.park msg line .noRegister line)
  | .busy pendingLine => return (.parked, c.park msg line .victimBusy pendingLine)

/-- Handles a client request and says how that ended. A request is `fresh` unless it was parked
before. -/
def attempt (c : SharedBank) (msg : CoherenceMessage) (fresh : Bool) :
    Except Fault (Ending × SharedBank) :=
  let line := c.table.lineAddr msg.addr
  if c.mshr.tracks line || (fresh && c.backlog.parked.addresses line) then
    .ok (.parked, c.park msg line .linePending line)
  else
    match c.table.resident? line with
    | some (way, e) => c.attemptResident msg line way e
    | none => c.attemptAbsent msg line

/-- Handles a client request. -/
def process (c : SharedBank) (msg : CoherenceMessage) (fresh : Bool) : Except Fault SharedBank :=
  (c.attempt msg fresh).map Prod.snd

/-! ## The decision -/

/-- What becomes of a client request. -/
inductive Admission where
  /-- It is parked until something happens to the line `watch`. -/
  | park (reason : StallReason) (watch : Addr)
  /-- The resident line settles it at once. -/
  | settle (way : Handle) (t : ManagerTransition)
  /-- The resident line settles it once its clients have answered. -/
  | arbitrate (register way : Handle) (t : ManagerTransition)
  /-- It gives up a line that the bank does not hold. -/
  | drop
  /-- The line is fetched into a free way, which is now reserved in `table`. -/
  | fetch (register way : Handle) (table : LineTable ManagerLine)
  /-- The line is fetched once the resident victim is gone. -/
  | replace (register victim : Handle) (victimLine : Addr) (e : LineEntry ManagerLine)
deriving DecidableEq, Repr

/-- What becomes of a request for the line `line`, which is resident. -/
def admissionResident (c : SharedBank) (msg : CoherenceMessage) (line : Addr) (way : Handle)
    (e : LineEntry ManagerLine) : Except Fault Admission := do
  if e.evicting then return .park .lineEvicting line
  let t ← c.step line e.controller (.request msg.op msg.src)
  if t.next.isStable then return .settle way t
  match c.mshr.free? with
  | some register => return .arbitrate register way t
  | none => return .park .noRegister line

/-- What becomes of a request for the line `line`, which is not resident. -/
def admissionAbsent (c : SharedBank) (msg : CoherenceMessage) (line : Addr) : Admission :=
  if msg.op.isEviction then .drop
  else
    match c.mshr.free? with
    | none => .park .noRegister line
    | some register =>
        match c.table.reserve line with
        | (.free way, table) => .fetch register way table
        | (.busy pendingLine, _) => .park .victimBusy pendingLine
        | (.victim victim, _) =>
            let victimLine := (c.table.lineOf? victim).getD line
            match (c.table.entry? victim).filter fun e => !e.evicting && e.controller.isStable with
            | some e => .replace register victim victimLine e
            | none => .park .victimBusy victimLine

/-- What becomes of a request. -/
def admission (c : SharedBank) (msg : CoherenceMessage) (fresh : Bool) : Except Fault Admission :=
  let line := c.table.lineAddr msg.addr
  if c.mshr.tracks line || (fresh && c.backlog.parked.addresses line) then
    .ok (.park .linePending line)
  else
    match c.table.resident? line with
    | some (way, e) => c.admissionResident msg line way e
    | none => .ok (c.admissionAbsent msg line)

/-- Opens the fetch of a line whose way is reserved in `table`. -/
def startFetch (c : SharedBank) (msg : CoherenceMessage) (line : Addr) (register way : Handle)
    (table : LineTable ManagerLine) : SharedBank :=
  let m := { controller := .initial, way, request := msg, stage := .awaitingMemory }
  { c.countMiss with table, mshr := c.mshr.assign register line (.miss m) }.toMemory .read line

/-- Opens the fetch of a line and evicts the victim in its place. -/
def startReplacement (c : SharedBank) (msg : CoherenceMessage) (line : Addr)
    (register victim : Handle) (victimLine : Addr) (e : LineEntry ManagerLine) :
    Except Fault SharedBank :=
  let m := { controller := .initial, way := victim, request := msg, stage := .awaitingVictim }
  { c.countMiss with mshr := c.mshr.assign register line (.miss m) }.startEviction
    victim victimLine e

/-- Carries out what was decided on a request for the line `line`. -/
def carryOut (c : SharedBank) (msg : CoherenceMessage) (line : Addr) :
    Admission → Except Fault SharedBank
  | .park reason watch => .ok (c.park msg line reason watch)
  | .settle way t => .ok ((c.apply msg line way t).wake (.transactionDone line))
  | .arbitrate register way t =>
      .ok ({ c with mshr := c.mshr.assign register line (.resident way) }.apply msg line way t)
  | .drop => .ok (c.dropNotice line)
  | .fetch register way table => .ok (c.startFetch msg line register way table)
  | .replace register victim victimLine e =>
      c.startReplacement msg line register victim victimLine e

/-- How a request ends for which this is decided. -/
def Admission.ending : Admission → Ending
  | .park _ _ => .parked
  | _ => .taken

/-- Carries out a decision and says how that ended. -/
def enact (c : SharedBank) (msg : CoherenceMessage) (line : Addr) (a : Admission) :
    Except Fault (Ending × SharedBank) :=
  (c.carryOut msg line a).map (a.ending, ·)

theorem attemptResident_eq (c : SharedBank) (msg : CoherenceMessage) (line : Addr) (way : Handle)
    (e : LineEntry ManagerLine) :
    c.attemptResident msg line way e
      = (c.admissionResident msg line way e).bind (c.enact msg line) := by
  unfold attemptResident admissionResident Mshr.reserve?
  split
  · rfl
  · cases c.step line e.controller (.request msg.op msg.src) with
    | error f => rfl
    | ok t =>
      show (if t.next.isStable then _ else _) = Except.bind (if t.next.isStable then _ else _) _
      split
      · rfl
      · cases c.mshr.free? <;> rfl

theorem attemptAbsent_eq (c : SharedBank) (msg : CoherenceMessage) (line : Addr) :
    c.attemptAbsent msg line = c.enact msg line (c.admissionAbsent msg line) := by
  unfold attemptAbsent admissionAbsent Mshr.isFull Mshr.reserve?
  split
  · rfl
  cases hfree : c.mshr.free? with
  | none => rfl
  | some register =>
    generalize hres : c.table.reserve line = res
    obtain ⟨reservation, table⟩ := res
    -- the register that is free is there when it is taken, so nothing is undone
    simp only [hfree, Option.map_some, Option.isSome_some, Bool.not_true, Bool.false_eq_true,
      if_false]
    cases reservation with
    | free way => rfl
    | victim victim =>
      obtain rfl : table = c.table := (LineTable.reserve_eq hres).resolve_left nofun
      dsimp only
      cases (c.table.entry? victim).filter fun e => !e.evicting && e.controller.isStable with
      | none => rfl
      | some e =>
        exact bind_pure_comp (Ending.taken, ·) (c.startReplacement msg line register victim _ e)
    | busy pendingLine =>
      obtain rfl : table = c.table := (LineTable.reserve_eq hres).resolve_left nofun
      rfl

/-- The steps come to the decision, carried out. -/
theorem attempt_eq (c : SharedBank) (msg : CoherenceMessage) (fresh : Bool) :
    c.attempt msg fresh
      = (c.admission msg fresh).bind (c.enact msg (c.table.lineAddr msg.addr)) := by
  unfold attempt admission
  dsimp only
  split
  · rfl
  · split
    · exact attemptResident_eq ..
    · exact attemptAbsent_eq ..

theorem process_eq (c : SharedBank) (msg : CoherenceMessage) (fresh : Bool) :
    c.process msg fresh = (do
      let decision ← c.admission msg fresh
      c.carryOut msg (c.table.lineAddr msg.addr) decision) := by
  rw [process, attempt_eq]
  cases c.admission msg fresh with
  | error f => rfl
  | ok a =>
    show ((c.carryOut msg _ a).map _).map _ = c.carryOut msg _ a
    cases c.carryOut msg (c.table.lineAddr msg.addr) a <;> rfl

/-! ## What a request does to the backlog

It is parked, with nothing else changed in the backlog, or at most wakes others. No request
does both. -/

theorem backlog_apply (c : SharedBank) (msg : CoherenceMessage) (line : Addr) (way : Handle)
    (t : ManagerTransition) : (c.apply msg line way t).backlog = c.backlog := by
  have hhit : (c.countHit msg.op).backlog = c.backlog := by
    unfold countHit
    split <;> rfl
  exact (backlog_commit _ way line t).trans hhit

theorem backlog_carryOut {c d : SharedBank} {msg : CoherenceMessage} {line : Addr} {a : Admission}
    (h : c.carryOut msg line a = .ok d) (ha : a.ending = .taken) : c.backlog.Stirred d.backlog := by
  cases a with
  | park reason watch => cases ha
  | settle way t =>
    cases h
    rw [backlog_wake, backlog_apply]
    exact .wake ..
  | arbitrate register way t =>
    cases h
    rw [backlog_apply]
    exact .refl _
  | drop =>
    cases h
    exact .wake ..
  | fetch register way table =>
    cases h
    exact .refl _
  | replace register victim victimLine e =>
    have hb := backlog_startEviction (show startReplacement .. = _ from h)
    exact hb

theorem attempt_parked {c d : SharedBank} {msg : CoherenceMessage} {fresh : Bool}
    (h : c.attempt msg fresh = .ok (.parked, d)) :
    ∃ reason watch, d = c.park msg (c.table.lineAddr msg.addr) reason watch := by
  rw [attempt_eq] at h
  obtain ⟨a, -, h⟩ := bind_eq_ok.1 h
  cases a with
  | park reason watch =>
    cases h
    exact ⟨reason, watch, rfl⟩
  | settle | arbitrate | drop | fetch | replace =>
    obtain ⟨d', -, h⟩ := map_eq_ok h
    cases h

theorem attempt_taken {c d : SharedBank} {msg : CoherenceMessage} {fresh : Bool}
    (h : c.attempt msg fresh = .ok (.taken, d)) : c.backlog.Stirred d.backlog := by
  rw [attempt_eq] at h
  obtain ⟨a, -, h⟩ := bind_eq_ok.1 h
  obtain ⟨d', hd, h⟩ := map_eq_ok h
  obtain ⟨ha, rfl⟩ := Prod.mk.inj h
  exact backlog_carryOut hd ha

theorem load_process {c d : SharedBank} {msg : CoherenceMessage} {fresh : Bool}
    (h : c.process msg fresh = .ok d) :
    d.load = c.load ∨ d.load = c.load + 1 ∧ d.backlog.retries = c.backlog.retries := by
  obtain ⟨⟨ending, d⟩, hd, rfl⟩ := map_eq_ok h
  cases ending with
  | parked =>
    obtain ⟨reason, watch, rfl⟩ := attempt_parked hd
    exact .inr ⟨Backlog.load_park .., rfl⟩
  | taken => exact .inl (attempt_taken hd).load

end CacheCoherence.SharedBank
