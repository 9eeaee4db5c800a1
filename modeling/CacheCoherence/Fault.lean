import CacheCoherence.Protocol.Manager

/-!
# Faults — what ends a run

A fault means that a node met an event that its protocol, its bookkeeping or
its link cannot account for. Backpressure is none: a request that finds no
room is parked, a packet that finds no credit is buffered.
-/

namespace CacheCoherence

/-- An event that a node cannot account for. -/
inductive Fault where
  /-- The client table refuses an event on a line. -/
  | clientViolation (node : NodeId) (line : Addr) (rejection : ClientRejection)
  /-- The manager table refuses an event on a line. -/
  | managerViolation (node : NodeId) (line : Addr) (rejection : ManagerRejection)
  /-- A coherence message for a line with nothing outstanding. -/
  | unexpectedReply (node : NodeId) (op : Opcode) (line : Addr)
  /-- A memory reply for a line that is not being fetched. -/
  | unexpectedMemoryReply (node : NodeId) (line : Addr)
  /-- The way reserved for a fill is gone. -/
  | lostReservation (node : NodeId) (line : Addr)
  /-- A tag that is none of the run's. -/
  | unknownTag (node : NodeId) (tag : Tag)
  /-- Contents that do not go with their tag or that the node cannot consume. -/
  | mismatchedPayload (node : NodeId) (tag : Tag) (payload : String)
  /-- A credit beyond the link's maximum. -/
  | creditOverflow (node : NodeId) (max : Nat)
deriving DecidableEq, Repr

/-- An address in hexadecimal digits. -/
def Addr.hex (a : Addr) : String := "0x" ++ String.ofList (Nat.toDigits 16 a.toNat)

/-- The text shown for a fault. -/
def Fault.message : Fault → String
  | .clientViolation node line r =>
      s!"client protocol violation on {node.label} for line {Addr.hex line}: {r.message}"
  | .managerViolation node line r =>
      s!"manager protocol violation on {node.label} for line {Addr.hex line}: {r.message}"
  | .unexpectedReply node op line =>
      s!"{node.label} received {op.name} for line {Addr.hex line} with no transaction outstanding"
  | .unexpectedMemoryReply node line =>
      s!"{node.label} received a memory reply for line {Addr.hex line} with no fetch outstanding"
  | .lostReservation node line =>
      s!"{node.label} lost the way reserved for line {Addr.hex line}"
  | .unknownTag node tag => s!"{node.label} received a packet with unknown message tag {tag}"
  | .mismatchedPayload node tag payload =>
      s!"{node.label} cannot consume a {payload} payload tagged {tag}"
  | .creditOverflow node max => s!"{node.label} received a credit beyond its maximum of {max}"

/-- The fault of a packet whose contents do not match its tag: a tag of the run
with the wrong contents, or no tag of the run at all. -/
def MessageTags.refuse (tags : MessageTags) (node : NodeId) (p : Packet) : Fault :=
  if tags.knows p.tag then .mismatchedPayload node p.tag p.payload.label
  else .unknownTag node p.tag

/-- Whether the fault is that a way is gone which a transaction had. -/
def Fault.losesWay : Fault → Bool
  | .lostReservation .. => true
  | _ => false

@[simp] theorem MessageTags.losesWay_refuse (tags : MessageTags) (node : NodeId) (p : Packet) :
    (tags.refuse node p).losesWay = false := by
  unfold refuse
  split <;> rfl

/-- After a success the computation goes on. -/
theorem ok_bind {ε α β : Type} (a : α) (f : α → Except ε β) : (Except.ok a >>= f) = f a := rfl

/-- A computation in two parts succeeds exactly when both parts do. -/
theorem bind_eq_ok {ε α β : Type} {x : Except ε α} {f : α → Except ε β} {b : β} :
    x >>= f = .ok b ↔ ∃ a, x = .ok a ∧ f a = .ok b := by
  cases x with
  | error e => simp [bind, Except.bind]
  | ok a => simp [bind, Except.bind]

/-- What is told of a result is told of the value of a success. -/
theorem map_eq_ok {ε α β : Type} {x : Except ε α} {f : α → β} {b : β} (h : x.map f = .ok b) :
    ∃ a, x = .ok a ∧ f a = b := by
  cases x with
  | error e => cases h
  | ok a => exact ⟨a, rfl, Except.ok.inj h⟩

theorem mapError_eq_ok {ε ε' α : Type} {f : ε → ε'} {x : Except ε α} {a : α}
    (h : x.mapError f = .ok a) : x = .ok a := by
  cases x with
  | error e => cases h
  | ok b =>
    cases h
    rfl

theorem mapError_eq_error {ε ε' α : Type} {f : ε → ε'} {x : Except ε α} {e : ε'}
    (h : x.mapError f = .error e) : ∃ e', e = f e' := by
  cases x with
  | error e' =>
    cases h
    exact ⟨e', rfl⟩
  | ok a => cases h

end CacheCoherence
