import CacheCoherence.Packet

/-!
# Client — the requesting side of the protocol

| state | meaning                                              |
|-------|------------------------------------------------------|
| `I`   | no copy                                              |
| `S`   | clean shared copy                                    |
| `E`   | clean exclusive copy                                 |
| `M`   | dirty exclusive copy                                 |
| `IE`  | asked for a copy, awaiting data                      |
| `SE`  | shared copy, asked for exclusive, awaiting the grant |
| `EI`  | giving up a clean exclusive copy, awaiting the grant |
| `MI`  | giving up a dirty copy, awaiting the grant           |

A forward or a demand that meets a line in `EI` or `MI` was sent before the
manager saw the eviction notice. The client answers it as if it still held the
line, and with that the eviction is complete.

A transition is a pure table look-up. Whoever drives the table decides whether
to commit to the outcome, and can look for the room it needs first.
-/

namespace CacheCoherence

/-- The states of a line at a client. -/
inductive ClientState where
  | I | S | E | M | IE | SE | EI | MI
deriving DecidableEq, Repr, Inhabited

/-- The operations of the processor side. -/
inductive ProcessorOp where
  | load
  | store
  /-- The client's own cache replaces the line. -/
  | evict
deriving DecidableEq, Repr

/-- What a client line reacts to. -/
inductive ClientEvent where
  | processor (op : ProcessorOp)
  | message (op : Opcode) (src : NodeId) (forwardTo : Option NodeId)
deriving DecidableEq, Repr

/-- What a client line sends. -/
inductive ClientAction where
  | toManager (op : Opcode)
  | toPeer (op : Opcode) (dest : NodeId)
deriving DecidableEq, Repr

/-- The outcome of an event at a client line: the next state, and the messages
to send, in order. -/
structure ClientTransition where
  next : ClientState
  actions : List ClientAction := []
deriving DecidableEq, Repr

/-- An event that the client table has no entry for. -/
structure ClientRejection where
  state : ClientState
  event : ClientEvent
deriving DecidableEq, Repr

namespace ClientState

/-- All client states. -/
def all : List ClientState := [I, S, E, M, IE, SE, EI, MI]

/-- The name of the state. -/
def name : ClientState → String
  | I => "I"
  | S => "S"
  | E => "E"
  | M => "M"
  | IE => "IE"
  | SE => "SE"
  | EI => "EI"
  | MI => "MI"

/-- The state with a given name. -/
def ofName? (s : String) : Option ClientState := all.find? (·.name == s)

/-- No reply is awaited. -/
def isStable : ClientState → Bool
  | I | S | E | M => true
  | _ => false

/-- There is no copy, and none is awaited. -/
def isInvalid (s : ClientState) : Bool := s == I

/-- The copy is newer than the manager's. -/
def isDirty : ClientState → Bool
  | M | MI => true
  | _ => false

/-- The table's answer to an operation of the processor side. -/
def onProcessor : ClientState → ProcessorOp → Option ClientTransition
  | I, .load => some { next := IE, actions := [.toManager .getS] }
  | I, .store => some { next := IE, actions := [.toManager .getE] }
  | I, .evict => some { next := I }
  | S, .load => some { next := S }
  | S, .store => some { next := SE, actions := [.toManager .getE] }
  | S, .evict => some { next := I }
  | E, .load => some { next := E }
  | E, .store => some { next := M }
  | E, .evict => some { next := EI, actions := [.toManager .putE] }
  | M, .load => some { next := M }
  | M, .store => some { next := M }
  | M, .evict => some { next := MI, actions := [.toManager .putM] }
  | IE, _ | SE, _ | EI, _ | MI, _ => none

/-- The table's answer to a message. A forward that names no target is refused. -/
def onMessage (s : ClientState) (op : Opcode) (forwardTo : Option NodeId) :
    Option ClientTransition :=
  match s, op with
  -- A sharer that dropped its copy silently is still asked to give it up.
  | I, .demandI | S, .demandI | E, .demandI =>
      some { next := I, actions := [.toManager .unblockI] }
  | M, .demandI => some { next := I, actions := [.toManager .unblockDirty] }
  | E, .fwdE => forwardTo.map fun peer => { next := I, actions := [.toPeer .dataE peer] }
  | E, .fwdS =>
      forwardTo.map fun peer => { next := S, actions := [.toPeer .dataS peer, .toManager .clean] }
  | M, .fwdE => forwardTo.map fun peer => { next := I, actions := [.toPeer .dataM peer] }
  | M, .fwdS =>
      forwardTo.map fun peer =>
        { next := S, actions := [.toPeer .dataS peer, .toManager .writeback] }
  | IE, .grantE | IE, .dataE | SE, .grantE | SE, .dataE =>
      some { next := E, actions := [.toManager .unblockE] }
  | IE, .dataM | SE, .dataM => some { next := M, actions := [.toManager .unblockE] }
  | IE, .grantS | IE, .dataS => some { next := S, actions := [.toManager .unblockS] }
  | IE, .demandI | SE, .demandI => some { next := IE, actions := [.toManager .unblockI] }
  | EI, .grantI | MI, .grantI => some { next := I, actions := [.toManager .unblockI] }
  | EI, .fwdE | EI, .fwdS =>
      forwardTo.map fun peer => { next := I, actions := [.toPeer .dataE peer] }
  | MI, .fwdE | MI, .fwdS =>
      forwardTo.map fun peer => { next := I, actions := [.toPeer .dataM peer] }
  | EI, .demandI => some { next := I, actions := [.toManager .unblockI] }
  | MI, .demandI => some { next := I, actions := [.toManager .unblockDirty] }
  | _, _ => none

/-- No message leaves a client waiting with a shared copy in hand: it is given what
it waits for, or it loses the copy. -/
theorem onMessage_next_ne_SE {s : ClientState} {t : ClientTransition} {op : Opcode}
    {forwardTo : Option NodeId} (h : s.onMessage op forwardTo = some t) : t.next ≠ .SE := by
  cases s <;> cases op <;> cases forwardTo <;> simp [onMessage] at h <;> simp [← h]

/-- The transition of a client line. -/
def transition (s : ClientState) (event : ClientEvent) :
    Except ClientRejection ClientTransition :=
  let answer := match event with
    | .processor op => s.onProcessor op
    | .message op _ forwardTo => s.onMessage op forwardTo
  match answer with
  | some t => .ok t
  | none => .error { state := s, event }

end ClientState

/-! ## Wording -/

/-- The name of a processor operation in diagnostics. -/
def ProcessorOp.name : ProcessorOp → String
  | .load => "Load"
  | .store => "Store"
  | .evict => "Evict"

/-- A node id in diagnostics. -/
def NodeId.describe (n : NodeId) : String := s!"NodeId({n.index})"

/-- An optional node id in diagnostics. -/
def NodeId.describeOption : Option NodeId → String
  | none => "None"
  | some n => s!"Some({n.describe})"

/-- A client event in diagnostics. -/
def ClientEvent.describe : ClientEvent → String
  | .processor op => s!"Processor({op.name})"
  | .message op src forwardTo =>
      "Message \x7b op: " ++ op.ident ++ ", src: " ++ src.describe ++ ", forward_to: "
        ++ NodeId.describeOption forwardTo ++ " \x7d"

/-- The text shown for a rejected client event. -/
def ClientRejection.message (r : ClientRejection) : String :=
  s!"state {r.state.name} cannot accept {r.event.describe}"

end CacheCoherence
