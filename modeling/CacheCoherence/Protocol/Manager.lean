import CacheCoherence.Protocol.Client
import CacheCoherence.Protocol.Sharers

/-!
# Manager — the serving side of the protocol

A stable line has no holder (`I`), shared copies (`S`) or one exclusive copy
that may be dirty (`E`). A transient state names what the line waits for:

| state     | waits for                                                          |
|-----------|--------------------------------------------------------------------|
| `IE`      | the new owner's acknowledgement of an exclusive grant              |
| `EE`      | the requester's acknowledgement of a forwarded exclusive copy      |
| `ES`      | the requester's and the old owner's word on a forwarded shared copy |
| `SS`      | the acknowledgement of a shared grant                              |
| `SIE`     | all other sharers giving up, before an exclusive grant             |
| `EIPut`   | the acknowledgement of a granted client eviction                   |
| `EIEvict` | the owner giving up, for a replacement                             |
| `SIEvict` | every sharer giving up, for a replacement                          |

An eviction notice from a client that is no longer the owner is stale: the line
was passed on before the notice arrived. It is ignored in every stable state.
-/

namespace CacheCoherence

/-- The states of a line at its manager. -/
inductive ManagerState where
  | I | S | E | IE | EE | ES | SS | SIE | EIPut | EIEvict | SIEvict
deriving DecidableEq, Repr, Inhabited

/-- What a manager line reacts to. -/
inductive ManagerEvent where
  /-- A client opens a transaction. -/
  | request (op : Opcode) (src : NodeId)
  /-- A client answers. -/
  | reply (op : Opcode) (src : NodeId)
  /-- The manager's own cache replaces the line. -/
  | evict
deriving DecidableEq, Repr

/-- What an event makes the manager do. -/
inductive ManagerAction where
  /-- Send a message, possibly naming the client that a forward goes to. -/
  | send (op : Opcode) (dest : NodeId) (forwardTo : Option NodeId)
  /-- A client returned dirty data: the line is now dirty at this level. -/
  | writeback
  /-- The event belongs to a race that is already resolved. -/
  | ignore
deriving DecidableEq, Repr

/-- What the manager knows about a line. -/
structure ManagerLine where
  state : ManagerState
  /-- The exclusive holder. -/
  owner : Option NodeId := none
  /-- The holders of shared copies. -/
  sharers : SharerSet := .empty
  /-- Acknowledgements awaited before the next stable state. -/
  pendingAcks : Nat := 0
deriving DecidableEq, Repr, Inhabited

/-- The outcome of an event at a manager line. -/
structure ManagerTransition where
  next : ManagerLine
  actions : List ManagerAction := []
deriving DecidableEq, Repr

/-- Whether the event was a stale message, ignored on purpose. -/
def ManagerTransition.isIgnored (t : ManagerTransition) : Bool := t.actions.contains .ignore

/-- An event that the manager table has no entry for. -/
structure ManagerRejection where
  state : ManagerState
  event : ManagerEvent
deriving DecidableEq, Repr

namespace ManagerState

/-- All manager states. -/
def all : List ManagerState := [I, S, E, IE, EE, ES, SS, SIE, EIPut, EIEvict, SIEvict]

/-- The name of the state. -/
def name : ManagerState → String
  | I => "I"
  | S => "S"
  | E => "E"
  | IE => "IE"
  | EE => "EE"
  | ES => "ES"
  | SS => "SS"
  | SIE => "SIE"
  | EIPut => "EIPut"
  | EIEvict => "EIEvict"
  | SIEvict => "SIEvict"

/-- The state with a given name. -/
def ofName? (s : String) : Option ManagerState := all.find? (·.name == s)

/-- No acknowledgement is awaited. -/
def isStable : ManagerState → Bool
  | I | S | E => true
  | _ => false

/-- No client holds the line. -/
def isInvalid (s : ManagerState) : Bool := s == I

end ManagerState

namespace ManagerLine

/-- The line as it comes from memory: nobody holds it. -/
def initial : ManagerLine := { state := .I }

/-- No acknowledgement is awaited on the line. -/
def isStable (l : ManagerLine) : Bool := l.state.isStable

/-- The owner, unless it is `src` itself. -/
def ownerOtherThan (l : ManagerLine) (src : NodeId) : Option NodeId :=
  l.owner.filter (· ≠ src)

/-- One acknowledgement fewer to wait for; refused when none is awaited. -/
def acknowledged? (l : ManagerLine) : Option ManagerLine :=
  if l.pendingAcks = 0 then none else some { l with pendingAcks := l.pendingAcks - 1 }

/-- A demand to give the line up for every client of a list. -/
def demands (ids : List NodeId) : List ManagerAction := ids.map (.send .demandI · none)

/-- The table's answer to a client request. -/
def onRequest (l : ManagerLine) (op : Opcode) (src : NodeId) : Option ManagerTransition :=
  match l.state, op with
  | .I, .getS | .I, .getE =>
      some {
        next := { l with state := .IE, owner := some src }
        actions := [.send .grantE src none] }
  | .I, .putE | .I, .putM => some { next := l, actions := [.ignore] }
  | .E, .getE =>
      (l.ownerOtherThan src).map fun owner =>
        { next := { l with state := .EE }
          actions := [.send .fwdE owner (some src)] }
  | .E, .getS =>
      (l.ownerOtherThan src).map fun owner =>
        { next := { state := .ES, owner := none, sharers := .ofList [owner, src], pendingAcks := 2 }
          actions := [.send .fwdS owner (some src)] }
  | .E, .putE =>
      if l.owner = some src then
        some {
          next := { l with state := .EIPut, owner := none }
          actions := [.send .grantI src none] }
      else some { next := l, actions := [.ignore] }
  | .E, .putM =>
      if l.owner = some src then
        some {
          next := { l with state := .EIPut, owner := none }
          actions := [.writeback, .send .grantI src none] }
      else some { next := l, actions := [.ignore] }
  | .S, .putE | .S, .putM => some { next := l, actions := [.ignore] }
  | .S, .getS =>
      some {
        next := { l with state := .SS, sharers := l.sharers.insert src }
        actions := [.send .grantS src none] }
  | .S, .getE =>
      let others := l.sharers.others src
      if others.isEmpty then
        some {
          next := { l with state := .IE, owner := some src, sharers := .empty }
          actions := [.send .grantE src none] }
      else
        some {
          next := {
            state := .SIE
            owner := some src
            sharers := .empty
            pendingAcks := others.length }
          actions := demands others }
  | _, _ => none

/-- A line that waits for both words on a forwarded shared copy is shared once
it has both. -/
def settleShared (l : ManagerLine) : ManagerLine :=
  if l.state = .ES ∧ l.pendingAcks = 0 then { l with state := .S } else l

/-- The table's answer to a client's acknowledgement. -/
def onReply (l : ManagerLine) (op : Opcode) (src : NodeId) : Option ManagerTransition :=
  match l.state, op with
  | .IE, .unblockE => some { next := { l with state := .E } }
  | .EE, .unblockE => some { next := { l with state := .E, owner := some src } }
  | .ES, .unblockS | .ES, .clean => l.acknowledged?.map fun l => { next := l.settleShared }
  | .ES, .writeback =>
      l.acknowledged?.map fun l => { next := l.settleShared, actions := [.writeback] }
  -- The old owner was evicting and passed its exclusive copy on.
  | .ES, .unblockE =>
      some { next := { state := .E, owner := some src, sharers := .empty, pendingAcks := 0 } }
  | .SS, .unblockS => some { next := { l with state := .S } }
  | .SIE, .unblockI =>
      l.acknowledged?.bind fun l =>
        if l.pendingAcks = 0 then
          l.owner.map fun owner =>
            { next := { l with state := .IE }, actions := [.send .grantE owner none] }
        else some { next := l }
  | .EIPut, .unblockI | .EIEvict, .unblockI => some { next := { l with state := .I } }
  | .EIEvict, .unblockDirty => some { next := { l with state := .I }, actions := [.writeback] }
  | .SIEvict, .unblockI =>
      l.acknowledged?.map fun l =>
        { next := if l.pendingAcks = 0 then { l with state := .I } else l }
  | _, _ => none

/-- The table's answer to the replacement of the line. -/
def onEvict (l : ManagerLine) : Option ManagerTransition :=
  match l.state with
  | .I => some { next := l }
  | .E =>
      l.owner.map fun owner =>
        { next := { l with state := .EIEvict, owner := none }
          actions := [.send .demandI owner none] }
  | .S =>
      let acks := l.sharers.size
      some {
        next := {
          l with
          state := if acks = 0 then .I else .SIEvict
          sharers := .empty
          pendingAcks := acks }
        actions := demands l.sharers.members }
  | _ => none

/-- The transition of a manager line. -/
def transition (l : ManagerLine) (event : ManagerEvent) :
    Except ManagerRejection ManagerTransition :=
  let answer := match event with
    | .request op src => l.onRequest op src
    | .reply op src => l.onReply op src
    | .evict => l.onEvict
  match answer with
  | some t => .ok t
  | none => .error { state := l.state, event }

end ManagerLine

/-! ## Wording -/

/-- A manager event in diagnostics. -/
def ManagerEvent.describe : ManagerEvent → String
  | .request op src => "Request \x7b op: " ++ op.ident ++ ", src: " ++ src.describe ++ " \x7d"
  | .reply op src => "Reply \x7b op: " ++ op.ident ++ ", src: " ++ src.describe ++ " \x7d"
  | .evict => "Evict"

/-- The text shown for a rejected manager event. -/
def ManagerRejection.message (r : ManagerRejection) : String :=
  s!"state {r.state.name} cannot accept {r.event.describe}"

end CacheCoherence
