import CacheCoherence.Packet
import CacheCoherence.Protocol.Client
import CacheCoherence.Protocol.Manager
import Mathlib.Data.Multiset.Basic

/-!
# Wiring — where a node sends what it has to say about a line

A node reads the line off an address, and knows the bank and the memory controller of every
line. With these the actions of a transition can be written as packets. That is all a node
knows of the others, so what it does to its own lines can be told from its wiring alone.
-/

namespace CacheCoherence

/-- What a node knows of the others. -/
structure Wiring where
  tags : MessageTags
  /-- The line of an address. -/
  lineOf : Addr → Addr
  /-- The bank of a line. -/
  home : Addr → NodeId
  /-- The memory controller of a line. -/
  store : Addr → NodeId
  lineOf_lineOf : ∀ a, lineOf (lineOf a) = lineOf a

namespace Wiring

variable (P : Wiring)

/-- The packet of a coherence message. -/
def letter (src dst : NodeId) (m : CoherenceMessage) : Packet :=
  { tag := P.tags.coherence, src, dst, payload := .coherence m }

/-- The packet of a client action on the line `X`. -/
def clientPacket (me : NodeId) (X : Addr) : ClientAction → Packet
  | .toManager op => P.letter me (P.home X) (.build op X me)
  | .toPeer op dest => P.letter me dest (.build op X me)

/-- The packet of a manager action on the line `X`. -/
def managerPacket? (me : NodeId) (X : Addr) : ManagerAction → Option Packet
  | .send op dest forwardTo =>
      some (P.letter me dest { CoherenceMessage.build op X me with forwardTo })
  | _ => none

/-- The packets of the actions of a client on the line `X`. -/
def clientPosts (me : NodeId) (X : Addr) (actions : List ClientAction) : Multiset Packet :=
  ((actions.map (P.clientPacket me X) : List Packet) : Multiset Packet)

/-- The packets of the actions of a manager on the line `X`. -/
def managerPosts (me : NodeId) (X : Addr) (actions : List ManagerAction) : Multiset Packet :=
  ((actions.filterMap (P.managerPacket? me X) : List Packet) : Multiset Packet)

/-- A request to the memory controller of the line `X`. -/
def memoryPacket (me : NodeId) (op : MemoryOp) (X : Addr) : Packet :=
  { tag := P.tags.memory
    src := me
    dst := P.store X
    payload := .memory { op, addr := X, src := me } }

/-- The credit that a receiver returns to a sender. -/
def creditTo (me peer : NodeId) : Packet :=
  { tag := P.tags.credit, src := me, dst := peer, payload := .credit }

end Wiring

end CacheCoherence
