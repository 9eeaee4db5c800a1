import CacheCoherence.Address

/-!
# Packets — what travels between caches and memory

Nodes exchange packets. A packet carries a coherence message about one line, a
memory message about one line, or a single credit; its tag says which of the
three the receiver should expect. The request or reply class of a coherence
message and its write flag follow from the opcode when a node builds the
message (`CoherenceMessage.build`), but they are fields of their own, since a
received message is taken as it stands.
-/

namespace CacheCoherence

/-- A participant of the interconnect: a cache or a memory controller. -/
structure NodeId where
  index : UInt32
deriving DecidableEq, Repr, Inhabited

/-- The label under which a node appears in messages. -/
def NodeId.label (n : NodeId) : String := s!"n{n.index}"

/-- The mark that tells message types apart on the interconnect. -/
abbrev Tag := UInt32

/-! ## Coherence messages -/

/-- The vocabulary of the protocol: client requests, manager requests, grants,
transfers between clients, and acknowledgements. -/
inductive Opcode where
  /-- A client asks for a readable copy. -/
  | getS
  /-- A client asks for an exclusive copy. -/
  | getE
  /-- The owner gives up a clean exclusive line. -/
  | putE
  /-- The owner gives up a dirty line. -/
  | putM
  /-- The manager asks the owner to pass a shared copy on. -/
  | fwdS
  /-- The manager asks the owner to pass exclusive ownership on. -/
  | fwdE
  /-- The manager takes the line away from a holder. -/
  | demandI
  /-- The manager grants a shared copy. -/
  | grantS
  /-- The manager grants an exclusive copy. -/
  | grantE
  /-- The manager accepts that a client gives up its copy. -/
  | grantI
  /-- A client hands a shared copy to another. -/
  | dataS
  /-- A client hands a clean exclusive copy to another. -/
  | dataE
  /-- A client hands a dirty copy to another. -/
  | dataM
  /-- The client now holds the line shared. -/
  | unblockS
  /-- The client now holds the line exclusive. -/
  | unblockE
  /-- The client no longer holds the line. -/
  | unblockI
  /-- The client no longer holds the line and returns dirty data. -/
  | unblockDirty
  /-- The former owner kept a clean shared copy. -/
  | clean
  /-- The former owner kept a shared copy and returns dirty data. -/
  | writeback
deriving DecidableEq, Repr, Inhabited

/-- Whether a message opens a transaction or answers one. -/
inductive MessageKind where
  | request
  | reply
deriving DecidableEq, Repr, Inhabited

namespace Opcode

/-- Every opcode, in table order. -/
def all : List Opcode :=
  [getS, getE, putE, putM, fwdS, fwdE, demandI, grantS, grantE, grantI, dataS, dataE, dataM,
    unblockS, unblockE, unblockI, unblockDirty, clean, writeback]

/-- The class of messages that the opcode belongs to. -/
def kind : Opcode → MessageKind
  | getS | getE | putE | putM | fwdS | fwdE | demandI => .request
  | _ => .reply

/-- The two opcodes by which a client gives up its copy. -/
def isEviction : Opcode → Bool
  | putE | putM => true
  | _ => false

/-- Whether the opcode asks for write permission or carries written data. -/
def isWrite : Opcode → Bool
  | getE | putM | fwdE | dataM | unblockDirty | writeback => true
  | _ => false

/-- The spelling of the opcode in protocol tables and messages. -/
def name : Opcode → String
  | getS => "I_to_S"
  | getE => "I_to_E"
  | putE => "E_to_I"
  | putM => "M_to_I"
  | fwdS => "FWD_S"
  | fwdE => "FWD_E"
  | demandI => "DEMAND_I"
  | grantS => "GRANT_S_DATA"
  | grantE => "GRANT_E_DATA"
  | grantI => "GRANT_I"
  | dataS => "CC_S_DATA"
  | dataE => "CC_E_DATA"
  | dataM => "CC_M_DATA"
  | unblockS => "UNBLOCK_S"
  | unblockE => "UNBLOCK_E"
  | unblockI => "UNBLOCK_I"
  | unblockDirty => "UNBLOCK_I_DIRTY"
  | clean => "CLEAN"
  | writeback => "WRITEBACK"

/-- The one-word spelling of the opcode in serialized packets and diagnostics. -/
def ident : Opcode → String
  | getS => "IToS"
  | getE => "IToE"
  | putE => "EToI"
  | putM => "MToI"
  | fwdS => "FwdS"
  | fwdE => "FwdE"
  | demandI => "DemandI"
  | grantS => "GrantS"
  | grantE => "GrantE"
  | grantI => "GrantI"
  | dataS => "DataS"
  | dataE => "DataE"
  | dataM => "DataM"
  | unblockS => "UnblockS"
  | unblockE => "UnblockE"
  | unblockI => "UnblockI"
  | unblockDirty => "UnblockIDirty"
  | clean => "Clean"
  | writeback => "Writeback"

/-- The opcode with a given one-word spelling. -/
def ofIdent? (s : String) : Option Opcode := all.find? (·.ident == s)

/-- Reading the one-word spelling gives the opcode back. -/
theorem ofIdent?_ident (o : Opcode) : ofIdent? o.ident = some o := by
  cases o <;> decide

end Opcode

namespace MessageKind

/-- The spelling of the class in serialized packets. -/
def ident : MessageKind → String
  | request => "Request"
  | reply => "Reply"

/-- The class with a given spelling. -/
def ofIdent? (s : String) : Option MessageKind := [request, reply].find? (·.ident == s)

theorem ofIdent?_ident (k : MessageKind) : ofIdent? k.ident = some k := by
  cases k <;> decide

end MessageKind

/-- A coherence request or reply about one line. -/
structure CoherenceMessage where
  kind : MessageKind
  op : Opcode
  addr : Addr
  /-- The sender. -/
  src : NodeId
  /-- The client to which a forward request sends the data. -/
  forwardTo : Option NodeId
  write : Bool
deriving DecidableEq, Repr, Inhabited

/-- The message a node builds for an opcode: class and write flag are the
opcode's, and no client is named as forward target. -/
def CoherenceMessage.build (op : Opcode) (addr : Addr) (src : NodeId) : CoherenceMessage :=
  { kind := op.kind, op, addr, src, forwardTo := none, write := op.isWrite }

/-- The same message naming `target` as forward target. -/
def CoherenceMessage.forwardingTo (m : CoherenceMessage) (target : NodeId) : CoherenceMessage :=
  { m with forwardTo := some target }

/-! ## Memory messages -/

/-- What a memory message asks or answers. -/
inductive MemoryOp where
  /-- Fetch a line; answered by `reply`. -/
  | read
  /-- Store a dirty line; not answered. -/
  | write
  /-- The data of a fetched line. -/
  | reply
deriving DecidableEq, Repr, Inhabited

namespace MemoryOp

/-- The spelling of the operation in serialized packets. -/
def ident : MemoryOp → String
  | read => "Read"
  | write => "Write"
  | reply => "Reply"

/-- The operation with a given spelling. -/
def ofIdent? (s : String) : Option MemoryOp := [read, write, reply].find? (·.ident == s)

theorem ofIdent?_ident (o : MemoryOp) : ofIdent? o.ident = some o := by
  cases o <;> decide

end MemoryOp

/-- A memory request or reply about one line. -/
structure MemoryMessage where
  op : MemoryOp
  addr : Addr
  /-- The sender. -/
  src : NodeId
deriving DecidableEq, Repr, Inhabited

/-! ## Packets -/

/-- The contents of a packet. -/
inductive Payload where
  | coherence (m : CoherenceMessage)
  | memory (m : MemoryMessage)
  /-- One credit for the receiver's outbound link. -/
  | credit
deriving DecidableEq, Repr, Inhabited

/-- The short name of the contents in diagnostics. -/
def Payload.label : Payload → String
  | .coherence _ => "coherence"
  | .memory _ => "memory"
  | .credit => "credit"

/-- A tagged packet on the interconnect. -/
structure Packet where
  tag : Tag
  src : NodeId
  dst : NodeId
  payload : Payload
deriving DecidableEq, Repr, Inhabited

namespace Packet

/-- The coherence message that the packet carries, if it carries one. -/
def coherence? (p : Packet) : Option CoherenceMessage :=
  match p.payload with
  | .coherence m => some m
  | _ => none

/-- The memory message that the packet carries, if it carries one. -/
def memory? (p : Packet) : Option MemoryMessage :=
  match p.payload with
  | .memory m => some m
  | _ => none

/-- Whether the packet is a credit. -/
def isCredit (p : Packet) : Bool :=
  match p.payload with
  | .credit => true
  | _ => false

end Packet

/-! ## Tags -/

/-- The three tags by which a run tells its message types apart. -/
structure MessageTags where
  coherence : Tag := 1
  memory : Tag := 2
  credit : Tag := 3
deriving DecidableEq, Repr

namespace MessageTags

/-- Whether `t` is one of the run's tags. -/
def knows (tags : MessageTags) (t : Tag) : Bool :=
  t == tags.credit || t == tags.coherence || t == tags.memory

/-- The tags of a run must tell all three message types apart. -/
def Distinct (tags : MessageTags) : Prop :=
  tags.coherence ≠ tags.memory ∧ tags.coherence ≠ tags.credit ∧ tags.memory ≠ tags.credit

instance (tags : MessageTags) : Decidable tags.Distinct :=
  inferInstanceAs (Decidable (_ ∧ _ ∧ _))

end MessageTags

end CacheCoherence
