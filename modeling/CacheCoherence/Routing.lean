import CacheCoherence.Packet

/-!
# Routing — which node is responsible for an address

A cache does not know where a line's manager or memory controller lives; it
asks a route. A route either names one node for everything, or interleaves
pages over a list of nodes. A page map uses only the largest power-of-two
prefix of its list, so three nodes serve as two.
-/

namespace CacheCoherence

-- A power of a number is the built-in one, whatever else is in scope.
attribute [local instance (high)] instPowNat

/-- What is wrong with a page map. -/
inductive PageMapError where
  | noNodes
  | offsetRange (bits : Nat)
deriving DecidableEq, Repr

/-- The text shown for a refused page map. -/
def PageMapError.message : PageMapError → String
  | .noNodes => "page-based map needs at least one node"
  | .offsetRange bits => s!"page offset {bits} is out of range"

/-- Pages of `2 ^ pageBits` bytes dealt out over `nodes` in turn. -/
structure PageMap where
  nodes : Array NodeId
  pageBits : Nat
  nodes_ne : 0 < nodes.size
deriving DecidableEq, Repr

namespace PageMap

/-- The map over `nodes`; the list must not be empty and a page must be
smaller than the address space. -/
def ofNodes? (nodes : Array NodeId) (pageBits : Nat) : Except PageMapError PageMap :=
  if h : 0 < nodes.size then
    if pageBits < 64 then .ok { nodes, pageBits, nodes_ne := h } else .error (.offsetRange pageBits)
  else .error .noNodes

/-- How many nodes take part in the interleaving. -/
def span (m : PageMap) : Nat := 2 ^ m.nodes.size.log2

theorem span_le (m : PageMap) : m.span ≤ m.nodes.size :=
  Nat.log2_self_le (Nat.ne_of_gt m.nodes_ne)

/-- The position in the list of the node that owns `a`. -/
def slot (m : PageMap) (a : Addr) : Nat := a.toNat / 2 ^ m.pageBits % m.span

theorem slot_lt (m : PageMap) (a : Addr) : m.slot a < m.nodes.size :=
  Nat.lt_of_lt_of_le (Nat.mod_lt _ (Nat.two_pow_pos _)) m.span_le

/-- The node that owns the page of `a`. -/
def lookup (m : PageMap) (a : Addr) : NodeId :=
  have := m.slot_lt a
  m.nodes[m.slot a]

end PageMap

/-- Where requests about an address go. -/
inductive Route where
  /-- Everything goes to one node. -/
  | single (node : NodeId)
  /-- Pages are interleaved. -/
  | paged (map : PageMap)
deriving DecidableEq, Repr

/-- The node responsible for `a`. -/
def Route.lookup : Route → Addr → NodeId
  | .single node, _ => node
  | .paged map, a => map.lookup a

end CacheCoherence
