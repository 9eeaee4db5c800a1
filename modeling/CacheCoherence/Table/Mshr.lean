import CacheCoherence.Table.Slots

/-!
# MSHR — miss status holding registers

One register per outstanding transaction. The registers are fully associative:
a single set of slots, searched by line address. That a register exists for a
line means that a transaction on it is going on.
-/

namespace CacheCoherence

/-- The registers of one node. -/
structure Mshr (τ : Type) where
  slots : SlotTable τ
deriving DecidableEq, Repr

namespace Mshr

variable {τ : Type}

/-- `n` free registers. -/
def ofCapacity (n : Nat) : Mshr τ := { slots := SlotTable.empty 1 n }

/-- A register that is free. -/
def free? (m : Mshr τ) : Option Handle := (m.slots.freeIndex? 0).map m.slots.handleAt

/-- Puts a transaction on `line` into the register `h`, in place of what it held. -/
def assign (m : Mshr τ) (h : Handle) (line : Addr) (v : τ) : Mshr τ :=
  { slots := m.slots.write h.index (.filled line v) }

/-- Takes a register for `line`, if one is free. -/
def reserve? (m : Mshr τ) (line : Addr) (v : τ) : Option (Handle × Mshr τ) :=
  m.free?.map fun h => (h, m.assign h line v)

/-- The register of `line`. -/
def find? (m : Mshr τ) (line : Addr) : Option Handle := m.slots.findFilled? 0 line

/-- Whether a transaction on `line` is outstanding. -/
def tracks (m : Mshr τ) (line : Addr) : Bool := (m.find? line).isSome

/-- The transaction in the register behind `h`. -/
def get? (m : Mshr τ) (h : Handle) : Option τ := m.slots.get? h

/-- The line of the register behind `h`. -/
def lineOf? (m : Mshr τ) (h : Handle) : Option Addr := m.slots.lineOf? h

/-- The transaction on `line`, with its register. -/
def outstanding? (m : Mshr τ) (line : Addr) : Option (Handle × τ) :=
  (m.find? line).bind fun h => (m.get? h).map (h, ·)

/-- Changes the transaction behind `h`. -/
def modify (m : Mshr τ) (h : Handle) (f : τ → τ) : Mshr τ := { slots := m.slots.modify h f }

/-- Frees the register behind `h`, with the transaction it held. -/
def release (m : Mshr τ) (h : Handle) : Option τ × Mshr τ :=
  let (old, slots) := m.slots.vacate h
  (old, { slots })

/-- Whether no register is free. -/
def isFull (m : Mshr τ) : Bool := !m.free?.isSome

/-- How many transactions are outstanding. -/
def occupancy (m : Mshr τ) : Nat := m.slots.occupied

/-- How many registers there are. -/
def capacity (m : Mshr τ) : Nat := m.slots.capacity

/-- The outstanding transactions, in register order. -/
def entries (m : Mshr τ) : List (Handle × Addr × τ) := m.slots.entries

/-- The first transaction that `f` accepts, with its register and its line. -/
def findSome? {β : Type} (m : Mshr τ) (f : τ → Option β) : Option (Handle × Addr × β) :=
  m.entries.findSome? fun (h, line, v) => (f v).map (h, line, ·)

theorem assign_assign (m : Mshr τ) (h : Handle) (line : Addr) (v w : τ) :
    (m.assign h line v).assign h line w = m.assign h line w :=
  congrArg Mshr.mk (m.slots.write_write h.index (.filled line v) (.filled line w))

end Mshr

end CacheCoherence
