import CacheCoherence.Config

/-!
# Memory timing — what one line access costs

The simple model charges every access the same. The open-row model keeps one
row of the memory open: an access to the open row pays for the column alone, the
first access pays for opening its row as well, and any other access pays also
for closing the row that is open. A row is as wide as the pages that lines are
dealt out by, so consecutive lines of a page hit the open row. Times are counted
in 64 bits, and a sum of times that does not fit comes round to a small one.
-/

namespace CacheCoherence

/-- A time counts cycles. -/
instance instCoeTime : Coe UInt64 Nat := ⟨UInt64.toNat⟩

/-- The price of one access. -/
structure AccessPrice where
  /-- Cycles until the line is available. -/
  latency : UInt64
  /-- The line's row was open already. -/
  rowHit : Bool
deriving DecidableEq, Repr

/-- A memory bank with a single open row. -/
structure OpenRowBank where
  cas : UInt64
  ras : UInt64
  pre : UInt64
  /-- The row width, as a power of two. -/
  rowBits : Nat
  openRow : Option Nat := none
deriving DecidableEq, Repr

namespace OpenRowBank

/-- A bank with the configured times and no row open. -/
def ofConfig (c : MemoryConfig) (rowBits : Nat) : OpenRowBank :=
  { cas := c.tCas, ras := c.tRas, pre := c.tPre, rowBits }

/-- The row that holds a line. -/
def rowOf (b : OpenRowBank) (line : Addr) : Nat := line.toNat >>> b.rowBits

/-- Prices an access and leaves its row open. -/
def access (b : OpenRowBank) (line : Addr) : AccessPrice × OpenRowBank :=
  let row := b.rowOf line
  let price := match b.openRow with
    | some current =>
        if current = row then { latency := b.cas, rowHit := true }
        else { latency := b.pre + b.ras + b.cas, rowHit := false }
    | none => { latency := b.ras + b.cas, rowHit := false }
  (price, { b with openRow := some row })

end OpenRowBank

/-- The timing model of a memory controller. -/
inductive MemoryTiming where
  | fixed (latency : UInt64)
  | openRow (bank : OpenRowBank)
deriving DecidableEq, Repr

namespace MemoryTiming

/-- The model that a configuration selects, with rows of `2 ^ rowBits` bytes. -/
def ofConfig (c : MemoryConfig) (rowBits : Nat) : MemoryTiming :=
  match c.controller with
  | .simple => fixed c.latency
  | .dram => openRow (.ofConfig c rowBits)

/-- Prices an access; reads and writebacks count alike. -/
def access : MemoryTiming → Addr → AccessPrice × MemoryTiming
  | fixed latency, _ => ({ latency, rowHit := false }, fixed latency)
  | openRow bank, line =>
      let (price, bank) := bank.access line
      (price, openRow bank)

end MemoryTiming

end CacheCoherence
