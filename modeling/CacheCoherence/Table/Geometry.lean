import CacheCoherence.Address

/-!
# Geometry — size, line size, associativity and timing of a table

A geometry is realisable when it is a whole, power-of-two number of sets of
power-of-two lines. `validate` names the first thing that is wrong with one
that is not.
-/

namespace CacheCoherence

/-- The shape and timing of one cache table. -/
structure CacheGeometry where
  /-- Capacity in bytes. -/
  sizeBytes : UInt64 := 16384
  /-- Bytes in a line. -/
  lineBytes : UInt64 := 32
  /-- Lines in a set. -/
  ways : UInt64 := 4
  /-- Cycles before the response to a hit is delivered. -/
  hitTime : UInt64 := 1
  /-- Cycles before a message reaches the outbound link. -/
  lookupTime : UInt64 := 1
deriving DecidableEq, Repr, Inhabited

namespace CacheGeometry

/-- Bytes in a set. -/
def setBytes (g : CacheGeometry) : Nat := g.lineBytes.toNat * g.ways.toNat

/-- The number of sets; zero when a set is empty or exceeds a machine word. -/
def sets (g : CacheGeometry) : Nat :=
  if 0 < g.setBytes ∧ g.setBytes < UInt64.size then g.sizeBytes.toNat / g.setBytes else 0

/-- Checks that the geometry can be realised. -/
def validate (g : CacheGeometry) : Except GeometryError Unit :=
  if g.ways.toNat = 0 then .error .noWays
  else if ¬ IsPowerOfTwo g.lineBytes.toNat then .error (.lineSize g.lineBytes.toNat)
  else if UInt64.size ≤ g.setBytes then .error (.setOverflow g.ways.toNat g.lineBytes.toNat)
  else if g.sizeBytes.toNat = 0 ∨ g.sizeBytes.toNat % g.setBytes ≠ 0 then
    .error (.unevenSize g.sizeBytes.toNat g.ways.toNat g.lineBytes.toNat)
  else if ¬ IsPowerOfTwo g.sets then .error (.setCount g.sets)
  else .ok ()

/-- The address layout of a table of this geometry. -/
def layout? (g : CacheGeometry) : Except GeometryError AddressLayout := do
  g.validate
  AddressLayout.ofShape? g.lineBytes (UInt64.ofNat g.sets)

end CacheGeometry

end CacheCoherence
