import CacheCoherence.Table.Geometry
import CacheCoherence.Table.Recency
import CacheCoherence.Table.Slots

/-!
# Lines — the set-associative table of resident lines

A line table files entries under line addresses. Room for a line is found in
two steps: `reserve` takes a free way at once, and where the set is full it
only names the way that would have to go, leaving the eviction to the caller;
`install` fills a reservation once the line's data is there. Reserving,
filling, replacing and touching all count as uses of the way.
-/

namespace CacheCoherence

/-- A resident line with its protocol controller. -/
structure LineEntry (γ : Type) where
  /-- The line's data is present, not just its tag. -/
  haveData : Bool
  /-- The data is newer than that of the next level. -/
  dirty : Bool
  /-- The line is the victim of a replacement that is still going on. -/
  evicting : Bool
  controller : γ
deriving DecidableEq, Repr

/-- A line just filled: data present, clean, not being evicted. -/
def LineEntry.filled {γ : Type} (controller : γ) : LineEntry γ :=
  { haveData := true, dirty := false, evicting := false, controller }

/-- The answer to asking for a way. -/
inductive Reservation where
  /-- A free way is now reserved for the line. -/
  | free (way : Handle)
  /-- The set is full, and this resident line would be replaced. -/
  | victim (way : Handle)
  /-- The set is full, and the way to replace is itself reserved for a line. -/
  | busy (pendingLine : Addr)
deriving DecidableEq, Repr

/-- The table of resident lines. -/
structure LineTable (γ : Type) where
  layout : AddressLayout
  slots : SlotTable (LineEntry γ)
  replacement : Replacement
deriving DecidableEq, Repr

namespace LineTable

variable {γ : Type}

/-- An empty table with a given replacement policy. -/
def create? (g : CacheGeometry) (replacement : Replacement) :
    Except GeometryError (LineTable γ) := do
  let layout ← g.layout?
  return { layout, slots := SlotTable.empty g.sets g.ways.toNat, replacement }

/-- An empty table that replaces the least recently used way. -/
def leastRecent? (g : CacheGeometry) : Except GeometryError (LineTable γ) :=
  create? g (.leastRecent (Recency.initial g.sets g.ways.toNat))

/-- The address of the line that holds `a`. -/
def lineAddr (t : LineTable γ) (a : Addr) : Addr := t.layout.lineAddr a

/-- The set that the line of `a` falls into. -/
def setOf (t : LineTable γ) (a : Addr) : Nat := t.layout.setIndex (t.lineAddr a)

/-! ## Reading -/

/-- The way that holds the line of `a`. -/
def lookup (t : LineTable γ) (a : Addr) : Option Handle :=
  t.slots.findFilled? (t.setOf a) (t.lineAddr a)

/-- The way that is reserved for the line of `a`. -/
def reservationFor (t : LineTable γ) (a : Addr) : Option Handle :=
  t.slots.findReserved? (t.setOf a) (t.lineAddr a)

/-- The entry behind `h`. -/
def entry? (t : LineTable γ) (h : Handle) : Option (LineEntry γ) := t.slots.get? h

/-- The way and the entry of the line of `a`, if it is resident. -/
def resident? (t : LineTable γ) (a : Addr) : Option (Handle × LineEntry γ) :=
  (t.lookup a).bind fun h => (t.entry? h).map (h, ·)

/-- The line that `h` holds or awaits. -/
def lineOf? (t : LineTable γ) (h : Handle) : Option Addr := t.slots.lineOf? h

/-- How many lines are resident. -/
def occupancy (t : LineTable γ) : Nat := t.slots.occupied

/-- How many ways in the set of `a` are taken, reserved ones included. -/
def setOccupancy (t : LineTable γ) (a : Addr) : Nat := t.slots.inUse (t.layout.setIndex a)

/-- The resident lines, in slot order. -/
def entries (t : LineTable γ) : List (Handle × Addr × LineEntry γ) := t.slots.entries

/-- The slot that would have to be replaced to make room in `set`. -/
def victimIndex (t : LineTable γ) (set : Nat) : Nat :=
  set * t.slots.ways + t.replacement.victim set

/-! ## Changing -/

/-- Marks the way at `index` as just used. -/
def touchIndex (t : LineTable γ) (index : Nat) : LineTable γ :=
  { t with replacement := t.replacement.touch (index / t.slots.ways) (t.slots.wayOf index) }

/-- Marks the line behind `h` as just used; a stale handle marks nothing. -/
def touch (t : LineTable γ) (h : Handle) : LineTable γ :=
  if (t.lineOf? h).isSome then t.touchIndex h.index else t

/-- Asks for a way for the line of `a`. A free way is reserved and counts as
used, so that no later call picks it; otherwise nothing changes. -/
def reserve (t : LineTable γ) (a : Addr) : Reservation × LineTable γ :=
  let set := t.setOf a
  match (t.slots.freeIndex? set).bind fun i => t.slots.reserveAt? i (t.lineAddr a) with
  | some (h, slots) => (.free h, ({ t with slots } : LineTable γ).touchIndex h.index)
  | none =>
      let index := t.victimIndex set
      match t.slots.contentAt index with
      | .reserved pendingLine => (.busy pendingLine, t)
      | _ => (.victim (t.slots.handleAt index), t)

/-- Asking changes the table only if a free way is reserved. -/
theorem reserve_eq {t t' : LineTable γ} {a : Addr} {r : Reservation} (h : t.reserve a = (r, t')) :
    (∃ way, r = .free way) ∨ t' = t := by
  unfold reserve at h
  dsimp only at h
  split at h
  · cases h
    exact .inl ⟨_, rfl⟩
  · split at h <;> cases h <;> exact .inr rfl

/-- Fills the way reserved by `h`, which then counts as just used. -/
def install? (t : LineTable γ) (h : Handle) (e : LineEntry γ) : Option (LineTable γ) :=
  (t.slots.fill? h e).map fun slots => ({ t with slots } : LineTable γ).touch h

/-- Removes the line behind `h` and reserves its way for the line of `a`. Gives
the removed entry and the new reservation's handle. -/
def replace? (t : LineTable γ) (h : Handle) (a : Addr) :
    Option (LineEntry γ × Handle × LineTable γ) :=
  (t.slots.repurpose? h (t.lineAddr a)).map fun (old, fresh, slots) =>
    (old, fresh, ({ t with slots } : LineTable γ).touch fresh)

/-- Frees the way behind `h`, with the entry it held. -/
def release (t : LineTable γ) (h : Handle) : Option (LineEntry γ) × LineTable γ :=
  let (old, slots) := t.slots.vacate h
  (old, { t with slots })

/-- Changes the entry behind `h`. -/
def modify (t : LineTable γ) (h : Handle) (f : LineEntry γ → LineEntry γ) : LineTable γ :=
  { t with slots := t.slots.modify h f }

end LineTable

end CacheCoherence
