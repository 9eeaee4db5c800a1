import CacheCoherence.Address

/-!
# Slots — the arena behind resident lines and miss registers

A slot is free, reserved for a line that is still to come, or filled with a
value for a line. Slots are laid out set by set. A slot counts *generations*:
the count moves on whenever the slot stops holding the line it held, and a
handle remembers the generation at which it was issued. A handle whose slot has
moved on since is stale and resolves to nothing, so it cannot be taken for a
handle of the next occupant.
-/

namespace CacheCoherence

/-- A reference to a slot, good until the slot is vacated or repurposed. -/
structure Handle where
  index : Nat
  generation : UInt32
deriving DecidableEq, Repr, Inhabited

/-- What a slot holds. -/
inductive SlotContent (α : Type) where
  | free
  | reserved (line : Addr)
  | filled (line : Addr) (value : α)
deriving DecidableEq, Repr

namespace SlotContent

variable {α : Type}

/-- The line that the slot holds or awaits. -/
def line? : SlotContent α → Option Addr
  | free => none
  | reserved line => some line
  | filled line _ => some line

/-- The value in the slot. -/
def value? : SlotContent α → Option α
  | filled _ v => some v
  | _ => none

/-- Whether nothing holds or awaits the slot. -/
def isFree : SlotContent α → Bool
  | free => true
  | _ => false

/-- Whether the slot holds a value. -/
def isFilled : SlotContent α → Bool
  | filled _ _ => true
  | _ => false

/-- Whether the slot holds a value for `line`. -/
def holds (line : Addr) : SlotContent α → Bool
  | filled l _ => l == line
  | _ => false

/-- Whether the slot is reserved for `line`. -/
def awaits (line : Addr) : SlotContent α → Bool
  | reserved l => l == line
  | _ => false

end SlotContent

/-- A slot with its generation count, which wraps at the width of a handle's. -/
structure Slot (α : Type) where
  generation : UInt32 := 0
  content : SlotContent α := .free
deriving DecidableEq, Repr

/-- Slots in sets of `ways` each, set after set. -/
structure SlotTable (α : Type) where
  slots : Array (Slot α)
  ways : Nat
deriving DecidableEq, Repr

namespace SlotTable

variable {α : Type}

/-- A table of free slots. -/
def empty (sets ways : Nat) : SlotTable α :=
  { slots := Array.replicate (sets * ways) {}, ways }

/-- How many slots there are. -/
def capacity (t : SlotTable α) : Nat := t.slots.size

/-- The slot indices of a set, in way order. -/
def setIndices (t : SlotTable α) (set : Nat) : List Nat :=
  List.range' (set * t.ways) t.ways

/-- The way that a slot index stands for within its set. -/
def wayOf (t : SlotTable α) (index : Nat) : Nat := index % t.ways

/-- What the slot at `index` holds; there is nothing to hold beyond the table. -/
def contentAt (t : SlotTable α) (index : Nat) : SlotContent α :=
  (t.slots[index]?.map (·.content)).getD .free

/-- The current handle of the slot at `index`. -/
def handleAt (t : SlotTable α) (index : Nat) : Handle :=
  { index, generation := (t.slots[index]?.map (·.generation)).getD 0 }

/-- The slot behind `h`, if the handle is not stale. -/
def live? (t : SlotTable α) (h : Handle) : Option (Slot α) :=
  t.slots[h.index]?.filter (·.generation == h.generation)

/-- What the slot behind `h` holds, if the handle is not stale. -/
def behind? (t : SlotTable α) (h : Handle) : Option (SlotContent α) :=
  (t.live? h).map (·.content)

/-- The value behind `h`. -/
def get? (t : SlotTable α) (h : Handle) : Option α := (t.behind? h).bind (·.value?)

/-- The line held or awaited behind `h`. -/
def lineOf? (t : SlotTable α) (h : Handle) : Option Addr := (t.behind? h).bind (·.line?)

/-! ## Search -/

/-- The first slot index of `set` whose content satisfies `p`. -/
def findIndex? (t : SlotTable α) (set : Nat) (p : SlotContent α → Bool) : Option Nat :=
  (t.setIndices set).find? fun i => p (t.contentAt i)

/-- The slot of `set` that holds a value for `line`. -/
def findFilled? (t : SlotTable α) (set : Nat) (line : Addr) : Option Handle :=
  (t.findIndex? set (·.holds line)).map t.handleAt

/-- The slot of `set` that is reserved for `line`. -/
def findReserved? (t : SlotTable α) (set : Nat) (line : Addr) : Option Handle :=
  (t.findIndex? set (·.awaits line)).map t.handleAt

/-- The first free slot of `set`. -/
def freeIndex? (t : SlotTable α) (set : Nat) : Option Nat :=
  t.findIndex? set (·.isFree)

/-- How many slots hold a value. -/
def occupied (t : SlotTable α) : Nat := t.slots.countP (·.content.isFilled)

/-- How many slots of `set` are not free. -/
def inUse (t : SlotTable α) (set : Nat) : Nat :=
  (t.setIndices set).countP fun i => !(t.contentAt i).isFree

/-- The filled slots with their handles and lines, in slot order. -/
def entries (t : SlotTable α) : List (Handle × Addr × α) :=
  (List.range t.capacity).filterMap fun i =>
    match t.contentAt i with
    | .filled line v => some (t.handleAt i, line, v)
    | _ => none

/-! ## Change

Every change touches one slot. `write` is for a slot that goes on serving the
line it serves, `retire` for one that stops. -/

/-- Changes what the slot at `index` holds; handles stay good. -/
def write (t : SlotTable α) (index : Nat) (c : SlotContent α) : SlotTable α :=
  { t with slots := t.slots.modify index fun s => { s with content := c } }

/-- Changes what the slot at `index` holds and makes its handles stale. -/
def retire (t : SlotTable α) (index : Nat) (c : SlotContent α) : SlotTable α :=
  { t with
    slots := t.slots.modify index fun s => { generation := s.generation + 1, content := c } }

/-- Reserves a free slot for `line`. -/
def reserveAt? (t : SlotTable α) (index : Nat) (line : Addr) : Option (Handle × SlotTable α) :=
  if index < t.capacity ∧ (t.contentAt index).isFree then
    some (t.handleAt index, t.write index (.reserved line))
  else none

/-- Fills the reservation behind `h`, whose handle stays good. -/
def fill? (t : SlotTable α) (h : Handle) (v : α) : Option (SlotTable α) :=
  match t.behind? h with
  | some (.reserved line) => some (t.write h.index (.filled line v))
  | _ => none

/-- Changes the value behind `h`; a handle that resolves to no value changes
nothing. -/
def modify (t : SlotTable α) (h : Handle) (f : α → α) : SlotTable α :=
  match t.behind? h with
  | some (.filled line v) => t.write h.index (.filled line (f v))
  | _ => t

/-- Takes the value behind `h` out and reserves its slot for `line`, under a
new handle. -/
def repurpose? (t : SlotTable α) (h : Handle) (line : Addr) :
    Option (α × Handle × SlotTable α) :=
  match t.behind? h with
  | some (.filled _ v) =>
      let t := t.retire h.index (.reserved line)
      some (v, t.handleAt h.index, t)
  | _ => none

/-- Frees the slot behind `h` and gives its value back, if it held one. A free
slot, too, moves on to its next generation. -/
def vacate (t : SlotTable α) (h : Handle) : Option α × SlotTable α :=
  match t.behind? h with
  | some c => (c.value?, t.retire h.index .free)
  | none => (none, t)

/-! ## One slot changes, the others stay -/

@[simp] theorem capacity_write (t : SlotTable α) (i : Nat) (c : SlotContent α) :
    (t.write i c).capacity = t.capacity := by
  simp [capacity, write]

@[simp] theorem capacity_retire (t : SlotTable α) (i : Nat) (c : SlotContent α) :
    (t.retire i c).capacity = t.capacity := by
  simp [capacity, retire]

theorem contentAt_write_self (t : SlotTable α) {i : Nat} (c : SlotContent α)
    (h : i < t.capacity) : (t.write i c).contentAt i = c := by
  have h : i < t.slots.size := h
  simp [contentAt, write, Array.getElem_modify, h]

theorem contentAt_write_ne (t : SlotTable α) {i j : Nat} (c : SlotContent α) (h : i ≠ j) :
    (t.write i c).contentAt j = t.contentAt j := by
  simp [contentAt, write, Array.getElem?_modify, h]

theorem contentAt_retire_self (t : SlotTable α) {i : Nat} (c : SlotContent α)
    (h : i < t.capacity) : (t.retire i c).contentAt i = c := by
  have h : i < t.slots.size := h
  simp [contentAt, retire, Array.getElem_modify, h]

theorem contentAt_retire_ne (t : SlotTable α) {i j : Nat} (c : SlotContent α) (h : i ≠ j) :
    (t.retire i c).contentAt j = t.contentAt j := by
  simp [contentAt, retire, Array.getElem?_modify, h]

/-- What is written last counts. -/
theorem write_write (t : SlotTable α) (i : Nat) (c d : SlotContent α) :
    (t.write i c).write i d = t.write i d := by
  have h : ((t.write i c).write i d).slots = (t.write i d).slots := by
    apply Array.ext_getElem?
    intro j
    by_cases hj : i = j <;> simp [write, Array.getElem?_modify, hj]
    rfl
  exact congrArg (fun slots => { slots, ways := t.ways : SlotTable α }) h

/-- Writing keeps every handle good. -/
theorem handleAt_write (t : SlotTable α) (i j : Nat) (c : SlotContent α) :
    (t.write i c).handleAt j = t.handleAt j := by
  by_cases hij : i = j
  · subst hij
    by_cases h : i < t.slots.size <;> simp [handleAt, write, Array.getElem_modify, h]
  · simp [handleAt, write, Array.getElem?_modify, hij]

end SlotTable

end CacheCoherence
