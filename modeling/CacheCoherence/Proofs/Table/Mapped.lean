import CacheCoherence.Table.Mshr

/-!
# Mapped tables — what slots hold does not matter to the table

A table moves values about and looks at lines only. So it makes no difference whether values are
exchanged for others before an operation or after it.
-/

namespace CacheCoherence

variable {α β : Type}

/-- The content with another value for the one that it holds. -/
def SlotContent.map (g : α → β) : SlotContent α → SlotContent β
  | free => free
  | reserved line => reserved line
  | filled line v => filled line (g v)

/-- The slot with another value in it. -/
def Slot.map (g : α → β) (s : Slot α) : Slot β :=
  { generation := s.generation, content := s.content.map g }

namespace SlotContent

variable (g : α → β) (c : SlotContent α)

@[simp] theorem value?_map : (c.map g).value? = c.value?.map g := by cases c <;> rfl

@[simp] theorem isFree_map : (c.map g).isFree = c.isFree := by cases c <;> rfl

@[simp] theorem isFilled_map : (c.map g).isFilled = c.isFilled := by cases c <;> rfl

@[simp] theorem holds_map (line : Addr) : (c.map g).holds line = c.holds line := by cases c <;> rfl

end SlotContent

namespace SlotTable

/-- The table with other values in its slots. -/
def map (g : α → β) (t : SlotTable α) : SlotTable β :=
  { slots := t.slots.map (·.map g), ways := t.ways }

variable (g : α → β) (t : SlotTable α) (h : Handle)

@[simp] theorem contentAt_map (i : Nat) : (t.map g).contentAt i = (t.contentAt i).map g := by
  simp only [contentAt, map, Array.getElem?_map]
  cases t.slots[i]? <;> rfl

@[simp] theorem handleAt_map (i : Nat) : (t.map g).handleAt i = t.handleAt i := by
  simp only [handleAt, map, Array.getElem?_map]
  cases t.slots[i]? <;> rfl

@[simp] theorem capacity_map : (t.map g).capacity = t.capacity := by simp [capacity, map]

@[simp] theorem behind?_map : (t.map g).behind? h = (t.behind? h).map (·.map g) := by
  simp only [behind?, live?, map, Array.getElem?_map]
  cases t.slots[h.index]? with
  | none => rfl
  | some s =>
    simp only [Option.map_some, Option.filter_some, Slot.map]
    split <;> rfl

@[simp] theorem get?_map : (t.map g).get? h = (t.get? h).map g := by
  rw [get?, get?, behind?_map]
  cases t.behind? h <;> simp

@[simp] theorem findFilled?_map (set : Nat) (line : Addr) :
    (t.map g).findFilled? set line = t.findFilled? set line := by
  simp only [findFilled?, findIndex?, contentAt_map, SlotContent.holds_map]
  congr 1
  funext i
  exact handleAt_map g t i

@[simp] theorem freeIndex?_map (set : Nat) : (t.map g).freeIndex? set = t.freeIndex? set := by
  simp only [freeIndex?, findIndex?, contentAt_map, SlotContent.isFree_map]
  rfl

@[simp] theorem occupied_map : (t.map g).occupied = t.occupied := by
  simp only [occupied, map, Array.countP_map, Function.comp_def, Slot.map, SlotContent.isFilled_map]

theorem entries_map :
    (t.map g).entries = t.entries.map fun (h, line, v) => (h, line, g v) := by
  simp only [entries, capacity_map, contentAt_map, handleAt_map, List.map_filterMap]
  congr 1
  funext i
  cases t.contentAt i <;> rfl

/-- It makes no difference whether a slot changes before the values are exchanged or after. -/
theorem modify_slots_map (i : Nat) {k : Slot α → Slot α} {k' : Slot β → Slot β}
    (hk : ∀ s, k' (s.map g) = (k s).map g) :
    { slots := (t.slots.map (·.map g)).modify i k', ways := t.ways }
      = map g { slots := t.slots.modify i k, ways := t.ways } := by
  simp only [map, mk.injEq, and_true]
  apply Array.ext_getElem?
  intro j
  by_cases hj : i = j <;> simp [Array.getElem?_modify, hj, hk, Function.comp_def]

theorem write_map (i : Nat) (c : SlotContent α) :
    (t.map g).write i (c.map g) = (t.write i c).map g :=
  modify_slots_map g t i (k := fun s => { s with content := c }) fun _ => rfl

theorem retire_map (i : Nat) (c : SlotContent α) :
    (t.map g).retire i (c.map g) = (t.retire i c).map g :=
  modify_slots_map g t i (k := fun s => { generation := s.generation + 1, content := c })
    fun _ => rfl

theorem modify_map {f : α → α} {f' : β → β} (hf : ∀ v, f' (g v) = g (f v)) :
    (t.map g).modify h f' = (t.modify h f).map g := by
  rw [modify, modify, behind?_map]
  cases t.behind? h with
  | none => rfl
  | some c =>
    cases c with
    | free | reserved => rfl
    | filled line v =>
      have hw := write_map g t h.index (.filled line (f v))
      rw [SlotContent.map, ← hf] at hw
      exact hw

theorem vacate_map :
    (t.map g).vacate h = ((t.vacate h).1.map g, (t.vacate h).2.map g) := by
  rw [vacate, vacate, behind?_map]
  cases t.behind? h with
  | none => rfl
  | some c => exact Prod.ext (SlotContent.value?_map g c) (retire_map g t h.index .free)

end SlotTable

namespace Mshr

/-- The registers with other transactions in them. -/
def map (g : α → β) (m : Mshr α) : Mshr β := { slots := m.slots.map g }

variable (g : α → β) (m : Mshr α) (h : Handle) (line : Addr)

@[simp] theorem free?_map : (m.map g).free? = m.free? := by
  simp only [free?, map, SlotTable.freeIndex?_map]
  congr 1
  funext i
  exact SlotTable.handleAt_map g m.slots i

@[simp] theorem find?_map : (m.map g).find? line = m.find? line :=
  SlotTable.findFilled?_map g m.slots 0 line

@[simp] theorem tracks_map : (m.map g).tracks line = m.tracks line := by rw [tracks, find?_map, tracks]

@[simp] theorem get?_map : (m.map g).get? h = (m.get? h).map g := SlotTable.get?_map g m.slots h

theorem outstanding?_map :
    (m.map g).outstanding? line = (m.outstanding? line).map fun (h, v) => (h, g v) := by
  rw [outstanding?, outstanding?, find?_map]
  cases m.find? line with
  | none => rfl
  | some h =>
    simp only [Option.bind_some, get?_map]
    cases m.get? h <;> rfl

@[simp] theorem occupancy_map : (m.map g).occupancy = m.occupancy := SlotTable.occupied_map g m.slots

theorem assign_map (v : α) : (m.map g).assign h line (g v) = (m.assign h line v).map g :=
  congrArg mk (SlotTable.write_map g m.slots h.index (.filled line v))

theorem modify_map {f : α → α} {f' : β → β} (hf : ∀ v, f' (g v) = g (f v)) :
    (m.map g).modify h f' = (m.modify h f).map g :=
  congrArg mk (SlotTable.modify_map g m.slots h hf)

theorem release_map : (m.map g).release h = ((m.release h).1.map g, (m.release h).2.map g) :=
  congrArg (fun p => (p.1, mk p.2)) (SlotTable.vacate_map g m.slots h)

/-- A search that sees in the new transaction what another sees in the old one. -/
theorem findSome?_map {γ δ : Type} {f : α → Option γ} {f' : β → Option δ} {k : γ → δ}
    (hf : ∀ v, f' (g v) = (f v).map k) :
    (m.map g).findSome? f' = (m.findSome? f).map fun (h, line, x) => (h, line, k x) := by
  rw [findSome?, findSome?, entries, entries, map, SlotTable.entries_map]
  induction m.slots.entries with
  | nil => rfl
  | cons e rest ih =>
    obtain ⟨h, line, v⟩ := e
    simp only [List.map_cons, List.findSome?_cons, hf]
    cases f v with
    | none => exact ih
    | some x => rfl

end Mshr

end CacheCoherence
