import CacheCoherence.Table.Slots
import Mathlib.Algebra.BigOperators.Intervals
import Mathlib.Algebra.Order.Group.Multiset
import Mathlib.Logic.Function.Basic

/-!
# Slots, by index — what a handle resolves to

A slot is known by its index. As long as a handle is the current one of its slot,
whatever is said through the handle is said about the content at that index, and every
change replaces the content at one index.
-/

namespace CacheCoherence

open Function (update update_self update_of_ne)

namespace SlotTable

variable {α : Type} {t : SlotTable α} {i j set : Nat} {line : Addr}

/-! ## Reading -/

theorem contentAt_of_le (h : t.capacity ≤ i) : t.contentAt i = .free := by
  have h : t.slots.size ≤ i := h
  simp [contentAt, h]

theorem lt_capacity (h : t.contentAt i ≠ .free) : i < t.capacity := by
  by_contra hi
  exact h (contentAt_of_le (Nat.le_of_not_lt hi))

theorem behind?_handleAt (h : i < t.capacity) :
    t.behind? (t.handleAt i) = some (t.contentAt i) := by
  have h : i < t.slots.size := h
  simp [behind?, live?, handleAt, contentAt, h, Option.filter]

/-- What the current handle of a slot that is not free resolves to. -/
theorem behind?_of_content {c : SlotContent α} (h : t.contentAt i = c) (hc : c ≠ .free) :
    t.behind? (t.handleAt i) = some c := by
  rw [behind?_handleAt (lt_capacity (h ▸ hc)), h]

theorem get?_handleAt (i : Nat) : t.get? (t.handleAt i) = (t.contentAt i).value? := by
  by_cases h : i < t.capacity
  · simp [get?, behind?_handleAt h]
  · have hle : t.slots.size ≤ i := Nat.le_of_not_lt h
    simp [get?, behind?, live?, handleAt, contentAt, hle, SlotContent.value?]

theorem lineOf?_handleAt (i : Nat) : t.lineOf? (t.handleAt i) = (t.contentAt i).line? := by
  by_cases h : i < t.capacity
  · simp [lineOf?, behind?_handleAt h]
  · have hle : t.slots.size ≤ i := Nat.le_of_not_lt h
    simp [lineOf?, behind?, live?, handleAt, contentAt, hle, SlotContent.line?]

/-- A handle that is not stale is the current one of its slot. -/
theorem of_behind? {h : Handle} {c : SlotContent α} (hb : t.behind? h = some c) :
    h = t.handleAt h.index ∧ t.contentAt h.index = c ∧ h.index < t.capacity := by
  obtain ⟨s, hs, rfl⟩ := Option.map_eq_some_iff.1 hb
  obtain ⟨hs, hgen⟩ := Option.filter_eq_some_iff.1 hs
  obtain ⟨index, generation⟩ := h
  obtain rfl : s.generation = generation := eq_of_beq hgen
  obtain ⟨hlt, -⟩ := Array.getElem?_eq_some_iff.1 hs
  exact ⟨by simp [handleAt, hs], by simp [contentAt, hs], hlt⟩

/-- A handle that resolves to a value is the current one of a slot that holds it. -/
theorem of_get? {h : Handle} {v : α} (hg : t.get? h = some v) :
    ∃ i line, h = t.handleAt i ∧ t.contentAt i = .filled line v := by
  obtain ⟨c, hc, hv⟩ := Option.bind_eq_some_iff.1 hg
  obtain ⟨hh, hcontent, -⟩ := of_behind? hc
  cases c with
  | filled line w =>
    cases hv
    exact ⟨h.index, line, hh, hcontent⟩
  | _ => cases hv

theorem mem_setIndices : i ∈ t.setIndices set ↔ set * t.ways ≤ i ∧ i < set * t.ways + t.ways := by
  simp [setIndices, List.mem_range'_1]

theorem mem_entries {h : Handle} {v : α} :
    (h, line, v) ∈ t.entries ↔ ∃ i, h = t.handleAt i ∧ t.contentAt i = .filled line v := by
  simp only [entries, List.mem_filterMap, List.mem_range]
  constructor
  · rintro ⟨i, -, hi⟩
    split at hi
    · next hc =>
      cases hi
      exact ⟨i, rfl, hc⟩
    · cases hi
  · rintro ⟨i, rfl, hc⟩
    refine ⟨i, lt_capacity (by rw [hc]; exact nofun), ?_⟩
    rw [hc]

/-! ## Search -/

theorem findIndex?_eq_none {p : SlotContent α → Bool} :
    t.findIndex? set p = none ↔ ∀ i ∈ t.setIndices set, p (t.contentAt i) = false := by
  simp [findIndex?]

theorem of_findIndex? {p : SlotContent α → Bool} (h : t.findIndex? set p = some i) :
    i ∈ t.setIndices set ∧ p (t.contentAt i) = true := by
  have hp := List.find?_some h
  exact ⟨List.mem_of_find?_eq_some h, hp⟩

/-- A search finds the slot that it is after when no other qualifies. -/
theorem findIndex?_eq_some {p : SlotContent α → Bool} (hi : i ∈ t.setIndices set)
    (hp : p (t.contentAt i) = true)
    (hu : ∀ j ∈ t.setIndices set, p (t.contentAt j) = true → j = i) :
    t.findIndex? set p = some i := by
  cases h : t.findIndex? set p with
  | none => simp [findIndex?_eq_none.1 h i hi] at hp
  | some j =>
    obtain ⟨hj, hpj⟩ := of_findIndex? h
    rw [hu j hj hpj]

theorem holds_iff {c : SlotContent α} : c.holds line = true ↔ ∃ v, c = .filled line v := by
  cases c <;> simp [SlotContent.holds]

theorem isFree_iff {c : SlotContent α} : c.isFree = true ↔ c = .free := by
  cases c <;> simp [SlotContent.isFree]

/-! ## Change -/

theorem contentAt_write (h : i < t.capacity) (c : SlotContent α) :
    (t.write i c).contentAt = update t.contentAt i c := by
  funext j
  by_cases hj : j = i
  · rw [hj, update_self, contentAt_write_self t c h]
  · rw [update_of_ne hj, contentAt_write_ne t c (Ne.symm hj)]

theorem contentAt_retire (h : i < t.capacity) (c : SlotContent α) :
    (t.retire i c).contentAt = update t.contentAt i c := by
  funext j
  by_cases hj : j = i
  · rw [hj, update_self, contentAt_retire_self t c h]
  · rw [update_of_ne hj, contentAt_retire_ne t c (Ne.symm hj)]

theorem handleAt_retire_ne (c : SlotContent α) (h : i ≠ j) :
    (t.retire i c).handleAt j = t.handleAt j := by
  simp [handleAt, retire, Array.getElem?_modify, h]

@[simp] theorem ways_write (i : Nat) (c : SlotContent α) : (t.write i c).ways = t.ways := rfl

@[simp] theorem ways_retire (i : Nat) (c : SlotContent α) : (t.retire i c).ways = t.ways := rfl

theorem modify_handleAt {v : α} (h : t.contentAt i = .filled line v) (f : α → α) :
    t.modify (t.handleAt i) f = t.write i (.filled line (f v)) := by
  rw [modify, behind?_of_content h nofun]
  rfl

theorem vacate_handleAt (h : t.contentAt i ≠ .free) :
    t.vacate (t.handleAt i) = ((t.contentAt i).value?, t.retire i .free) := by
  rw [vacate, behind?_handleAt (lt_capacity h)]
  rfl

theorem fill?_handleAt (h : t.contentAt i = .reserved line) (v : α) :
    t.fill? (t.handleAt i) v = some (t.write i (.filled line v)) := by
  rw [fill?, behind?_of_content h nofun]
  rfl

theorem repurpose?_handleAt {v : α} (h : t.contentAt i = .filled line v) (fresh : Addr) :
    t.repurpose? (t.handleAt i) fresh = some (v, (t.retire i (.reserved fresh)).handleAt i,
      t.retire i (.reserved fresh)) := by
  rw [repurpose?, behind?_of_content h nofun]
  rfl

/-! ## Counting -/

/-- Members of a list, counted one position after another. -/
theorem countP_eq_sum {β : Type} (p : β → Bool) (l : List β) :
    l.countP p = ∑ i ∈ Finset.range l.length, (l[i]?.any p).toNat := by
  induction l with
  | nil => rfl
  | cons a l ih =>
    rw [List.length_cons, Finset.sum_range_succ', List.countP_cons]
    simp only [List.getElem?_cons_succ, List.getElem?_cons_zero, Option.any_some, ← ih]
    cases p a <;> rfl

/-- The slots that hold a value, counted by index. -/
theorem occupied_eq_sum (t : SlotTable α) :
    t.occupied = ∑ i ∈ Finset.range t.capacity, (t.contentAt i).isFilled.toNat := by
  rw [occupied, ← Array.countP_toList, countP_eq_sum]
  refine Finset.sum_congr rfl fun i _ => ?_
  rw [contentAt, Array.getElem?_toList]
  cases t.slots[i]? <;> rfl

/-- The values that are listed, collected by index. -/
theorem coe_values (t : SlotTable α) : ((t.entries.map (·.2.2) : List α) : Multiset α)
    = ∑ i ∈ Finset.range t.capacity, ((t.contentAt i).value?.toList : Multiset α) := by
  rw [entries]
  induction t.capacity with
  | zero => rfl
  | succ n ih =>
    rw [List.range_succ, List.filterMap_append, List.map_append, ← Multiset.coe_add, ih,
      Finset.sum_range_succ]
    congr 1
    simp only [List.filterMap_cons, List.filterMap_nil]
    cases t.contentAt n <;> rfl

/-- There are as many values as slots that hold one. -/
theorem length_entries (t : SlotTable α) : t.entries.length = t.occupied := by
  have hcard := congrArg Multiset.card t.coe_values
  rw [Multiset.coe_card, List.length_map, Multiset.card_sum] at hcard
  rw [hcard, occupied_eq_sum]
  refine Finset.sum_congr rfl fun i _ => ?_
  cases t.contentAt i <;> rfl

/-- Where no slot is counted as holding a value, none does. -/
theorem contentAt_ne_filled (h : t.occupied = 0) (v : α) : t.contentAt i ≠ .filled line v := by
  intro hc
  have hi : i < t.capacity := lt_capacity (by rw [hc]; exact nofun)
  rw [occupied_eq_sum, Finset.sum_eq_zero_iff] at h
  have hzero := h i (Finset.mem_range.2 hi)
  rw [hc] at hzero
  cases hzero

/-- Where every slot is free, none is counted. -/
theorem occupied_eq_zero (h : ∀ i, t.contentAt i = .free) : t.occupied = 0 := by
  rw [occupied_eq_sum]
  exact Finset.sum_eq_zero fun i _ => by rw [h i]; rfl

/-! ## The table without entries -/

theorem contentAt_empty (sets ways i : Nat) :
    (empty sets ways : SlotTable α).contentAt i = .free := by
  simp only [contentAt, empty]
  by_cases h : i < sets * ways <;> simp [h]

@[simp] theorem capacity_empty (sets ways : Nat) :
    (empty sets ways : SlotTable α).capacity = sets * ways := by
  simp [capacity, empty]

end SlotTable

end CacheCoherence
