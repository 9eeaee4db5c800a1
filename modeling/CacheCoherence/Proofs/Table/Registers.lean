import CacheCoherence.Proofs.Table.Slots
import CacheCoherence.Table.Mshr
import Mathlib.Tactic.Abel

/-!
# Registers, by index — what each change does to the miss registers

Registers never move and are never reserved, so every operation writes or frees the
register at one index.
-/

namespace CacheCoherence

open Function (update update_self update_of_ne)

namespace Mshr

variable {τ : Type} {m m' : Mshr τ} {r : Nat} {line : Addr} {v : τ}

/-- All registers form one set, which is not empty. -/
structure Shaped (m : Mshr τ) : Prop where
  whole : m.slots.ways = m.slots.capacity
  room : 0 < m.slots.capacity

/-- `m'` is `m` with other content in the register at `r`. -/
structure Sets (m m' : Mshr τ) (r : Nat) (c : SlotContent τ) : Prop where
  ways : m'.slots.ways = m.slots.ways
  capacity : m'.slots.capacity = m.slots.capacity
  content : m'.slots.contentAt = update m.slots.contentAt r c

theorem Sets.shaped {c : SlotContent τ} (h : m.Sets m' r c) (hs : m.Shaped) : m'.Shaped where
  whole := by rw [h.ways, h.capacity, hs.whole]
  room := by rw [h.capacity]; exact hs.room

theorem Shaped.mem_setIndices (h : m.Shaped) (hc : m.slots.contentAt r ≠ .free) :
    r ∈ m.slots.setIndices 0 := by
  have := SlotTable.lt_capacity hc
  rw [SlotTable.mem_setIndices, h.whole]
  omega

theorem sets_write (h : r < m.slots.capacity) (c : SlotContent τ) :
    m.Sets { slots := m.slots.write r c } r c where
  ways := SlotTable.ways_write ..
  capacity := SlotTable.capacity_write ..
  content := SlotTable.contentAt_write h c

/-- A free register is one of the registers. -/
theorem of_free? (hw : m.slots.ways = m.slots.capacity) {h : Handle} (hf : m.free? = some h) :
    ∃ r, h = m.slots.handleAt r ∧ m.slots.contentAt r = .free ∧ r < m.slots.capacity := by
  obtain ⟨r, hr, rfl⟩ := Option.map_eq_some_iff.1 hf
  obtain ⟨hmem, hfree⟩ := SlotTable.of_findIndex? hr
  refine ⟨r, rfl, SlotTable.isFree_iff.1 hfree, ?_⟩
  have := (SlotTable.mem_setIndices.1 hmem).2
  rw [hw] at this
  omega

theorem Shaped.of_free? (hs : m.Shaped) {h : Handle} (hf : m.free? = some h) :
    ∃ r, h = m.slots.handleAt r ∧ m.slots.contentAt r = .free ∧ r < m.slots.capacity :=
  Mshr.of_free? hs.whole hf

/-- Where a register is free, one is found. -/
theorem Shaped.free?_isSome (hs : m.Shaped) (hr : m.slots.contentAt r = .free)
    (hlt : r < m.slots.capacity) : m.free? ≠ none := by
  rw [free?, ne_eq, Option.map_eq_none_iff, SlotTable.freeIndex?, SlotTable.findIndex?_eq_none]
  intro hnone
  have hmem : r ∈ m.slots.setIndices 0 := by
    rw [SlotTable.mem_setIndices, hs.whole]
    omega
  have := hnone r hmem
  simp [hr, SlotContent.isFree] at this

/-- Taking up a register, or keeping it, frees none. -/
theorem Sets.full {c : SlotContent τ} (h : m.Sets m' r c) (hc : c ≠ .free) (hs : m.Shaped)
    (hfull : m.free? = none) : m'.free? = none := by
  by_contra hne
  obtain ⟨register, hsome⟩ := Option.ne_none_iff_exists'.1 hne
  obtain ⟨q, -, hq, hlt⟩ := (h.shaped hs).of_free? hsome
  rw [h.content] at hq
  by_cases hqr : q = r
  · rw [hqr, update_self] at hq
    exact hc hq
  · rw [update_of_ne hqr] at hq
    exact hs.free?_isSome hq (by rwa [h.capacity] at hlt) hfull

theorem assign_sets (h : r < m.slots.capacity) (line : Addr) (v : τ) :
    m.Sets (m.assign (m.slots.handleAt r) line v) r (.filled line v) :=
  sets_write h _

theorem modify_sets (h : m.slots.contentAt r = .filled line v) (f : τ → τ) :
    m.Sets (m.modify (m.slots.handleAt r) f) r (.filled line (f v)) := by
  rw [modify, SlotTable.modify_handleAt h]
  exact sets_write (SlotTable.lt_capacity (by rw [h]; exact nofun)) _

/-- Changing a transaction keeps every handle good. -/
theorem handleAt_modify (h : Handle) (f : τ → τ) (q : Nat) :
    (m.modify h f).slots.handleAt q = m.slots.handleAt q := by
  unfold modify SlotTable.modify
  dsimp only
  split
  · exact SlotTable.handleAt_write ..
  · rfl

theorem release_sets (h : m.slots.contentAt r ≠ .free) :
    m.Sets (m.release (m.slots.handleAt r)).2 r .free := by
  rw [release, SlotTable.vacate_handleAt h]
  exact {
    ways := SlotTable.ways_retire ..
    capacity := SlotTable.capacity_retire ..
    content := SlotTable.contentAt_retire (SlotTable.lt_capacity h) _ }

/-- The register of a line is found when no other register holds the line. -/
theorem outstanding?_eq_some (hs : m.Shaped) (h : m.slots.contentAt r = .filled line v)
    (hu : ∀ q w, m.slots.contentAt q = .filled line w → q = r) :
    m.outstanding? line = some (m.slots.handleAt r, v) := by
  have hfind : m.slots.findIndex? 0 (·.holds line) = some r := by
    refine SlotTable.findIndex?_eq_some (hs.mem_setIndices (by rw [h]; exact nofun))
      (SlotTable.holds_iff.2 ⟨v, h⟩) fun q _ hq => ?_
    obtain ⟨w, hw⟩ := SlotTable.holds_iff.1 hq
    exact hu q w hw
  rw [outstanding?, find?, SlotTable.findFilled?, hfind]
  show ((m.slots.get? (m.slots.handleAt r)).map _ : Option _) = _
  rw [SlotTable.get?_handleAt, h]
  rfl

theorem find?_eq_none (h : ∀ q w, m.slots.contentAt q ≠ .filled line w) : m.find? line = none := by
  rw [find?, SlotTable.findFilled?, Option.map_eq_none_iff, SlotTable.findIndex?_eq_none]
  intro q _
  rw [Bool.eq_false_iff]
  intro hq
  obtain ⟨w, hw⟩ := SlotTable.holds_iff.1 hq
  exact h q w hw

/-! ## What is outstanding -/

/-- The transactions that are outstanding, in whatever registers. -/
def transactions (m : Mshr τ) : Multiset τ := (m.entries.map (·.2.2) : List τ)

theorem card_transactions (m : Mshr τ) : m.transactions.card = m.occupancy := by
  rw [transactions, Multiset.coe_card, List.length_map, entries, SlotTable.length_entries,
    occupancy]

/-- A change exchanges what its own register holds. -/
theorem Sets.transactions {c : SlotContent τ} (h : m.Sets m' r c) (hr : r < m.slots.capacity) :
    m'.transactions + ((m.slots.contentAt r).value?.toList : Multiset τ)
      = m.transactions + (c.value?.toList : Multiset τ) := by
  have hmem : r ∈ Finset.range m.slots.capacity := Finset.mem_range.2 hr
  have hrest : ∑ i ∈ (Finset.range m.slots.capacity).erase r,
      ((update m.slots.contentAt r c i).value?.toList : Multiset τ)
      = ∑ i ∈ (Finset.range m.slots.capacity).erase r,
        ((m.slots.contentAt i).value?.toList : Multiset τ) :=
    Finset.sum_congr rfl fun i hi => by rw [update_of_ne (Finset.ne_of_mem_erase hi)]
  rw [Mshr.transactions, Mshr.transactions, entries, entries, SlotTable.coe_values,
    SlotTable.coe_values, h.capacity, h.content, ← Finset.add_sum_erase _ _ hmem,
    ← Finset.add_sum_erase _ _ hmem, update_self, hrest]
  abel

theorem of_get? {h : Handle} (hg : m.get? h = some v) :
    ∃ r line, h = m.slots.handleAt r ∧ m.slots.contentAt r = .filled line v ∧
      r < m.slots.capacity := by
  obtain ⟨r, line, rfl, hc⟩ := SlotTable.of_get? hg
  exact ⟨r, line, rfl, hc, SlotTable.lt_capacity (by rw [hc]; exact nofun)⟩

/-- A free register is taken. -/
theorem Shaped.enter {h : Handle} (hs : m.Shaped) (hf : m.free? = some h) (line : Addr) (v : τ) :
    (m.assign h line v).Shaped ∧ (m.assign h line v).transactions = m.transactions + {v} := by
  obtain ⟨r, rfl, hfree, hr⟩ := hs.of_free? hf
  have hset := assign_sets hr line v
  have hall := hset.transactions hr
  rw [hfree] at hall
  exact ⟨hset.shaped hs, by simpa [SlotContent.value?] using hall⟩

/-- A register that is in use is put to another use. -/
theorem Shaped.assign {w : τ} {h : Handle} (hs : m.Shaped) (hg : m.get? h = some w) (line : Addr)
    (v : τ) : (m.assign h line v).Shaped ∧
      (m.assign h line v).transactions + {w} = m.transactions + {v} := by
  obtain ⟨r, line', rfl, hc, hr⟩ := of_get? hg
  have hset := assign_sets hr line v
  have hall := hset.transactions hr
  rw [hc] at hall
  exact ⟨hset.shaped hs, hall⟩

/-- The transaction in a register changes. -/
theorem Shaped.modify {h : Handle} (hs : m.Shaped) (hg : m.get? h = some v) (f : τ → τ) :
    (m.modify h f).Shaped ∧ (m.modify h f).transactions + {v} = m.transactions + {f v} ∧
      (m.modify h f).get? h = some (f v) := by
  obtain ⟨r, line, rfl, hc, hr⟩ := of_get? hg
  have hset := modify_sets hc f
  have hall := hset.transactions hr
  rw [hc] at hall
  refine ⟨hset.shaped hs, hall, ?_⟩
  have hget := SlotTable.get?_handleAt (t := (m.modify (m.slots.handleAt r) f).slots) r
  rw [handleAt_modify, hset.content, update_self] at hget
  exact hget

/-- A register is freed. -/
theorem Shaped.release {h : Handle} (hs : m.Shaped) (hg : m.get? h = some v) :
    (m.release h).2.Shaped ∧ (m.release h).2.transactions + {v} = m.transactions := by
  obtain ⟨r, line, rfl, hc, hr⟩ := of_get? hg
  have hset := release_sets (m := m) (r := r) (by rw [hc]; exact nofun)
  have hall := hset.transactions hr
  rw [hc] at hall
  exact ⟨hset.shaped hs, by simpa [SlotContent.value?] using hall⟩

theorem get?_of_outstanding? {h : Handle} (ho : m.outstanding? line = some (h, v)) :
    m.get? h = some v := by
  obtain ⟨k, -, hk⟩ := Option.bind_eq_some_iff.1 ho
  obtain ⟨w, hw, heq⟩ := Option.map_eq_some_iff.1 hk
  cases heq
  exact hw

theorem of_findSome? {β : Type} {f : τ → Option β} {h : Handle} {x : β}
    (hf : m.findSome? f = some (h, line, x)) :
    ∃ r v, h = m.slots.handleAt r ∧ m.slots.contentAt r = .filled line v ∧ f v = some x := by
  obtain ⟨⟨k, line', v⟩, hmem, hv⟩ := List.exists_of_findSome?_eq_some hf
  obtain ⟨y, hy, heq⟩ := Option.map_eq_some_iff.1 hv
  cases heq
  obtain ⟨r, rfl, hc⟩ := SlotTable.mem_entries.1 hmem
  exact ⟨r, v, rfl, hc, hy⟩

theorem get?_of_findSome? {β : Type} {f : τ → Option β} {h : Handle} {x : β}
    (hf : m.findSome? f = some (h, line, x)) : ∃ v, m.get? h = some v ∧ f v = some x := by
  obtain ⟨r, v, rfl, hc, hv⟩ := of_findSome? hf
  refine ⟨v, ?_, hv⟩
  rw [get?, SlotTable.get?_handleAt, hc]
  rfl

/-- New registers are free. -/
theorem ofCapacity_shaped {n : Nat} (hn : 0 < n) : (ofCapacity n : Mshr τ).Shaped ∧
    ∀ r, (ofCapacity n : Mshr τ).slots.contentAt r = .free := by
  have hcap : (ofCapacity n : Mshr τ).slots.capacity = n := by
    rw [ofCapacity, SlotTable.capacity_empty, Nat.one_mul]
  exact ⟨⟨hcap.symm, by rw [hcap]; exact hn⟩, SlotTable.contentAt_empty 1 n⟩

end Mshr

end CacheCoherence
