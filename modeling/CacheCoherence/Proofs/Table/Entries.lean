import CacheCoherence.Proofs.Table.Ledger

/-!
# Entries — what is listed for one line

A table and the registers of a node list what they hold. Where every line has one place, a line
stands in either list at most once, and each list tells what the other has of the line.
-/

namespace CacheCoherence

namespace SlotTable

variable {α : Type}

/-- What is listed for the line `X`. -/
def listed (t : SlotTable α) (X : Addr) : List (Handle × α) :=
  t.entries.filterMap fun (h, line, v) => if line = X then some (h, v) else none

/-- Of a list without repetitions at most one member is picked out by a property that only one
member has. -/
theorem filterMap_eq_singleton {β : Type} {l : List Nat} {i : Nat} {f : Nat → Option β} {b : β}
    (hl : l.Nodup) (hi : i ∈ l) (hf : f i = some b) (hne : ∀ j, j ≠ i → f j = none) :
    l.filterMap f = [b] := by
  obtain ⟨l₁, l₂, rfl⟩ := List.append_of_mem hi
  have hnone : ∀ l' : List Nat, i ∉ l' → l'.filterMap f = [] := by
    intro l' hl'
    refine List.filterMap_eq_nil_iff.2 fun j hj => hne j ?_
    rintro rfl
    exact hl' hj
  obtain ⟨-, hl₂, hdisj⟩ := List.nodup_append.1 hl
  have h₁ : i ∉ l₁ := fun hmem => hdisj i hmem i List.mem_cons_self rfl
  rw [List.filterMap_append, List.filterMap_cons_some hf, hnone l₁ h₁,
    hnone l₂ (List.nodup_cons.1 hl₂).1]
  rfl

theorem listed_eq (t : SlotTable α) (X : Addr) :
    t.listed X = (List.range t.capacity).filterMap fun i =>
      match t.contentAt i with
      | .filled line v => if line = X then some (t.handleAt i, v) else none
      | _ => none := by
  rw [listed, entries, List.filterMap_filterMap]
  congr 1
  funext i
  cases t.contentAt i <;> rfl

/-- A line that no slot holds is not listed. -/
theorem listed_eq_nil {t : SlotTable α} {X : Addr} (h : ∀ i v, t.contentAt i ≠ .filled X v) :
    t.listed X = [] := by
  rw [listed_eq, List.filterMap_eq_nil_iff]
  intro i _
  cases hc : t.contentAt i with
  | filled Y w =>
    have hY : Y ≠ X := by
      rintro rfl
      exact h i w hc
    simp [hY]
  | _ => rfl

/-- A line that one slot holds is listed once. -/
theorem listed_eq_singleton {t : SlotTable α} {X : Addr} {i : Nat} {v : α}
    (hi : t.contentAt i = .filled X v) (h : ∀ j w, t.contentAt j = .filled X w → j = i) :
    t.listed X = [(t.handleAt i, v)] := by
  rw [listed_eq]
  have hmem : i ∈ List.range t.capacity := List.mem_range.2 (t.lt_capacity (by simp [hi]))
  refine filterMap_eq_singleton List.nodup_range hmem (by simp [hi]) ?_
  intro j hj
  cases hc : t.contentAt j with
  | filled Y w =>
    have hY : Y ≠ X := by
      rintro rfl
      exact hj (h j w hc)
    simp [hY]
  | _ => rfl

end SlotTable

variable {γ τ : Type}

/-- Table and registers have at most one entry each for the line `X`. A transaction that is not
about a resident line has no entry beside it in the table; one that is names the way of the
entry, which waits and stays. An entry that waits is leaving, or has such a transaction. -/
structure SingleEntry (resident? : τ → Option Handle) (stable : γ → Bool) (t : LineTable γ)
    (m : Mshr τ) (X : Addr) : Prop where
  way : (t.slots.listed X).length ≤ 1
  register : (m.slots.listed X).length ≤ 1
  fetched : ∀ r v, (r, v) ∈ m.slots.listed X → resident? v = none → t.slots.listed X = []
  resident : ∀ r v way, (r, v) ∈ m.slots.listed X → resident? v = some way →
    ∃ e, t.slots.listed X = [(way, e)] ∧ stable e.controller = false ∧ e.evicting = false
  waiting : ∀ way e, (way, e) ∈ t.slots.listed X → stable e.controller = false →
    e.evicting = true ∨ ∃ r v, (r, v) ∈ m.slots.listed X ∧ resident? v = some way

namespace Filing

variable {D : Discipline γ τ} {t : LineTable γ} {m : Mshr τ} {place : Addr → Place γ τ}

/-- A table lists a line where it is resident. -/
theorem listed_ways (h : Filing D t m place) (X : Addr) :
    t.slots.listed X
      = ((place X).resident?.map fun (i, e) => (t.slots.handleAt i, e)).toList := by
  cases hp : place X with
  | filed i e tx =>
    refine SlotTable.listed_eq_singleton (h.content_filed hp) fun j e' hj => ?_
    obtain ⟨tx', hp'⟩ := h.filed_of_content hj
    rw [hp] at hp'
    cases hp'
    rfl
  | _ =>
    refine SlotTable.listed_eq_nil fun i e hi => ?_
    obtain ⟨tx, hp'⟩ := h.filed_of_content hi
    rw [hp] at hp'
    cases hp'

/-- Registers list a line where a transaction is about it. -/
theorem listed_registers (h : Filing D t m place) (X : Addr) :
    m.slots.listed X
      = ((place X).register?.map fun (r, v) => (m.slots.handleAt r, v)).toList := by
  cases hp : (place X).register? with
  | some rv =>
    obtain ⟨r, v⟩ := rv
    refine SlotTable.listed_eq_singleton (h.content_register hp) fun j w hj => ?_
    rw [h.register_of_content hj] at hp
    cases hp
    rfl
  | none =>
    refine SlotTable.listed_eq_nil fun r v hr => ?_
    rw [h.register_of_content hr] at hp
    cases hp

/-- Where every line has one place, a line has at most one entry. -/
theorem single (h : Filing D t m place) {resident? : τ → Option Handle}
    (hres : ∀ v way, D.claim v = .resident way ↔ resident? v = some way) (X : Addr) :
    SingleEntry resident? D.stable t m X := by
  have hw := h.listed_ways X
  have hr := h.listed_registers X
  have hfits := h.fits X
  -- a transaction that lays claim to anything else is not about a resident line
  have hfetched : ∀ v, (∀ way, D.claim v ≠ .resident way) → resident? v = none := by
    intro v hv
    rw [Option.eq_none_iff_forall_ne_some]
    intro way hway
    exact hv way ((hres v way).2 hway)
  cases hp : place X with
  | absent =>
    simp only [hp, Place.resident?, Place.register?, Option.map_none, Option.toList_none] at hw hr
    constructor <;> simp [hw, hr]
  | filed i e tx =>
    simp only [hp, Place.resident?, Option.map_some, Option.toList_some] at hw
    rw [hp] at hfits
    cases tx with
    | none =>
      simp only [hp, Place.register?, Option.map_none, Option.toList_none] at hr
      constructor <;> simp [hw, hr]
      -- without a transaction only a line that leaves is kept waiting
      intro hst
      by_contra hev
      rw [hfits.2 (by simpa using hev)] at hst
      cases hst
    | some rv =>
      obtain ⟨r, v⟩ := rv
      simp only [hp, Place.register?, Option.map_some, Option.toList_some] at hr
      obtain ⟨-, hev, hst, hclaim⟩ := hfits
      have hway := (hres v _).1 hclaim
      constructor <;> simp [hw, hr, hway, hev, hst]
      rintro _ _ way rfl rfl hv
      rw [hway] at hv
      exact Option.some.inj hv
  | reserved i r v | waiting i r v =>
    simp only [hp, Place.resident?, Place.register?, Option.map_none, Option.toList_none,
      Option.map_some, Option.toList_some] at hw hr
    rw [hp] at hfits
    have hnone := hfetched v (by simp [hfits.2])
    constructor <;> simp [hw, hr, hnone]
    rintro _ _ way rfl rfl
    simp [hnone]

end Filing

end CacheCoherence
