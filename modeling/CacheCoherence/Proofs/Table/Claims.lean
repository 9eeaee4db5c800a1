import CacheCoherence.Proofs.Table.Entries
import CacheCoherence.Proofs.Table.LedgerSteps

/-!
# Claims — which transaction has which way

A transaction names a way by its handle: the way that is reserved for its line, the way of the
victim that it waits for, or the way where its line is resident. Where every line has one place,
a way is never named twice, a way that is reserved or about to be given away is named by the
transaction that will have it, and no handle is named in vain.
-/

namespace CacheCoherence

variable {γ τ : Type}

/-- The way that a claim is laid to. -/
def Claim.way : Claim → Handle
  | awaits way | reserved way | resident way => way

/-- The outstanding transactions that name the way `i`. -/
def Mshr.claimants (claim : τ → Claim) (m : Mshr τ) (i : Nat) : List (Handle × Addr × τ) :=
  m.entries.filter fun (_, _, v) => (claim v).way.index == i

/-- Ways and transactions go together. A reserved way belongs to the one transaction that fetches
the line into it. A resident line that is being evicted leaves its way to the one transaction that
waits for it, on a line of the same set. No other transaction has a way reserved or waits for one,
and no way is named twice. -/
structure Allotted (claim : τ → Claim) (t : LineTable γ) (m : Mshr τ) : Prop where
  reserved : ∀ i X, t.slots.contentAt i = .reserved X →
    ∃ r v, m.claimants claim i = [(r, X, v)] ∧ claim v = .reserved (t.slots.handleAt i)
  leaving : ∀ i V e, t.slots.contentAt i = .filled V e → e.evicting = true →
    ∃ r X v, m.claimants claim i = [(r, X, v)] ∧ claim v = .awaits (t.slots.handleAt i) ∧
      t.setOf X = t.setOf V
  fetched : ∀ r X v way, (r, X, v) ∈ m.entries → claim v = .reserved way →
    t.slots.behind? way = some (.reserved X)
  awaited : ∀ r X v way, (r, X, v) ∈ m.entries → claim v = .awaits way →
    ∃ V e, t.slots.behind? way = some (.filled V e) ∧ e.evicting = true
  alone : ∀ i, (m.claimants claim i).length ≤ 1

/-! ## Slots that a property picks out -/

namespace SlotTable

variable {α : Type} {t : SlotTable α} {p : Handle × Addr × α → Bool}

theorem filter_entries (t : SlotTable α) (p : Handle × Addr × α → Bool) :
    t.entries.filter p = (List.range t.capacity).filterMap fun i =>
      match t.contentAt i with
      | .filled X v => if p (t.handleAt i, X, v) then some (t.handleAt i, X, v) else none
      | _ => none := by
  rw [entries, List.filter_filterMap]
  congr 1
  funext i
  cases t.contentAt i <;> simp [Option.filter]

/-- A property that only one slot has picks out what it holds. -/
theorem filter_entries_eq_singleton {i : Nat} {X : Addr} {v : α}
    (hi : t.contentAt i = .filled X v) (hp : p (t.handleAt i, X, v) = true)
    (hne : ∀ j Y w, t.contentAt j = .filled Y w → p (t.handleAt j, Y, w) = true → j = i) :
    t.entries.filter p = [(t.handleAt i, X, v)] := by
  rw [filter_entries]
  have hmem : i ∈ List.range t.capacity := List.mem_range.2 (t.lt_capacity (by simp [hi]))
  refine filterMap_eq_singleton List.nodup_range hmem (by simp [hi, hp]) ?_
  intro j hj
  cases hc : t.contentAt j with
  | filled Y w =>
    have hpw : ¬p (t.handleAt j, Y, w) = true := by
      intro hpw
      exact hj (hne j Y w hc hpw)
    simp [hpw]
  | _ => rfl

/-- A slot lies in one set. -/
theorem set_unique {i set set' : Nat} (h : i ∈ t.setIndices set) (h' : i ∈ t.setIndices set') :
    set = set' := by
  obtain ⟨hle, hlt⟩ := mem_setIndices.1 h
  obtain ⟨hle', hlt'⟩ := mem_setIndices.1 h'
  have hdiv : i / t.ways = set := Nat.div_eq_of_lt_le hle (by rw [Nat.succ_mul]; exact hlt)
  have hdiv' : i / t.ways = set' := Nat.div_eq_of_lt_le hle' (by rw [Nat.succ_mul]; exact hlt')
  rw [← hdiv, ← hdiv']

end SlotTable

/-! ## Ways and places -/

section Places

variable {D : Discipline γ τ} {t : LineTable γ} {m : Mshr τ} {place : Addr → Place γ τ}
  {X Y : Addr} {i r s : Nat} {v w : τ}

/-- A transaction names the way in which its line has to do. -/
theorem Filing.way_of_register (h : Filing D t m place) (hr : (place X).register? = some (r, v)) :
    ∃ i, (place X).way? = some i ∧ (D.claim v).way = t.slots.handleAt i := by
  have hfit := h.fits X
  cases hp : place X with
  | absent =>
    rw [hp] at hr
    cases hr
  | filed i e tx =>
    rw [hp] at hr hfit
    cases hr
    exact ⟨i, rfl, by rw [hfit.2.2.2]; rfl⟩
  | reserved i r v | waiting i r v =>
    rw [hp] at hr hfit
    cases hr
    exact ⟨i, rfl, by rw [hfit.2]; rfl⟩

/-- A line lies in the way that it has to do with, unless it waits for it. -/
theorem Place.waits_or_slot {p : Place γ τ} (hi : p.way? = some i) (X : Addr) :
    p.waits? = some i ∨ ∃ c, p.slot? X = some (i, c) := by
  cases p with
  | absent => cases hi
  | filed j e tx =>
    cases hi
    exact .inr ⟨_, rfl⟩
  | reserved j r v =>
    cases hi
    exact .inr ⟨_, rfl⟩
  | waiting j r v =>
    cases hi
    exact .inl rfl

/-- A line that is to leave has no transaction. -/
theorem Filing.register?_of_leaves (h : Filing D t m place) (hl : (place X).leaves? = some i) :
    (place X).register? = none := by
  obtain ⟨e, tx, hp, hev⟩ := Place.filed_of_leaves hl
  have hfit := h.fits X
  rw [hp] at hfit ⊢
  cases tx with
  | none => rfl
  | some rv =>
    have hstays : e.evicting = false := hfit.2.1
    rw [hev] at hstays
    cases hstays

namespace Ledger

/-- A line whose way another waits for has no transaction. -/
theorem register?_of_waits (h : Ledger D t m place) (hX : (place X).waits? = some i)
    {c : SlotContent (LineEntry γ)} (hY : (place Y).slot? Y = some (i, c)) :
    (place Y).register? = none := by
  obtain ⟨V, hV⟩ := (h.matched.iff i).1 ⟨X, hX⟩
  obtain rfl := h.eq_of_leaves hY hV
  exact h.register?_of_leaves hV

/-- Two transactions that name one way are about one line. -/
theorem owner_unique (h : Ledger D t m place) (hX : (place X).register? = some (r, v))
    (hY : (place Y).register? = some (s, w)) (hi : (place X).way? = some i)
    (hj : (place Y).way? = some i) : X = Y := by
  rcases Place.waits_or_slot hi X with hwX | ⟨c, hsX⟩
  · rcases Place.waits_or_slot hj Y with hwY | ⟨d, hsY⟩
    · exact h.matched.alone X Y i hwX hwY
    · rw [h.register?_of_waits hwX hsY] at hY
      cases hY
  · rcases Place.waits_or_slot hj Y with hwY | ⟨d, hsY⟩
    · rw [h.register?_of_waits hwY hsX] at hX
      cases hX
    · exact h.slot_unique hsX hsY

/-- The transaction of a line is the only one that names the line's way. -/
theorem claimants_eq (h : Ledger D t m place) (hX : (place X).register? = some (r, v))
    (hi : (place X).way? = some i) : m.claimants D.claim i = [(m.slots.handleAt r, X, v)] := by
  have hnames : ∀ {Y s w j}, (place Y).register? = some (s, w) → (D.claim w).way.index = j →
      (place Y).way? = some j := by
    intro Y s w j hY hj
    obtain ⟨k, hk, hway⟩ := h.way_of_register hY
    rw [hway] at hj
    rwa [← hj]
  refine SlotTable.filter_entries_eq_singleton (h.content_register hX) ?_ ?_
  · obtain ⟨k, hk, hway⟩ := h.way_of_register hX
    rw [hi] at hk
    cases hk
    simp [hway, SlotTable.handleAt]
  · intro q Y w hq hw
    have hY := h.register_of_content hq
    obtain rfl := h.owner_unique hX hY hi (hnames hY (by simpa using hw))
    rw [hX] at hY
    cases hY
    rfl

/-- Where every line has one place, ways and transactions go together. -/
theorem allotted (h : Ledger D t m place) : Allotted D.claim t m where
  reserved i X hi := by
    obtain ⟨r, v, hp⟩ := h.reserved_of_content hi
    have hfit : Place.Fits D t X (.reserved i r v) := hp ▸ h.fits X
    exact ⟨_, v, h.claimants_eq (by rw [hp]; rfl) (by rw [hp]; rfl), hfit.2⟩
  leaving i V e hi hev := by
    obtain ⟨tx, hV⟩ := h.filed_of_content hi
    obtain ⟨X, r, v, hp, -, -⟩ := h.waiter hV hev
    have hfit : Place.Fits D t X (.waiting i r v) := hp ▸ h.fits X
    have hset := SlotTable.set_unique hfit.1 ((h.fits V).inSet (by rw [hV]; rfl))
    refine ⟨_, X, v, h.claimants_eq (by rw [hp]; rfl) (by rw [hp]; rfl), hfit.2, ?_⟩
    rw [t.setOf_eq, t.setOf_eq, h.aligned_of hp nofun, h.aligned_of hV nofun, hset]
  fetched r X v way hmem hclaim := by
    obtain ⟨q, rfl, hq⟩ := SlotTable.mem_entries.1 hmem
    obtain ⟨i, hp, rfl⟩ := h.reserved_of_claim (h.register_of_content hq) hclaim
    exact SlotTable.behind?_of_content (h.content_reserved hp) nofun
  awaited r X v way hmem hclaim := by
    obtain ⟨q, rfl, hq⟩ := SlotTable.mem_entries.1 hmem
    obtain ⟨i, hp, rfl⟩ := h.waiting_of_claim (h.register_of_content hq) hclaim
    -- the line that it waits for lies in the way
    obtain ⟨V, hV⟩ := (h.matched.iff i).1 ⟨X, by simp only [hp]; rfl⟩
    obtain ⟨e, tx, hpV, hev⟩ := Place.filed_of_leaves hV
    exact ⟨V, e, SlotTable.behind?_of_content (h.content_filed hpV) nofun, hev⟩
  alone i := by
    cases hc : m.claimants D.claim i with
    | nil => exact Nat.zero_le 1
    | cons x rest =>
      obtain ⟨r, X, v⟩ := x
      have hmem : (r, X, v) ∈ m.claimants D.claim i := by simp [hc]
      obtain ⟨hentry, hi⟩ := List.mem_filter.1 hmem
      obtain ⟨q, rfl, hq⟩ := SlotTable.mem_entries.1 hentry
      have hX := h.register_of_content hq
      obtain ⟨j, hj, hway⟩ := h.way_of_register hX
      have hji : j = i := by simpa [hway, SlotTable.handleAt] using hi
      rw [← hc, h.claimants_eq hX (hji ▸ hj)]
      exact Nat.le_refl 1

end Ledger

end Places

end CacheCoherence
