import CacheCoherence.Proofs.Table.Fields
import CacheCoherence.Proofs.Table.LeastRecent

/-!
# Bounds — no slot beyond the table

A table looks up slots, and the orders of use of its sets, by an index that it computes from an
address, from an order of use, or from a handle. Here every such look-up fails beyond the end. In a
table of an accepted geometry none does, whatever has been done to it, and each operation gives what
it gives where a look-up cannot fail.
-/

namespace CacheCoherence

attribute [local instance (high)] instPowNat

/-- An index that is not one of the table's. -/
inductive OutOfBounds where
  | slot (index : Nat)
  | set (index : Nat)
deriving DecidableEq, Repr

/-! ## Slots -/

namespace SlotTable

variable {α : Type} {t : SlotTable α} {set i : Nat}

namespace Checked

/-- The slot at `index`. -/
def slotAt (t : SlotTable α) (index : Nat) : Except OutOfBounds (Slot α) :=
  match t.slots[index]? with
  | some s => .ok s
  | none => .error (.slot index)

/-- What the slot at `index` holds. -/
def contentAt (t : SlotTable α) (index : Nat) : Except OutOfBounds (SlotContent α) :=
  return (← slotAt t index).content

/-- The current handle of the slot at `index`. -/
def handleAt (t : SlotTable α) (index : Nat) : Except OutOfBounds Handle :=
  return { index, generation := (← slotAt t index).generation }

/-- The first of some indices whose slot satisfies `p`. The slots after it are not looked at. -/
def first? (t : SlotTable α) (p : SlotContent α → Bool) : List Nat → Except OutOfBounds (Option Nat)
  | [] => return none
  | i :: rest => do
      if p (← contentAt t i) then return some i else first? t p rest

/-- The handle of the first slot of `set` that satisfies `p`. -/
def findHandle? (t : SlotTable α) (set : Nat) (p : SlotContent α → Bool) :
    Except OutOfBounds (Option Handle) := do
  match ← first? t p (t.setIndices set) with
  | some i => return some (← handleAt t i)
  | none => return none

/-- How many slots of `set` are not free. -/
def inUse (t : SlotTable α) (set : Nat) : Except OutOfBounds Nat :=
  return (← (t.setIndices set).mapM (contentAt t)).countP fun c => !c.isFree

/-- Reserves a free slot for `line`. -/
def reserveAt? (t : SlotTable α) (index : Nat) (line : Addr) :
    Except OutOfBounds (Option (Handle × SlotTable α)) :=
  if index < t.capacity ∧ (t.contentAt index).isFree then
    return some (← handleAt (t.write index (.reserved line)) index, t.write index (.reserved line))
  else return none

theorem slotAt_eq_ok (h : i < t.slots.size) : slotAt t i = .ok t.slots[i] := by
  rw [slotAt, Array.getElem?_eq_getElem h]

theorem contentAt_eq_ok (h : i < t.capacity) : contentAt t i = .ok (t.contentAt i) := by
  rw [contentAt, slotAt_eq_ok h, ok_bind, SlotTable.contentAt, Array.getElem?_eq_getElem h]
  rfl

theorem handleAt_eq_ok (h : i < t.capacity) : handleAt t i = .ok (t.handleAt i) := by
  rw [handleAt, slotAt_eq_ok h, ok_bind, SlotTable.handleAt, Array.getElem?_eq_getElem h]
  rfl

/-- A search within the table finds what the same search finds that has no bounds to keep to. -/
theorem first?_eq_ok (p : SlotContent α → Bool) {is : List Nat} (h : ∀ i ∈ is, i < t.capacity) :
    first? t p is = .ok (is.find? fun i => p (t.contentAt i)) := by
  induction is with
  | nil => rfl
  | cons i rest ih =>
    obtain ⟨hi, hrest⟩ := List.forall_mem_cons.1 h
    rw [first?, contentAt_eq_ok hi, ok_bind, List.find?_cons]
    cases p (t.contentAt i) with
    | true => rfl
    | false => exact ih hrest

section Set

variable (h : ∀ i ∈ t.setIndices set, i < t.capacity)

include h

theorem findHandle?_eq_ok (p : SlotContent α → Bool) :
    findHandle? t set p = .ok ((t.findIndex? set p).map t.handleAt) := by
  rw [findHandle?, first?_eq_ok p h, ok_bind, ← findIndex?]
  cases hf : t.findIndex? set p with
  | none => rfl
  | some i =>
    have hi := h i (of_findIndex? hf).1
    dsimp only
    rw [handleAt_eq_ok hi, ok_bind]
    rfl

theorem inUse_eq_ok : inUse t set = .ok (t.inUse set) := by
  have hall : ∀ is : List Nat, (∀ i ∈ is, i < t.capacity) →
      is.mapM (contentAt t) = .ok (is.map t.contentAt) := by
    intro is his
    induction is with
    | nil => rfl
    | cons i rest ih =>
      obtain ⟨hi, hrest⟩ := List.forall_mem_cons.1 his
      rw [List.mapM_cons, contentAt_eq_ok hi, ok_bind, ih hrest, ok_bind]
      rfl
  rw [inUse, hall _ h, ok_bind, List.countP_map, SlotTable.inUse]
  rfl

end Set

theorem reserveAt?_eq_ok (t : SlotTable α) (i : Nat) (line : Addr) :
    reserveAt? t i line = .ok (t.reserveAt? i line) := by
  rw [reserveAt?, SlotTable.reserveAt?]
  split
  · next h =>
    have hi : i < (t.write i (.reserved line)).capacity := by
      rw [capacity_write]
      exact h.1
    rw [handleAt_eq_ok hi, ok_bind, handleAt_write]
    rfl
  · rfl

end Checked

end SlotTable

/-! ## Orders of use -/

namespace Replacement

variable {p : Replacement} {sets set : Nat}

/-- A policy that keeps orders of use keeps one for every set. -/
def Covers (sets : Nat) : Replacement → Prop
  | .leastRecent r => r.orders.size = sets
  | .pinned _ => True

namespace Checked

/-- Takes note that `way` of `set` was used. -/
def touch : Replacement → Nat → Nat → Except OutOfBounds Replacement
  | .leastRecent r, set, way =>
      if set < r.orders.size then .ok (.leastRecent (r.touch set way)) else .error (.set set)
  | .pinned w, _, _ => .ok (.pinned w)

/-- The way of `set` to replace next. -/
def victim : Replacement → Nat → Except OutOfBounds Nat
  | .leastRecent r, set =>
      match r.orders[set]? with
      | some order => .ok (order.getLast?.getD 0)
      | none => .error (.set set)
  | .pinned w, _ => .ok w

theorem touch_eq_ok (h : p.Covers sets) (hs : set < sets) (way : Nat) :
    touch p set way = .ok (p.touch set way) := by
  cases p with
  | pinned w => rfl
  | leastRecent r =>
    have hs : set < r.orders.size := hs.trans_eq h.symm
    rw [touch, if_pos hs]
    rfl

theorem victim_eq_ok (h : p.Covers sets) (hs : set < sets) : victim p set = .ok (p.victim set) := by
  cases p with
  | pinned w => rfl
  | leastRecent r =>
    have hs : set < r.orders.size := hs.trans_eq h.symm
    rw [victim, Replacement.victim, Recency.victim, Recency.order, Array.getElem?_eq_getElem hs]
    rfl

end Checked

end Replacement

/-! ## Lines -/

namespace LineTable

variable {γ : Type} {t : LineTable γ} {i : Nat}

namespace Checked

/-- The way that holds the line of `a`. -/
def lookup (t : LineTable γ) (a : Addr) : Except OutOfBounds (Option Handle) :=
  SlotTable.Checked.findHandle? t.slots (t.setOf a) (·.holds (t.lineAddr a))

/-- The way that is reserved for the line of `a`. -/
def reservationFor (t : LineTable γ) (a : Addr) : Except OutOfBounds (Option Handle) :=
  SlotTable.Checked.findHandle? t.slots (t.setOf a) (·.awaits (t.lineAddr a))

/-- How many ways in the set of `a` are taken. -/
def setOccupancy (t : LineTable γ) (a : Addr) : Except OutOfBounds Nat :=
  SlotTable.Checked.inUse t.slots (t.layout.setIndex a)

/-- Marks the line behind `h` as just used. -/
def touch (t : LineTable γ) (h : Handle) : Except OutOfBounds (LineTable γ) :=
  if (t.lineOf? h).isSome then do
    let replacement ← Replacement.Checked.touch t.replacement (h.index / t.slots.ways)
      (t.slots.wayOf h.index)
    return { t with replacement }
  else return t

/-- The slot that would have to be replaced to make room in `set`. -/
def victimIndex (t : LineTable γ) (set : Nat) : Except OutOfBounds Nat :=
  return set * t.slots.ways + (← Replacement.Checked.victim t.replacement set)

/-- Names the way of `set` that would have to go. -/
def nameVictim (t : LineTable γ) (set : Nat) : Except OutOfBounds Reservation := do
  let index ← victimIndex t set
  match ← SlotTable.Checked.contentAt t.slots index with
  | .reserved pendingLine => return .busy pendingLine
  | _ => return .victim (← SlotTable.Checked.handleAt t.slots index)

/-- Reserves the first free way of the set of `a`, if there is one. -/
def reserveFree? (t : LineTable γ) (a : Addr) :
    Except OutOfBounds (Option (Handle × LineTable γ)) := do
  match ← SlotTable.Checked.first? t.slots (·.isFree) (t.slots.setIndices (t.setOf a)) with
  | none => return none
  | some i =>
      match ← SlotTable.Checked.reserveAt? t.slots i (t.lineAddr a) with
      | none => return none
      | some (h, slots) =>
          let replacement ← Replacement.Checked.touch t.replacement (t.setOf a) (t.slots.wayOf i)
          return some (h, { t with slots, replacement })

/-- Asks for a way for the line of `a`. -/
def reserve (t : LineTable γ) (a : Addr) : Except OutOfBounds (Reservation × LineTable γ) := do
  match ← reserveFree? t a with
  | some (h, t) => return (.free h, t)
  | none => return (← nameVictim t (t.setOf a), t)

/-- Fills the way reserved by `h`. -/
def install? (t : LineTable γ) (h : Handle) (e : LineEntry γ) :
    Except OutOfBounds (Option (LineTable γ)) :=
  match t.slots.fill? h e with
  | some slots => return some (← touch { t with slots } h)
  | none => return none

/-- Removes the line behind `h` and reserves its way for the line of `a`. -/
def replace? (t : LineTable γ) (h : Handle) (a : Addr) :
    Except OutOfBounds (Option (LineEntry γ × Handle × LineTable γ)) :=
  match t.slots.behind? h with
  | some (.filled _ e) => do
      let fresh ← SlotTable.Checked.handleAt
        (t.slots.retire h.index (.reserved (t.lineAddr a))) h.index
      let t' ← touch { t with slots := t.slots.retire h.index (.reserved (t.lineAddr a)) } fresh
      return some (e, fresh, t')
  | _ => return none

/-- The table after a call. A handle is resolved by a look-up that may come to nothing, so freeing
a way and changing an entry cannot fail. -/
def apply (t : LineTable γ) : TableCall γ → Except OutOfBounds (LineTable γ)
  | .reserve a => return (← reserve t a).2
  | .install way e => return (← install? t way e).getD t
  | .touch way => touch t way
  | .replace way a => return ((← replace? t way a).map fun (_, _, t') => t').getD t
  | .release way => return (t.release way).2
  | .modify way f => return t.modify way f
  | .lookup a => do
      let _ ← lookup t a
      return t
  | .reservationFor a => do
      let _ ← reservationFor t a
      return t
  | .entries => return t

/-- The table after some calls, up to the first that fails. -/
def after (t : LineTable γ) (calls : List (TableCall γ)) : Except OutOfBounds (LineTable γ) :=
  calls.foldlM apply t

end Checked

theorem setOf_lt (t : LineTable γ) (a : Addr) : t.setOf a < t.layout.sets := t.layout.setIndex_lt _

/-- A table in shape that keeps an order of use for every set. -/
structure Covered (t : LineTable γ) : Prop extends t.Shaped where
  covers : t.replacement.Covers t.layout.sets

namespace Covered

/-- The ways of every set are in the table. -/
theorem lt_capacity (h : t.Covered) (a : Addr) : ∀ i ∈ t.slots.setIndices (t.layout.setIndex a),
    i < t.slots.capacity :=
  fun _ hi => h.toShaped.lt_capacity hi

theorem lt_capacity_setOf (h : t.Covered) (a : Addr) : ∀ i ∈ t.slots.setIndices (t.setOf a),
    i < t.slots.capacity :=
  h.lt_capacity (t.lineAddr a)

/-- The slots of the table are those of its sets. -/
theorem div_lt_sets (h : t.Covered) (hi : i < t.slots.capacity) :
    i / t.slots.ways < t.layout.sets := by
  rw [h.capacity] at hi
  exact (Nat.div_lt_iff_lt_mul h.ways_pos).2 hi

theorem write (h : t.Covered) (hi : i < t.slots.capacity) (c : SlotContent (LineEntry γ)) :
    Covered { t with slots := t.slots.write i c } where
  toShaped := (writes_slots hi c).shaped h.toShaped
  covers := h.covers

theorem retire (h : t.Covered) (hi : i < t.slots.capacity) (c : SlotContent (LineEntry γ)) :
    Covered { t with slots := t.slots.retire i c } where
  toShaped := (retires_slots hi c).shaped h.toShaped
  covers := h.covers

theorem lookup (h : t.Covered) (a : Addr) : Checked.lookup t a = .ok (t.lookup a) :=
  SlotTable.Checked.findHandle?_eq_ok (h.lt_capacity_setOf a) _

theorem reservationFor (h : t.Covered) (a : Addr) :
    Checked.reservationFor t a = .ok (t.reservationFor a) :=
  SlotTable.Checked.findHandle?_eq_ok (h.lt_capacity_setOf a) _

theorem setOccupancy (h : t.Covered) (a : Addr) :
    Checked.setOccupancy t a = .ok (t.setOccupancy a) :=
  SlotTable.Checked.inUse_eq_ok (h.lt_capacity a)

/-- A handle that resolves is one of a slot of the table, and so of one of its sets. -/
theorem touch (h : t.Covered) (way : Handle) : Checked.touch t way = .ok (t.touch way) := by
  rw [Checked.touch, LineTable.touch]
  split
  · next hline =>
    obtain ⟨line, hline⟩ := Option.isSome_iff_exists.1 hline
    obtain ⟨c, hc, -⟩ := Option.bind_eq_some_iff.1 hline
    obtain ⟨-, -, hi⟩ := SlotTable.of_behind? hc
    rw [Replacement.Checked.touch_eq_ok h.covers (h.div_lt_sets hi)]
    rfl
  · rfl

theorem nameVictim (h : t.Covered) {a : Addr} (hf : t.slots.freeIndex? (t.setOf a) = none) :
    Checked.nameVictim t (t.setOf a) = .ok (t.reserve a).1 := by
  have hi : t.victimIndex (t.setOf a) < t.slots.capacity :=
    h.toShaped.lt_capacity (victimIndex_inSet h.toShaped a)
  have hindex : Checked.victimIndex t (t.setOf a) = .ok (t.victimIndex (t.setOf a)) := by
    rw [Checked.victimIndex, Replacement.Checked.victim_eq_ok h.covers (setOf_lt t a), ok_bind]
    rfl
  rw [Checked.nameVictim, hindex, ok_bind, SlotTable.Checked.contentAt_eq_ok hi, ok_bind,
    SlotTable.Checked.handleAt_eq_ok hi, reserve_of_full hf]
  cases t.slots.contentAt (t.victimIndex (t.setOf a)) <;> rfl

/-- The first free way of the set is taken. It counts as used in the set that was searched, which is
the one that its index stands for. -/
theorem reserveFree? (h : t.Covered) (a : Addr) : Checked.reserveFree? t a
    = .ok ((t.slots.freeIndex? (t.setOf a)).map fun i => (t.slots.handleAt i,
        ({ t with slots := t.slots.write i (.reserved (t.lineAddr a)) } : LineTable γ).touchIndex
          i)) := by
  rw [Checked.reserveFree?, SlotTable.Checked.first?_eq_ok _ (h.lt_capacity_setOf a), ok_bind,
    ← SlotTable.findIndex?, ← SlotTable.freeIndex?]
  cases hf : t.slots.freeIndex? (t.setOf a) with
  | none => rfl
  | some i =>
    obtain ⟨hmem, hfree⟩ := SlotTable.of_findIndex? hf
    have hset : i / t.slots.ways = t.setOf a := (mem_setIndices_iff h.toShaped).1 hmem
    dsimp only
    rw [SlotTable.Checked.reserveAt?_eq_ok, ok_bind, SlotTable.reserveAt?,
      if_pos ⟨h.lt_capacity_setOf a i hmem, hfree⟩,
      Replacement.Checked.touch_eq_ok h.covers (setOf_lt t a), ← hset]
    rfl

theorem reserve (h : t.Covered) (a : Addr) : Checked.reserve t a = .ok (t.reserve a) := by
  rw [Checked.reserve, h.reserveFree?, ok_bind]
  cases hf : t.slots.freeIndex? (t.setOf a) with
  | none =>
    have hstay : (t.reserve a).2 = t := by rw [reserve_of_full hf]
    have hpair : ((t.reserve a).1, t) = t.reserve a := Prod.ext rfl hstay.symm
    dsimp only [Option.map_none]
    rw [h.nameVictim hf, ok_bind, hpair]
    rfl
  | some i =>
    obtain ⟨hmem, -⟩ := SlotTable.of_findIndex? hf
    rw [reserve_of_free hf (h.lt_capacity_setOf a i hmem)]
    rfl

theorem install? (h : t.Covered) (way : Handle) (e : LineEntry γ) :
    Checked.install? t way e = .ok (t.install? way e) := by
  rw [Checked.install?, LineTable.install?, SlotTable.fill?]
  cases hb : t.slots.behind? way with
  | none => rfl
  | some c =>
    cases c with
    | reserved line =>
      obtain ⟨-, -, hi⟩ := SlotTable.of_behind? hb
      dsimp only
      rw [(h.write hi _).touch, ok_bind]
      rfl
    | free | filled => rfl

theorem replace? (h : t.Covered) (way : Handle) (a : Addr) :
    Checked.replace? t way a = .ok (t.replace? way a) := by
  rw [Checked.replace?, LineTable.replace?, SlotTable.repurpose?]
  cases hb : t.slots.behind? way with
  | none => rfl
  | some c =>
    cases c with
    | filled line e =>
      obtain ⟨-, -, hi⟩ := SlotTable.of_behind? hb
      have hretired :
          way.index < (t.slots.retire way.index (.reserved (t.lineAddr a))).capacity := by
        rwa [SlotTable.capacity_retire]
      dsimp only
      rw [SlotTable.Checked.handleAt_eq_ok hretired, ok_bind, (h.retire hi _).touch, ok_bind]
      rfl
    | free | reserved => rfl

/-- No call fails. -/
theorem apply (h : t.Covered) (c : TableCall γ) : Checked.apply t c = .ok (t.apply c) := by
  cases c with
  | reserve a =>
    rw [Checked.apply, h.reserve]
    rfl
  | install way e =>
    rw [Checked.apply, h.install?]
    rfl
  | touch way => exact h.touch way
  | replace way a =>
    rw [Checked.apply, h.replace?]
    rfl
  | lookup a =>
    rw [Checked.apply, h.lookup]
    rfl
  | reservationFor a =>
    rw [Checked.apply, h.reservationFor]
    rfl
  | release | modify | entries => rfl

end Covered

/-- However it is used, a table keeps an order of use for every set. -/
theorem Fresh.covered_after (h : t.Fresh) (calls : List (TableCall γ)) :
    (t.after calls).Covered := by
  obtain ⟨r, hr⟩ := h.ordered calls
  obtain ⟨hlayout, -, -⟩ := h.shape_after calls
  refine ⟨h.toShaped.after calls, ?_⟩
  rw [hr.replacement, hlayout]
  exact hr.size

/-- No run fails. -/
theorem Fresh.checked_after (h : t.Fresh) (calls : List (TableCall γ)) :
    Checked.after t calls = .ok (t.after calls) := by
  induction calls using List.reverseRecOn with
  | nil => rfl
  | append_singleton calls c ih =>
    rw [Checked.after, List.foldlM_append, ← Checked.after, ih, ok_bind, List.foldlM_cons,
      (h.covered_after calls).apply, ok_bind, after_concat]
    rfl

/-- No operation on the table looks at a slot or a set that is not there. -/
structure InBounds (t : LineTable γ) : Prop where
  /-- Every index is a machine word. -/
  capacity_lt : t.slots.capacity < UInt64.size
  ways_pos : 0 < t.slots.ways
  /-- The ways of every address's set are in the table. -/
  ways : ∀ a, ∀ i ∈ t.slots.setIndices (t.layout.setIndex a), i < t.slots.capacity
  lookup : ∀ a, Checked.lookup t a = .ok (t.lookup a)
  reservationFor : ∀ a, Checked.reservationFor t a = .ok (t.reservationFor a)
  setOccupancy : ∀ a, Checked.setOccupancy t a = .ok (t.setOccupancy a)
  reserve : ∀ a, Checked.reserve t a = .ok (t.reserve a)
  touch : ∀ way, Checked.touch t way = .ok (t.touch way)
  install : ∀ way e, Checked.install? t way e = .ok (t.install? way e)
  replace : ∀ way a, Checked.replace? t way a = .ok (t.replace? way a)

theorem Covered.inBounds (h : t.Covered) (hlt : t.slots.capacity < UInt64.size) : t.InBounds where
  capacity_lt := hlt
  ways_pos := h.ways_pos
  ways := h.lt_capacity
  lookup := h.lookup
  reservationFor := h.reservationFor
  setOccupancy := h.setOccupancy
  reserve := h.reserve
  touch := h.touch
  install := h.install?
  replace := h.replace?

-- A table that is one slot short is not in bounds.
example : Checked.setOccupancy (γ := Unit) ⟨⟨5, 0, by decide, by decide⟩, ⟨#[{}], 2⟩, .pinned 0⟩ 0
    = .error (.slot 1) := by rfl

/-- The lines of a table are no more than its bytes. -/
theorem capacity_le {g : CacheGeometry} (h : leastRecent? g = .ok t) :
    t.slots.capacity = g.sets * g.ways.toNat ∧ t.slots.capacity ≤ g.sizeBytes.toNat := by
  obtain ⟨l, hl, h⟩ := bind_eq_ok.1 h
  cases h
  have hcapacity : (SlotTable.empty g.sets g.ways.toNat : SlotTable (LineEntry γ)).capacity
      = g.sets * g.ways.toNat := SlotTable.capacity_empty ..
  refine ⟨hcapacity, ?_⟩
  rw [hcapacity, CacheGeometry.sets]
  split
  · next hset =>
    have hline : 0 < g.lineBytes.toNat := Nat.pos_of_mul_pos_right hset.1
    calc g.sizeBytes.toNat / g.setBytes * g.ways.toNat
        ≤ g.sizeBytes.toNat / g.setBytes * g.setBytes :=
          Nat.mul_le_mul_left _ (Nat.le_mul_of_pos_left _ hline)
      _ ≤ g.sizeBytes.toNat := Nat.div_mul_le_self ..
  · rw [Nat.zero_mul]
    exact Nat.zero_le _

/-- A layout is had for exactly the powers of two, and splits the addresses. A geometry that passes
its check has one, and its table keeps within its slots and sets however it is used. -/
theorem splits_and_inBounds :
    (∀ lineBytes sets, (∃ l, AddressLayout.ofShape? lineBytes sets = .ok l) ↔
      (∃ i : Nat, lineBytes.toNat = 2 ^ i) ∧ ∃ j : Nat, sets.toNat = 2 ^ j) ∧
    (∀ lineBytes sets l, AddressLayout.ofShape? lineBytes sets = .ok l →
      l.Splits lineBytes.toNat sets.toNat) ∧
    ∀ g : CacheGeometry, g.validate = .ok () → (UInt64.ofNat g.sets).toNat = g.sets ∧
      ∃ l, AddressLayout.ofShape? g.lineBytes (UInt64.ofNat g.sets) = .ok l ∧
        ∀ γ : Type, ∃ t : LineTable γ, leastRecent? g = .ok t ∧ t.layout = l ∧
          t.slots.capacity = g.sets * g.ways.toNat ∧
          ∀ calls, Checked.after t calls = .ok (t.after calls) ∧ (t.after calls).InBounds := by
  refine ⟨fun _ _ => AddressLayout.exists_ofShape?_iff,
    fun _ _ _ => AddressLayout.splits_of_ofShape?, fun g hv => ?_⟩
  obtain ⟨-, -, hword, -⟩ := of_validate hv
  obtain ⟨l, hl⟩ := exists_layout? hv
  have hshape : AddressLayout.ofShape? g.lineBytes (UInt64.ofNat g.sets) = .ok l := by
    rwa [CacheGeometry.layout?, hv, ok_bind] at hl
  refine ⟨hword, l, hshape, fun γ => ?_⟩
  obtain ⟨t, ht⟩ := exists_leastRecent? (γ := γ) hv
  have hlayout : t.layout = l := by
    rw [leastRecent?, create?, hl, ok_bind] at ht
    cases ht
    rfl
  obtain ⟨hcapacity, hle⟩ := capacity_le ht
  have hfresh := fresh_leastRecent? ht
  refine ⟨t, ht, hlayout, hcapacity, fun calls =>
    ⟨hfresh.checked_after calls, (hfresh.covered_after calls).inBounds ?_⟩⟩
  obtain ⟨-, -, hsame⟩ := hfresh.shape_after calls
  rw [hsame]
  exact hle.trans_lt g.sizeBytes.toNat_lt

/-- A cache of one line, which is half of all there is. -/
def halfOfAll : CacheGeometry :=
  { sizeBytes := 9223372036854775808, lineBytes := 9223372036854775808, ways := 1 }

/-- Lines and sets may both be as many as a word can count, where offset and index take more bits
than an address has. -/
theorem splits_and_inBounds_half :
    (∃ l, AddressLayout.ofShape? 9223372036854775808 9223372036854775808 = .ok l ∧
      l.Splits (2 ^ 63) (2 ^ 63)) ∧
    halfOfAll.validate = .ok () ∧ ∃ t : LineTable Unit, leastRecent? halfOfAll = .ok t ∧
      ∀ calls, (t.after calls).InBounds := by
  obtain ⟨haccepts, hsplits, hbounds⟩ := splits_and_inBounds
  obtain ⟨l, hl⟩ := (haccepts 9223372036854775808 9223372036854775808).2 ⟨⟨63, rfl⟩, ⟨63, rfl⟩⟩
  have hvalid : halfOfAll.validate = .ok () := by decide
  obtain ⟨-, _, -, htables⟩ := hbounds halfOfAll hvalid
  obtain ⟨t, ht, -, -, hruns⟩ := htables Unit
  exact ⟨⟨l, hl, hsplits _ _ l hl⟩, hvalid, t, ht, fun calls => (hruns calls).2⟩

end LineTable

end CacheCoherence
