import CacheCoherence.Proofs.Table.Slots
import CacheCoherence.Fault
import CacheCoherence.Table.Lines
import Mathlib.Tactic.SplitIfs

/-!
# Line tables, by index — what each change does to the ways

Every change of a line table replaces the content of one way. Writing keeps the handle
of the way good, retiring gives it a new one; use is recorded on the side.
-/

namespace CacheCoherence

open Function (update update_self update_of_ne)

/-! ## Recency -/

/-- A policy names ways of the table only. -/
def Replacement.Within (ways : Nat) : Replacement → Prop
  | .leastRecent r => ∀ set, ∀ w ∈ r.order set, w < ways
  | .pinned w => w < ways

namespace Replacement

variable {ways way set : Nat} {p : Replacement}

theorem Within.victim_lt (h : p.Within ways) (hw : 0 < ways) (set : Nat) : p.victim set < ways := by
  cases p with
  | pinned w => exact h
  | leastRecent r =>
    simp only [victim, Recency.victim]
    cases hl : (r.order set).getLast? with
    | none => exact hw
    | some w => exact h set w (List.mem_of_getLast? hl)

theorem Within.touch (h : p.Within ways) (hw : way < ways) (set : Nat) :
    (p.touch set way).Within ways := by
  cases p with
  | pinned w => exact h
  | leastRecent r =>
    intro other w hmem
    by_cases hs : set = other
    · subst hs
      by_cases hlt : set < r.orders.size
      · rw [Recency.order_touch_self r way hlt] at hmem
        rcases List.mem_cons.1 hmem with rfl | hmem
        · exact hw
        · exact h set w (List.mem_of_mem_erase hmem)
      · simp [Recency.order, Recency.touch, hlt] at hmem
    · rw [Recency.order_touch_ne r way hs] at hmem
      exact h other w hmem

theorem within_initial (sets ways : Nat) :
    (Replacement.leastRecent (Recency.initial sets ways)).Within ways := by
  intro set w hw
  simp only [Recency.order, Recency.initial, Array.getElem?_replicate] at hw
  split at hw
  · simpa using hw
  · cases hw

end Replacement

/-! ## Line addresses -/

theorem AddressLayout.lineAddr_lineAddr (l : AddressLayout) (a : Addr) :
    l.lineAddr (l.lineAddr a) = l.lineAddr a := by
  refine UInt64.toNat.inj ?_
  rw [l.toNat_lineAddr (l.lineAddr a), l.toNat_lineAddr_eq_mul, Nat.mul_mod_right, Nat.sub_zero]

namespace LineTable

variable {γ : Type} {t t' : LineTable γ} {i : Nat} {line : Addr}

/-- A table is laid out in sets of equal size, and its policy names ways of a set. -/
structure Shaped (t : LineTable γ) : Prop where
  ways_pos : 0 < t.slots.ways
  capacity : t.slots.capacity = t.layout.sets * t.slots.ways
  within : t.replacement.Within t.slots.ways

/-- `i` is a way of the set that `line` falls into. -/
def InSet (t : LineTable γ) (i : Nat) (line : Addr) : Prop :=
  i ∈ t.slots.setIndices (t.layout.setIndex line)

theorem Shaped.lt_capacity (h : t.Shaped) (hi : t.InSet i line) : i < t.slots.capacity := by
  -- the set is one of `sets`, so its last way is still in the table
  have hset := t.layout.setIndex_lt line
  have hle : (t.layout.setIndex line + 1) * t.slots.ways ≤ t.layout.sets * t.slots.ways :=
    Nat.mul_le_mul_right _ hset
  rw [Nat.add_mul, Nat.one_mul] at hle
  have := (SlotTable.mem_setIndices.1 hi).2
  rw [h.capacity]
  omega

/-- `t'` is `t` with other content at `i`, where every handle stays good. -/
structure Writes (t t' : LineTable γ) (i : Nat) (c : SlotContent (LineEntry γ)) : Prop where
  layout : t'.layout = t.layout
  ways : t'.slots.ways = t.slots.ways
  shaped : t.Shaped → t'.Shaped
  content : t'.slots.contentAt = update t.slots.contentAt i c
  handle : t'.slots.handleAt = t.slots.handleAt

/-- `t'` is `t` with other content at `i`, whose old handle is stale now. -/
structure Retires (t t' : LineTable γ) (i : Nat) (c : SlotContent (LineEntry γ)) : Prop where
  layout : t'.layout = t.layout
  ways : t'.slots.ways = t.slots.ways
  shaped : t.Shaped → t'.Shaped
  content : t'.slots.contentAt = update t.slots.contentAt i c
  handle : ∀ j, j ≠ i → t'.slots.handleAt j = t.slots.handleAt j

/-- `t'` is `t` with another record of use. -/
structure Touches (t t' : LineTable γ) : Prop where
  layout : t'.layout = t.layout
  shaped : t.Shaped → t'.Shaped
  slots : t'.slots = t.slots

theorem touchIndex_touches (t : LineTable γ) (i : Nat) : t.Touches (t.touchIndex i) where
  layout := rfl
  shaped h := ⟨h.ways_pos, h.capacity, h.within.touch (Nat.mod_lt _ h.ways_pos) _⟩
  slots := rfl

theorem touch_touches (t : LineTable γ) (h : Handle) : t.Touches (t.touch h) := by
  unfold touch
  split
  · exact touchIndex_touches ..
  · exact ⟨rfl, id, rfl⟩

theorem Writes.touch {c : SlotContent (LineEntry γ)} {t'' : LineTable γ} (h : t.Writes t' i c)
    (ht : t'.Touches t'') : t.Writes t'' i c where
  layout := ht.layout.trans h.layout
  ways := by rw [ht.slots, h.ways]
  shaped hs := ht.shaped (h.shaped hs)
  content := by rw [ht.slots, h.content]
  handle := by rw [ht.slots, h.handle]

theorem Retires.touch {c : SlotContent (LineEntry γ)} {t'' : LineTable γ} (h : t.Retires t' i c)
    (ht : t'.Touches t'') : t.Retires t'' i c where
  layout := ht.layout.trans h.layout
  ways := by rw [ht.slots, h.ways]
  shaped hs := ht.shaped (h.shaped hs)
  content := by rw [ht.slots, h.content]
  handle j hj := by rw [ht.slots, h.handle j hj]

theorem Writes.trans {c d : SlotContent (LineEntry γ)} {t'' : LineTable γ} (h : t.Writes t' i c)
    (h' : t'.Writes t'' i d) : t.Writes t'' i d where
  layout := h'.layout.trans h.layout
  ways := h'.ways.trans h.ways
  shaped hs := h'.shaped (h.shaped hs)
  content := by rw [h'.content, h.content, Function.update_idem]
  handle := h'.handle.trans h.handle

theorem writes_slots (h : i < t.slots.capacity) (c : SlotContent (LineEntry γ)) :
    t.Writes { t with slots := t.slots.write i c } i c where
  layout := rfl
  ways := rfl
  shaped hs := ⟨hs.ways_pos, (SlotTable.capacity_write ..).trans hs.capacity, hs.within⟩
  content := SlotTable.contentAt_write h c
  handle := funext fun j => SlotTable.handleAt_write t.slots i j c

theorem retires_slots (h : i < t.slots.capacity) (c : SlotContent (LineEntry γ)) :
    t.Retires { t with slots := t.slots.retire i c } i c where
  layout := rfl
  ways := rfl
  shaped hs := ⟨hs.ways_pos, (SlotTable.capacity_retire ..).trans hs.capacity, hs.within⟩
  content := SlotTable.contentAt_retire h c
  handle _ hj := SlotTable.handleAt_retire_ne c (Ne.symm hj)

theorem modify_filled {e : LineEntry γ} (h : t.slots.contentAt i = .filled line e)
    (f : LineEntry γ → LineEntry γ) : t.modify (t.slots.handleAt i) f
      = { t with slots := t.slots.write i (.filled line (f e)) } := by
  rw [modify, SlotTable.modify_handleAt h]

theorem modify_writes {e : LineEntry γ} (h : t.slots.contentAt i = .filled line e)
    (f : LineEntry γ → LineEntry γ) :
    t.Writes (t.modify (t.slots.handleAt i) f) i (.filled line (f e)) := by
  rw [modify_filled h]
  exact writes_slots (SlotTable.lt_capacity (by rw [h]; exact nofun)) _

/-- A way that was written is written again. -/
theorem Writes.modify {e : LineEntry γ} (h : t.Writes t' i (.filled line e))
    (f : LineEntry γ → LineEntry γ) :
    t.Writes (t'.modify (t.slots.handleAt i) f) i (.filled line (f e)) := by
  rw [← h.handle]
  exact h.trans (modify_writes (by rw [h.content]; exact update_self ..) f)

theorem touch_handleAt (h : ((t.slots.contentAt i).line?).isSome) :
    t.touch (t.slots.handleAt i) = t.touchIndex i := by
  have hline : t.lineOf? (t.slots.handleAt i) = (t.slots.contentAt i).line? :=
    SlotTable.lineOf?_handleAt i
  rw [touch, hline, if_pos h]
  rfl

theorem install?_reserved (h : t.slots.contentAt i = .reserved line) (e : LineEntry γ) :
    t.install? (t.slots.handleAt i) e
      = some (({ t with slots := t.slots.write i (.filled line e) } : LineTable γ).touchIndex i) := by
  have hi : i < t.slots.capacity := SlotTable.lt_capacity (by rw [h]; exact nofun)
  have hline : ((t.slots.write i (.filled line e)).contentAt i).line?.isSome := by
    rw [SlotTable.contentAt_write_self _ _ hi]
    rfl
  rw [install?, SlotTable.fill?_handleAt h, Option.map_some]
  have ht := touch_handleAt (t := { t with slots := t.slots.write i (.filled line e) }) hline
  rw [SlotTable.handleAt_write] at ht
  rw [ht]

theorem install?_writes (h : t.slots.contentAt i = .reserved line) (e : LineEntry γ) :
    ∃ t', t.install? (t.slots.handleAt i) e = some t' ∧ t.Writes t' i (.filled line e) :=
  ⟨_, install?_reserved h e,
    (writes_slots (SlotTable.lt_capacity (by rw [h]; exact nofun)) _).touch (touchIndex_touches ..)⟩

theorem replace?_filled {e : LineEntry γ} (h : t.slots.contentAt i = .filled line e) (a : Addr) :
    t.replace? (t.slots.handleAt i) a
      = some (e, (t.slots.retire i (.reserved (t.lineAddr a))).handleAt i,
          ({ t with slots := t.slots.retire i (.reserved (t.lineAddr a)) } : LineTable γ).touchIndex
            i) := by
  have hi : i < t.slots.capacity := SlotTable.lt_capacity (by rw [h]; exact nofun)
  have hline :
      ((t.slots.retire i (.reserved (t.lineAddr a))).contentAt i).line?.isSome := by
    rw [SlotTable.contentAt_retire_self _ _ hi]
    rfl
  rw [replace?, SlotTable.repurpose?_handleAt h, Option.map_some]
  have ht := touch_handleAt
    (t := { t with slots := t.slots.retire i (.reserved (t.lineAddr a)) }) hline
  exact congrArg (fun t' => some (e, _, t')) ht

theorem replace?_retires {e : LineEntry γ} (h : t.slots.contentAt i = .filled line e) (a : Addr) :
    ∃ t', t.replace? (t.slots.handleAt i) a = some (e, t'.slots.handleAt i, t') ∧
      t.Retires t' i (.reserved (t.lineAddr a)) :=
  ⟨_, replace?_filled h a,
    (retires_slots (SlotTable.lt_capacity (by rw [h]; exact nofun)) _).touch (touchIndex_touches ..)⟩

theorem layout_of_replace? {h fresh : Handle} {a : Addr} {old : LineEntry γ}
    (hr : t.replace? h a = some (old, fresh, t')) : t'.layout = t.layout := by
  obtain ⟨⟨_, _, slots⟩, -, heq⟩ := Option.map_eq_some_iff.1 hr
  cases heq
  exact (touch_touches _ fresh).layout

theorem layout_of_install? {h : Handle} {e : LineEntry γ} (hi : t.install? h e = some t') :
    t'.layout = t.layout := by
  obtain ⟨slots, -, heq⟩ := Option.map_eq_some_iff.1 hi
  cases heq
  exact (touch_touches _ h).layout

theorem layout_reserve (t : LineTable γ) (a : Addr) : (t.reserve a).2.layout = t.layout := by
  unfold reserve
  dsimp only
  split
  · rfl
  · split <;> rfl

theorem release_handleAt (hi : i < t.slots.capacity) : t.release (t.slots.handleAt i)
    = ((t.slots.contentAt i).value?, { t with slots := t.slots.retire i .free }) := by
  rw [release, SlotTable.vacate, SlotTable.behind?_handleAt hi]
  rfl

theorem release_retires (h : t.slots.contentAt i ≠ .free) :
    (t.release (t.slots.handleAt i)).1 = (t.slots.contentAt i).value? ∧
      t.Retires (t.release (t.slots.handleAt i)).2 i .free := by
  have hi := SlotTable.lt_capacity h
  rw [release_handleAt hi]
  exact ⟨rfl, retires_slots hi _⟩

/-! ## Asking for a way -/

theorem setOf_eq (t : LineTable γ) (a : Addr) : t.setOf a = t.layout.setIndex (t.lineAddr a) := rfl

theorem victimIndex_inSet (h : t.Shaped) (a : Addr) :
    t.InSet (t.victimIndex (t.setOf a)) (t.lineAddr a) := by
  have := h.within.victim_lt h.ways_pos (t.setOf a)
  rw [InSet, ← setOf_eq, SlotTable.mem_setIndices, victimIndex]
  omega

/-- What an answer to asking for a way says about the table. -/
inductive Reserves (t : LineTable γ) (line : Addr) : Reservation × LineTable γ → Prop
  | free {i : Nat} {t' : LineTable γ} (hi : t.InSet i line) (hc : t.slots.contentAt i = .free)
      (hw : t.Writes t' i (.reserved line)) : Reserves t line (.free (t.slots.handleAt i), t')
  | busy {pending : Addr} {i : Nat} (hi : t.InSet i line)
      (hc : t.slots.contentAt i = .reserved pending) : Reserves t line (.busy pending, t)
  | victim {v : Addr} {e : LineEntry γ} {i : Nat} (hi : t.InSet i line)
      (hc : t.slots.contentAt i = .filled v e) : Reserves t line (.victim (t.slots.handleAt i), t)

theorem reserve_reserves (h : t.Shaped) (a : Addr) :
    t.Reserves (t.lineAddr a) (t.reserve a) := by
  unfold reserve
  dsimp only
  cases hf : t.slots.freeIndex? (t.setOf a) with
  | some i =>
    obtain ⟨hi, hc⟩ := SlotTable.of_findIndex? hf
    have hc := SlotTable.isFree_iff.1 hc
    have hlt := h.lt_capacity (show t.InSet i (t.lineAddr a) from hi)
    have hb : ((some i).bind fun i => t.slots.reserveAt? i (t.lineAddr a)) =
        some (t.slots.handleAt i, t.slots.write i (.reserved (t.lineAddr a))) := by
      rw [Option.bind_some, SlotTable.reserveAt?, if_pos ⟨hlt, by rw [hc]; rfl⟩]
    rw [hb]
    exact .free hi hc ((writes_slots hlt _).touch (touchIndex_touches ..))
  | none =>
    -- no way is free, so the victim's holds something
    have hv := victimIndex_inSet h a
    have hnf := SlotTable.findIndex?_eq_none.1 hf _ hv
    rw [Option.bind_none]
    dsimp only
    cases hc : t.slots.contentAt (t.victimIndex (t.setOf a)) with
    | free => simp [hc, SlotContent.isFree] at hnf
    | reserved pending => exact .busy hv hc
    | filled v e => exact .victim hv hc

/-! ## A table without lines -/

/-- What the check of a geometry establishes. The number of sets is computed with machine words,
where it does not wrap around. -/
theorem of_validate {g : CacheGeometry} (hv : g.validate = .ok ()) : 0 < g.ways.toNat ∧
    IsPowerOfTwo g.lineBytes.toNat ∧ (UInt64.ofNat g.sets).toNat = g.sets ∧
      IsPowerOfTwo g.sets := by
  unfold CacheGeometry.validate at hv
  split_ifs at hv with h₁ h₂ h₃ h₄ h₅
  have hsets : g.sets < 2 ^ 64 := by
    have : g.sizeBytes.toNat < 2 ^ 64 := g.sizeBytes.toNat_lt
    unfold CacheGeometry.sets
    split
    · exact Nat.lt_of_le_of_lt (Nat.div_le_self ..) this
    · omega
  exact ⟨Nat.pos_of_ne_zero h₁, h₂, UInt64.toNat_ofNat_of_lt' hsets, h₅⟩

/-- A geometry that passes its check has a layout. -/
theorem exists_layout? {g : CacheGeometry} (hv : g.validate = .ok ()) :
    ∃ l, g.layout? = .ok l := by
  obtain ⟨-, hline, hsets, hpow⟩ := of_validate hv
  rw [← hsets] at hpow
  rw [CacheGeometry.layout?, hv, AddressLayout.ofShape?, dif_pos hline, dif_pos hpow]
  exact ⟨_, rfl⟩

/-- A geometry that is realised has the layout of its lines and sets. -/
theorem layout?_eq_ok {g : CacheGeometry} {l : AddressLayout} (h : g.layout? = .ok l) :
    l.offsetBits = g.lineBytes.toNat.log2 ∧ l.sets = g.sets ∧ 0 < g.ways.toNat := by
  obtain ⟨_, hv, h⟩ := bind_eq_ok.1 h
  obtain ⟨hways, -, hword, -⟩ := of_validate hv
  obtain ⟨hline, hsets⟩ := AddressLayout.ofShape?_eq_ok h
  refine ⟨?_, hsets.trans hword, hways⟩
  rw [← hline, AddressLayout.lineBytes, Nat.log2_two_pow]

/-- A geometry that passes its check can be realised. -/
theorem exists_leastRecent? {g : CacheGeometry} (hv : g.validate = .ok ()) :
    ∃ t : LineTable γ, leastRecent? g = .ok t := by
  obtain ⟨l, hl⟩ := exists_layout? hv
  rw [leastRecent?, create?, hl]
  exact ⟨_, rfl⟩

/-- A new table is in shape and holds nothing. -/
theorem leastRecent?_shaped {g : CacheGeometry} (h : leastRecent? g = .ok t) :
    t.Shaped ∧ (∀ i, t.slots.contentAt i = .free) ∧
      t.layout.offsetBits = g.lineBytes.toNat.log2 := by
  obtain ⟨l, hl, h⟩ := bind_eq_ok.1 h
  cases h
  obtain ⟨hoffset, hsets, hways⟩ := layout?_eq_ok hl
  refine ⟨⟨hways, ?_, Replacement.within_initial _ _⟩, SlotTable.contentAt_empty _ _, hoffset⟩
  rw [SlotTable.capacity_empty]
  show _ = l.sets * _
  rw [hsets]
  rfl

end LineTable

end CacheCoherence
