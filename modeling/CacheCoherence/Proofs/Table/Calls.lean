import CacheCoherence.Proofs.Table.Lines

/-!
# Calls — a table of lines under any use

Whoever has a table may ask it for ways, fill them, give them to other lines and free them, in
any order, and through handles from whatever time. Every call changes one slot at most: it takes
a free slot, changes what a slot holds for its line, or retires a slot, which is what makes its
handles stale. Beside that it may count a way as used.
-/

namespace CacheCoherence

/-! ## Runs -/

section Record

variable {σ κ : Type}

/-- The calls of a run that starts in the state `s`, each with the state that it meets. -/
def record (apply : σ → κ → σ) (s : σ) : List κ → List (σ × κ)
  | [] => []
  | c :: rest => (s, c) :: record apply (apply s c) rest

theorem record_concat (apply : σ → κ → σ) (s : σ) (calls : List κ) (c : κ) :
    record apply s (calls ++ [c]) = record apply s calls ++ [(calls.foldl apply s, c)] := by
  induction calls generalizing s with
  | nil => rfl
  | cons d rest ih => exact congrArg ((s, d) :: ·) (ih (apply s d))

theorem length_record (apply : σ → κ → σ) (s : σ) (calls : List κ) :
    (record apply s calls).length = calls.length := by
  induction calls generalizing s with
  | nil => rfl
  | cons c rest ih => exact congrArg (· + 1) (ih (apply s c))

end Record

/-! ## One slot at most -/

namespace SlotTable

variable {α : Type} {t t' : SlotTable α} {i j : Nat} {r : Option Nat}

/-- What a call may do to the slot at `i`. The last argument is the slot that it retires, if it
does. -/
inductive Changes (t : SlotTable α) (i : Nat) : SlotTable α → Option Nat → Prop
  | stay : t.Changes i t none
  /-- A free slot is taken. -/
  | take (c : SlotContent α) (hi : i < t.capacity) (hc : t.contentAt i = .free) :
      t.Changes i (t.write i c) none
  /-- The slot goes on serving its line. -/
  | rewrite {line : Addr} {c : SlotContent α} (hl : (t.contentAt i).line? = some line)
      (hc : c.line? = some line) : t.Changes i (t.write i c) none
  | retire (c : SlotContent α) (hi : i < t.capacity) : t.Changes i (t.retire i c) (some i)

theorem handleAt_retire_self (c : SlotContent α) (hi : i < t.capacity) :
    (t.retire i c).handleAt i = { index := i, generation := (t.handleAt i).generation + 1 } := by
  have hi : i < t.slots.size := hi
  simp [handleAt, retire, Array.getElem_modify, hi]

namespace Changes

theorem ways (h : t.Changes i t' r) : t'.ways = t.ways := by
  cases h <;> rfl

theorem capacity (h : t.Changes i t' r) : t'.capacity = t.capacity := by
  cases h with
  | stay => rfl
  | take | rewrite => exact capacity_write ..
  | retire => exact capacity_retire ..

/-- No other slot changes. -/
theorem elsewhere (h : t.Changes i t' r) (hj : j ≠ i) : t'.slots[j]? = t.slots[j]? := by
  cases h with
  | stay => rfl
  | take | rewrite => simp [write, Array.getElem?_modify, Ne.symm hj]
  | retire => simp [SlotTable.retire, Array.getElem?_modify, Ne.symm hj]

theorem contentAt_ne (h : t.Changes i t' r) (hj : j ≠ i) : t'.contentAt j = t.contentAt j := by
  rw [contentAt, h.elsewhere hj]
  rfl

/-- A slot that is retired goes on to its next generation, and only such a slot does. -/
theorem handleAt (h : t.Changes i t' r) (j : Nat) : t'.handleAt j =
    { index := j
      generation := (t.handleAt j).generation + if r = some j then 1 else 0 } := by
  cases h with
  | stay => simp [SlotTable.handleAt]
  | take | rewrite =>
    rw [handleAt_write]
    simp [SlotTable.handleAt]
  | retire c hi =>
    by_cases hij : i = j
    · subst hij
      rw [handleAt_retire_self c hi, if_pos rfl]
    · rw [handleAt_retire_ne c hij, if_neg (by simpa using hij)]
      simp [SlotTable.handleAt]

/-- A slot that is not retired goes on serving its line. -/
theorem line? (h : t.Changes i t' r) {X : Addr} (hj : r ≠ some j)
    (hX : (t.contentAt j).line? = some X) : (t'.contentAt j).line? = some X := by
  cases h with
  | stay => exact hX
  | take c hi hc =>
    have hij : i ≠ j := by
      rintro rfl
      rw [hc] at hX
      cases hX
    rwa [contentAt_write_ne t c hij]
  | @rewrite line c hl hc =>
    by_cases hij : i = j
    · subst hij
      have hi : i < t.capacity := lt_capacity fun hfree => by rw [hfree] at hl; cases hl
      rw [contentAt_write_self t c hi, hc, ← hl, hX]
    · rwa [contentAt_write_ne t c hij]
  | retire c hi =>
    have hij : i ≠ j := fun hij => hj (congrArg some hij)
    rwa [contentAt_retire_ne t c hij]

end Changes

end SlotTable

/-! ## The calls -/

/-- A call on a table of lines. Handles may be any, also stale ones. -/
inductive TableCall (γ : Type) where
  | reserve (a : Addr)
  | install (way : Handle) (e : LineEntry γ)
  | touch (way : Handle)
  | replace (way : Handle) (a : Addr)
  | release (way : Handle)
  | modify (way : Handle) (f : LineEntry γ → LineEntry γ)
  | lookup (a : Addr)
  | reservationFor (a : Addr)
  | entries

namespace LineTable

variable {γ : Type} {t t' : LineTable γ} {i : Nat} {line : Addr}

/-- The table after a call. -/
def apply (t : LineTable γ) : TableCall γ → LineTable γ
  | .reserve a => (t.reserve a).2
  | .install way e => (t.install? way e).getD t
  | .touch way => t.touch way
  | .replace way a => ((t.replace? way a).map fun (_, _, t') => t').getD t
  | .release way => (t.release way).2
  | .modify way f => t.modify way f
  | .lookup _ | .reservationFor _ | .entries => t

/-- The table after some calls, one after another. -/
def after (t : LineTable γ) (calls : List (TableCall γ)) : LineTable γ := calls.foldl apply t

/-- The slot that a call retires: that of a line that it releases or replaces. -/
def retired? (t : LineTable γ) : TableCall γ → Option Nat
  | .release way => (t.slots.behind? way).map fun _ => way.index
  | .replace way a => (t.replace? way a).map fun _ => way.index
  | _ => none

/-- The way that a call counts as used: one that it reserves, fills, gives to another line or
touches, if it succeeds in that. -/
def used? (t : LineTable γ) : TableCall γ → Option Nat
  | .reserve a =>
      match (t.reserve a).1 with
      | .free way => some way.index
      | _ => none
  | .install way e => (t.install? way e).map fun _ => way.index
  | .touch way => (t.lineOf? way).map fun _ => way.index
  | .replace way a => (t.replace? way a).map fun _ => way.index
  | _ => none

/-! ## Stale handles -/

/-- Every operation through the handle fails or gives nothing, and changes nothing. -/
structure Dead (t : LineTable γ) (h : Handle) : Prop where
  entry : t.entry? h = none
  lineOf : t.lineOf? h = none
  touch : t.touch h = t
  install : ∀ e, t.install? h e = none
  replace : ∀ a, t.replace? h a = none
  release : t.release h = (none, t)
  modify : ∀ f, t.modify h f = t

theorem dead_of_behind? {h : Handle} (hb : t.slots.behind? h = none) : t.Dead h := by
  have hline : t.lineOf? h = none := by rw [lineOf?, SlotTable.lineOf?, hb]; rfl
  exact {
    entry := by rw [LineTable.entry?, SlotTable.get?, hb]; rfl
    lineOf := hline
    touch := by rw [LineTable.touch, hline]; rfl
    install := fun e => by rw [install?, SlotTable.fill?, hb]; rfl
    replace := fun a => by rw [replace?, SlotTable.repurpose?, hb]; rfl
    release := by rw [LineTable.release, SlotTable.vacate, hb]
    modify := fun f => by rw [LineTable.modify, SlotTable.modify, hb] }

/-! ## Current handles -/

theorem reserve_of_free {a : Addr} (hf : t.slots.freeIndex? (t.setOf a) = some i)
    (hi : i < t.slots.capacity) : t.reserve a = (.free (t.slots.handleAt i),
      ({ t with slots := t.slots.write i (.reserved (t.lineAddr a)) } : LineTable γ).touchIndex i) := by
  have hfree := (SlotTable.of_findIndex? hf).2
  rw [reserve, hf, Option.bind_some, SlotTable.reserveAt?, if_pos ⟨hi, hfree⟩]
  rfl

/-- Where no way is free, the next victim is named and nothing changes. -/
theorem reserve_of_full {a : Addr} (hf : t.slots.freeIndex? (t.setOf a) = none) :
    t.reserve a = (match t.slots.contentAt (t.victimIndex (t.setOf a)) with
      | .reserved pendingLine => .busy pendingLine
      | _ => .victim (t.slots.handleAt (t.victimIndex (t.setOf a))), t) := by
  rw [reserve, hf, Option.bind_none]
  dsimp only
  cases t.slots.contentAt (t.victimIndex (t.setOf a)) <;> rfl

/-- A way that holds no value is not given to another line. -/
theorem replace?_of_not_filled (h : (t.slots.contentAt i).value? = none) (hi : i < t.slots.capacity)
    (a : Addr) : t.replace? (t.slots.handleAt i) a = none := by
  rw [replace?, SlotTable.repurpose?, SlotTable.behind?_handleAt hi]
  cases hc : t.slots.contentAt i with
  | filled line e =>
    rw [hc] at h
    cases h
  | _ => rfl

/-- A way that is not reserved is not filled. -/
theorem install?_of_not_reserved (h : ∀ line, t.slots.contentAt i ≠ .reserved line)
    (hi : i < t.slots.capacity) (e : LineEntry γ) : t.install? (t.slots.handleAt i) e = none := by
  rw [install?, SlotTable.fill?, SlotTable.behind?_handleAt hi]
  cases hc : t.slots.contentAt i with
  | reserved line => exact absurd hc (h line)
  | _ => rfl

theorem modify_of_not_filled (h : (t.slots.contentAt i).value? = none)
    (hi : i < t.slots.capacity) (f : LineEntry γ → LineEntry γ) :
    t.modify (t.slots.handleAt i) f = t := by
  rw [modify, SlotTable.modify, SlotTable.behind?_handleAt hi]
  cases hc : t.slots.contentAt i with
  | filled line e =>
    rw [hc] at h
    cases h
  | _ => rfl

/-! ## What a call does -/

/-- A call on the way `i` that retires the slot `retired?` and counts the way `used?` as used has
made `t'` of `t`. -/
structure Effect (t : LineTable γ) (i : Nat) (t' : LineTable γ) (retired? used? : Option Nat) :
    Prop where
  layout : t'.layout = t.layout
  slots : t.slots.Changes i t'.slots retired?
  used : used? = none ∨ used? = some i
  replacement : t'.replacement = used?.elim t.replacement fun i =>
    t.replacement.touch (i / t.slots.ways) (i % t.slots.ways)
  /-- Only a way that is used is taken. -/
  taken : ∀ i, t'.slots.contentAt i ≠ .free → t.slots.contentAt i ≠ .free ∨ used? = some i

namespace Effect

theorem refl (t : LineTable γ) (i : Nat) : t.Effect i t none none :=
  ⟨rfl, .stay, .inl rfl, rfl, fun _ => .inl⟩

/-- Writing a slot that serves its line already changes nothing else. -/
theorem rewrite {c : SlotContent (LineEntry γ)} (hl : (t.slots.contentAt i).line? = some line)
    (hc : c.line? = some line) :
    t.Effect i { t with slots := t.slots.write i c } none none := by
  refine ⟨rfl, .rewrite hl hc, .inl rfl, rfl, fun j hj => .inl fun hfree => ?_⟩
  have hij : i ≠ j := by
    rintro rfl
    rw [hfree] at hl
    cases hl
  rw [SlotTable.contentAt_write_ne _ c hij] at hj
  exact hj hfree

/-- A way that is used counts as such, whatever else was done to it. -/
theorem touchIndex {retired? : Option Nat} (hl : t'.layout = t.layout)
    (hs : t.slots.Changes i t'.slots retired?) (hr : t'.replacement = t.replacement) :
    t.Effect i (t'.touchIndex i) retired? (some i) where
  layout := hl
  slots := hs
  used := .inr rfl
  replacement := by
    show t'.replacement.touch (i / t'.slots.ways) (i % t'.slots.ways) = _
    rw [hr, hs.ways]
    rfl
  taken j hj := by
    by_cases hij : j = i
    · exact .inr (congrArg some hij.symm)
    · exact .inl (by rwa [← hs.contentAt_ne hij])

theorem shaped {r u : Option Nat} (h : t.Effect i t' r u) (hs : t.Shaped) : t'.Shaped where
  ways_pos := by rw [h.slots.ways]; exact hs.ways_pos
  capacity := by rw [h.slots.capacity, h.slots.ways, h.layout]; exact hs.capacity
  within := by
    rw [h.replacement, h.slots.ways]
    cases u with
    | none => exact hs.within
    | some i => exact hs.within.touch (Nat.mod_lt _ hs.ways_pos) _

end Effect

theorem effect_reserve (hs : t.Shaped) (a : Addr) : ∃ i ∈ t.slots.setIndices (t.setOf a),
    t.Effect i (t.apply (.reserve a)) none (t.used? (.reserve a)) := by
  cases hf : t.slots.freeIndex? (t.setOf a) with
  | some i =>
    obtain ⟨hmem, hfree⟩ := SlotTable.of_findIndex? hf
    have hi := hs.lt_capacity (show t.InSet i (t.lineAddr a) from hmem)
    rw [apply, used?, reserve_of_free hf hi]
    exact ⟨i, hmem, .touchIndex rfl (.take _ hi (SlotTable.isFree_iff.1 hfree)) rfl⟩
  | none =>
    have hused : t.used? (.reserve a) = none := by
      rw [used?, reserve_of_full hf]
      cases t.slots.contentAt (t.victimIndex (t.setOf a)) <;> rfl
    rw [hused, apply, reserve_of_full hf]
    exact ⟨_, victimIndex_inSet hs a, .refl t _⟩

theorem effect_install (t : LineTable γ) (way : Handle) (e : LineEntry γ) :
    t.Effect way.index (t.apply (.install way e)) none (t.used? (.install way e)) := by
  cases hb : t.slots.behind? way with
  | none =>
    rw [apply, used?, (dead_of_behind? hb).install]
    exact .refl t _
  | some c =>
    obtain ⟨hway, hc, hi⟩ := SlotTable.of_behind? hb
    cases c with
    | reserved line =>
      have hinstall := install?_reserved hc e
      rw [← hway] at hinstall
      have hline : (t.slots.contentAt way.index).line? = some line := by rw [hc]; rfl
      rw [apply, used?, hinstall]
      exact .touchIndex rfl (.rewrite hline rfl) rfl
    | free | filled =>
      have hinstall := install?_of_not_reserved (by rw [hc]; exact nofun) hi e
      rw [← hway] at hinstall
      rw [apply, used?, hinstall]
      exact .refl t _

theorem effect_touch (t : LineTable γ) (way : Handle) :
    t.Effect way.index (t.apply (.touch way)) none (t.used? (.touch way)) := by
  cases hl : t.lineOf? way with
  | none =>
    rw [apply, used?, touch, hl]
    exact .refl t _
  | some line =>
    rw [apply, used?, touch, hl]
    exact .touchIndex rfl .stay rfl

theorem effect_replace (t : LineTable γ) (way : Handle) (a : Addr) :
    t.Effect way.index (t.apply (.replace way a)) (t.retired? (.replace way a))
      (t.used? (.replace way a)) := by
  cases hb : t.slots.behind? way with
  | none =>
    rw [apply, retired?, used?, (dead_of_behind? hb).replace]
    exact .refl t _
  | some c =>
    obtain ⟨hway, hc, hi⟩ := SlotTable.of_behind? hb
    cases c with
    | filled line e =>
      have hreplace := replace?_filled hc a
      rw [← hway] at hreplace
      rw [apply, retired?, used?, hreplace]
      exact .touchIndex rfl (.retire _ hi) rfl
    | free | reserved =>
      have hreplace := replace?_of_not_filled (by rw [hc]; rfl) hi a
      rw [← hway] at hreplace
      rw [apply, retired?, used?, hreplace]
      exact .refl t _

theorem effect_release (t : LineTable γ) (way : Handle) :
    t.Effect way.index (t.apply (.release way)) (t.retired? (.release way)) none := by
  cases hb : t.slots.behind? way with
  | none =>
    rw [apply, retired?, (dead_of_behind? hb).release, hb]
    exact .refl t _
  | some c =>
    obtain ⟨hway, -, hi⟩ := SlotTable.of_behind? hb
    have hrelease := release_handleAt (t := t) hi
    rw [← hway] at hrelease
    rw [apply, retired?, hb, hrelease]
    refine ⟨rfl, .retire _ hi, .inl rfl, rfl, fun j hj => .inl ?_⟩
    by_cases hij : way.index = j
    · subst hij
      exact absurd (SlotTable.contentAt_retire_self _ _ hi) hj
    · rwa [SlotTable.contentAt_retire_ne _ _ hij] at hj

theorem effect_modify (t : LineTable γ) (way : Handle) (f : LineEntry γ → LineEntry γ) :
    t.Effect way.index (t.apply (.modify way f)) none none := by
  cases hb : t.slots.behind? way with
  | none =>
    rw [apply, (dead_of_behind? hb).modify]
    exact .refl t _
  | some c =>
    obtain ⟨hway, hc, hi⟩ := SlotTable.of_behind? hb
    cases c with
    | filled line e =>
      have hmodify := modify_filled hc f
      rw [← hway] at hmodify
      have hline : (t.slots.contentAt way.index).line? = some line := by rw [hc]; rfl
      rw [apply, hmodify]
      exact .rewrite hline rfl
    | free | reserved =>
      have hmodify := modify_of_not_filled (by rw [hc]; rfl) hi f
      rw [← hway] at hmodify
      rw [apply, hmodify]
      exact .refl t _

/-- The set that a call is about. -/
def set? (t : LineTable γ) : TableCall γ → Option Nat
  | .reserve a | .lookup a | .reservationFor a => some (t.setOf a)
  | .install way _ | .touch way | .replace way _ | .release way | .modify way _ =>
      some (way.index / t.slots.ways)
  | .entries => none

theorem mem_setIndices_iff (hs : t.Shaped) {set : Nat} :
    i ∈ t.slots.setIndices set ↔ i / t.slots.ways = set := by
  have := hs.ways_pos
  rw [SlotTable.mem_setIndices, Nat.div_eq_iff hs.ways_pos]
  omega

/-- Every call changes one slot at most, one of the set that it is about, and counts the way as
used that it says. -/
theorem effect_apply (hs : t.Shaped) (c : TableCall γ) :
    ∃ i, (∀ set, t.set? c = some set → i / t.slots.ways = set) ∧
      t.Effect i (t.apply c) (t.retired? c) (t.used? c) := by
  have hindex : ∀ (way : Handle) set, some (way.index / t.slots.ways) = some set →
      way.index / t.slots.ways = set := fun _ _ => Option.some.inj
  cases c with
  | reserve a =>
    obtain ⟨i, hi, heffect⟩ := effect_reserve hs a
    refine ⟨i, fun set hset => ?_, heffect⟩
    rw [← Option.some.inj hset]
    exact (mem_setIndices_iff hs).1 hi
  | install way e => exact ⟨way.index, hindex way, effect_install t way e⟩
  | touch way => exact ⟨way.index, hindex way, effect_touch t way⟩
  | replace way a => exact ⟨way.index, hindex way, effect_replace t way a⟩
  | release way => exact ⟨way.index, hindex way, effect_release t way⟩
  | modify way f => exact ⟨way.index, hindex way, effect_modify t way f⟩
  | lookup a | reservationFor a =>
    refine ⟨t.setOf a * t.slots.ways, fun set hset => ?_, .refl t _⟩
    rw [← Option.some.inj hset]
    exact Nat.mul_div_cancel _ hs.ways_pos
  | entries => exact ⟨0, nofun, .refl t _⟩

theorem Shaped.apply (hs : t.Shaped) (c : TableCall γ) : (t.apply c).Shaped := by
  obtain ⟨i, -, heffect⟩ := effect_apply hs c
  exact heffect.shaped hs

theorem Shaped.after (hs : t.Shaped) (calls : List (TableCall γ)) : (t.after calls).Shaped := by
  induction calls generalizing t with
  | nil => exact hs
  | cons c rest ih => exact ih (hs.apply c)

theorem after_concat (t : LineTable γ) (calls : List (TableCall γ)) (c : TableCall γ) :
    t.after (calls ++ [c]) = (t.after calls).apply c := List.foldl_concat ..

/-- Calls leave the shape of the table. -/
theorem Shaped.shape_after (hs : t.Shaped) (calls : List (TableCall γ)) :
    (t.after calls).layout = t.layout ∧ (t.after calls).slots.ways = t.slots.ways ∧
      (t.after calls).slots.capacity = t.slots.capacity := by
  induction calls generalizing t with
  | nil => exact ⟨rfl, rfl, rfl⟩
  | cons c rest ih =>
    obtain ⟨i, -, heffect⟩ := effect_apply hs c
    obtain ⟨hlayout, hways, hcapacity⟩ := ih (heffect.shaped hs)
    exact ⟨hlayout.trans heffect.layout, hways.trans heffect.slots.ways,
      hcapacity.trans heffect.slots.capacity⟩

end LineTable

end CacheCoherence
