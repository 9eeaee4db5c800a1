import CacheCoherence.Proofs.Table.Calls
import CacheCoherence.Proofs.Table.Registers

/-!
# Handles — what a handle stands for, and for how long

A handle that a table gives out stands for one slot and the line that the slot serves. It does so
until the slot is released or given to another line. From then on nothing can be done through it,
until the generations of the slot have come round. And whatever is done through a handle, stale or
not, is done to its slot and to no other.
-/

namespace CacheCoherence

/-- How often the slot `i` is retired in a run. -/
def retirements {σ κ : Type} (retired? : σ → κ → Option Nat) (run : List (σ × κ)) (i : Nat) : Nat :=
  run.countP fun (s, c) => retired? s c = some i

theorem retirements_cons {σ κ : Type} (retired? : σ → κ → Option Nat) (s : σ) (c : κ)
    (run : List (σ × κ)) (i : Nat) : retirements retired? ((s, c) :: run) i
      = retirements retired? run i + if retired? s c = some i then 1 else 0 := by
  simp [retirements, List.countP_cons]

/-! ## Slots under any use -/

namespace SlotTable

variable {α : Type} {t : SlotTable α} {h : Handle} {X : Addr}

/-- The handle is that of a slot that serves the line `X`. -/
structure Current (t : SlotTable α) (h : Handle) (X : Addr) : Prop where
  eq : h = t.handleAt h.index
  line : (t.contentAt h.index).line? = some X

theorem current_handleAt {i : Nat} (hX : (t.contentAt i).line? = some X) :
    t.Current (t.handleAt i) X := ⟨rfl, hX⟩

theorem Current.lt_capacity (hc : t.Current h X) : h.index < t.capacity := by
  refine SlotTable.lt_capacity fun hfree => ?_
  have hline := hc.line
  rw [hfree] at hline
  cases hline

/-- Nothing is behind a handle that is not that of its slot. -/
theorem behind?_eq_none (hne : h ≠ t.handleAt h.index) : t.behind? h = none := by
  cases hb : t.behind? h with
  | none => rfl
  | some c => exact absurd (of_behind? hb).1 hne

/-- A handle with a line is that of a slot that serves the line. -/
theorem current_of_lineOf? (hl : t.lineOf? h = some X) : t.Current h X := by
  obtain ⟨c, hb, hc⟩ := Option.bind_eq_some_iff.1 hl
  obtain ⟨heq, hcontent, -⟩ := of_behind? hb
  exact ⟨heq, by rw [hcontent, hc]⟩

/-- So is one that is found by its line. -/
theorem current_of_findIndex? {p : SlotContent α → Bool} {set : Nat}
    (hf : (t.findIndex? set p).map t.handleAt = some h)
    (hp : ∀ c, p c = true → c.line? = some X) : t.Current h X := by
  obtain ⟨i, hi, rfl⟩ := Option.map_eq_some_iff.1 hf
  exact current_handleAt (hp _ (of_findIndex? hi).2)

section Runs

variable {σ κ : Type} {slots : σ → SlotTable α} {apply : σ → κ → σ}
  {retired? : σ → κ → Option Nat} {P : σ → Prop} {s : σ}
  (hstep : ∀ s c, P s → P (apply s c) ∧
    ∃ i, (slots s).Changes i (slots (apply s c)) (retired? s c))

include hstep

/-- The generation of a slot counts how often it is retired. -/
theorem handleAt_run (hs : P s) (calls : List κ) (i : Nat) :
    (slots (calls.foldl apply s)).handleAt i = {
      index := i
      generation := ((slots s).handleAt i).generation
        + UInt32.ofNat (retirements retired? (record apply s calls) i) } := by
  induction calls generalizing s with
  | nil => simp [retirements, record, SlotTable.handleAt]
  | cons c rest ih =>
    obtain ⟨hs', j, hchange⟩ := hstep s c hs
    rw [List.foldl_cons, ih hs', hchange.handleAt, record, retirements_cons]
    by_cases hi : retired? s c = some i
    · simp only [if_pos hi, UInt32.ofNat_add, Handle.mk.injEq, true_and]
      rw [UInt32.add_assoc, UInt32.add_comm 1]
      rfl
    · simp [hi]

/-- A slot that is not retired goes on serving its line. -/
theorem line?_run (hs : P s) (calls : List κ) {i : Nat}
    (hnone : retirements retired? (record apply s calls) i = 0)
    (hX : ((slots s).contentAt i).line? = some X) :
    ((slots (calls.foldl apply s)).contentAt i).line? = some X := by
  induction calls generalizing s with
  | nil => exact hX
  | cons c rest ih =>
    obtain ⟨hs', j, hchange⟩ := hstep s c hs
    rw [record, retirements_cons, Nat.add_eq_zero_iff] at hnone
    obtain ⟨hrest, hc⟩ := hnone
    exact ih hs' hrest (hchange.line? (by simpa using hc) hX)

/-- A handle is good until its slot is retired, ... -/
theorem Current.lasts (hs : P s) (hc : (slots s).Current h X) (calls : List κ)
    (hnone : retirements retired? (record apply s calls) h.index = 0) :
    (slots (calls.foldl apply s)).Current h X where
  eq := by
    rw [handleAt_run hstep hs, hnone, hc.eq]
    simp [SlotTable.handleAt]
  line := line?_run hstep hs calls hnone hc.line

/-- ... and stale from then on, until the generations have come round. -/
theorem Current.ends (hs : P s) (hc : (slots s).Current h X) (calls : List κ)
    (hpos : 0 < retirements retired? (record apply s calls) h.index)
    (hlt : retirements retired? (record apply s calls) h.index < UInt32.size) :
    (slots (calls.foldl apply s)).behind? h = none := by
  refine behind?_eq_none fun heq => ?_
  rw [handleAt_run hstep hs] at heq
  have hgen : h.generation = h.generation
      + UInt32.ofNat (retirements retired? (record apply s calls) h.index) := by
    have hgen := congrArg Handle.generation heq
    rwa [show ((slots s).handleAt h.index).generation = h.generation by rw [← hc.eq]] at hgen
  have hzero := (UInt32.left_eq_add).1 hgen
  have htoNat := congrArg UInt32.toNat hzero
  rw [UInt32.toNat_ofNat_of_lt' hlt] at htoNat
  exact Nat.ne_of_gt hpos htoNat

end Runs

end SlotTable

/-! ## Lines -/

/-- The handle that a call is made through, if it is. -/
def TableCall.handle? {γ : Type} : TableCall γ → Option Handle
  | .install way _ | .touch way | .replace way _ | .release way | .modify way _ => some way
  | .reserve _ | .lookup _ | .reservationFor _ | .entries => none

namespace LineTable

variable {γ : Type} {t : LineTable γ} {h : Handle} {X : Addr}

/-- The handles that the answer to a call holds, each with the line that it is given out for. -/
def issued (t : LineTable γ) : TableCall γ → List (Handle × Addr)
  | .reserve a =>
      match (t.reserve a).1 with
      | .free way => [(way, t.lineAddr a)]
      | .victim way => (t.lineOf? way).toList.map (way, ·)
      | .busy _ => []
  | .install way e => ((t.install? way e).bind (·.lineOf? way)).toList.map (way, ·)
  | .replace way a =>
      match t.replace? way a with
      | some (_, fresh, _) => [(fresh, t.lineAddr a)]
      | none => []
  | .lookup a => (t.lookup a).toList.map (·, t.lineAddr a)
  | .reservationFor a => (t.reservationFor a).toList.map (·, t.lineAddr a)
  | .entries => t.entries.map fun (way, line, _) => (way, line)
  | .touch _ | .release _ | .modify _ _ => []

/-- Every operation through the handle is about the slot at its index, which serves the
line `X`. -/
structure Resolves (t : LineTable γ) (h : Handle) (X : Addr) : Prop where
  line : (t.slots.contentAt h.index).line? = some X
  lineOf : t.lineOf? h = some X
  entry : t.entry? h = (t.slots.contentAt h.index).value?
  modify : ∀ f e, t.slots.contentAt h.index = .filled X e →
    t.Writes (t.modify h f) h.index (.filled X (f e))
  install : ∀ e, t.slots.contentAt h.index = .reserved X →
    ∃ t', t.install? h e = some t' ∧ t.Writes t' h.index (.filled X e)
  replace : ∀ e a, t.slots.contentAt h.index = .filled X e →
    ∃ t', t.replace? h a = some (e, t'.slots.handleAt h.index, t') ∧
      t.Retires t' h.index (.reserved (t.lineAddr a))
  release : (t.release h).1 = (t.slots.contentAt h.index).value? ∧
    t.Retires (t.release h).2 h.index .free

theorem resolves_of_current (hc : t.slots.Current h X) : t.Resolves h X := by
  obtain ⟨index, generation⟩ := h
  have heq : (⟨index, generation⟩ : Handle) = t.slots.handleAt index := hc.eq
  have hline : (t.slots.contentAt index).line? = some X := hc.line
  have hfree : t.slots.contentAt index ≠ .free := fun hfree => by rw [hfree] at hline; cases hline
  rw [heq]
  exact {
    line := hline
    lineOf := (SlotTable.lineOf?_handleAt index).trans hline
    entry := SlotTable.get?_handleAt index
    modify := fun f e hf => modify_writes hf f
    install := fun e hr => install?_writes hr e
    replace := fun e a hf => replace?_retires hf a
    release := release_retires hfree }

/-- A way that is free is given out for the line that it is reserved for, and a victim for its
own. -/
theorem current_of_reserve (hs : t.Shaped) {a : Addr} (hi : (h, X) ∈ t.issued (.reserve a)) :
    (t.apply (.reserve a)).slots.Current h X := by
  cases hf : t.slots.freeIndex? (t.setOf a) with
  | some i =>
    obtain ⟨hmem, -⟩ := SlotTable.of_findIndex? hf
    have hlt := hs.lt_capacity (show t.InSet i (t.lineAddr a) from hmem)
    rw [issued, reserve_of_free hf hlt] at hi
    cases List.mem_singleton.1 hi
    rw [apply, reserve_of_free hf hlt]
    have hcurrent := SlotTable.current_handleAt (t := t.slots.write i (.reserved (t.lineAddr a)))
      (i := i) (X := t.lineAddr a) (by rw [SlotTable.contentAt_write_self _ _ hlt]; rfl)
    rwa [SlotTable.handleAt_write] at hcurrent
  | none =>
    rw [apply, reserve_of_full hf]
    rw [issued, reserve_of_full hf] at hi
    generalize t.victimIndex (t.setOf a) = i at hi
    have hway (hv : (h, X) ∈ (t.lineOf? (t.slots.handleAt i)).toList.map
        (t.slots.handleAt i, ·)) : t.slots.Current h X := by
      obtain ⟨line, hl, heq⟩ := List.mem_map.1 hv
      cases heq
      exact SlotTable.current_of_lineOf? (Option.mem_toList.1 hl)
    cases hc : t.slots.contentAt i with
    | reserved line =>
      rw [hc] at hi
      cases hi
    | free | filled =>
      rw [hc] at hi
      exact hway hi

theorem current_of_replace {way : Handle} {a : Addr} (hi : (h, X) ∈ t.issued (.replace way a)) :
    (t.apply (.replace way a)).slots.Current h X := by
  cases hb : t.slots.behind? way with
  | none =>
    rw [issued, (dead_of_behind? hb).replace] at hi
    cases hi
  | some c =>
    obtain ⟨hway, hc, hlt⟩ := SlotTable.of_behind? hb
    cases c with
    | filled line e =>
      have hreplace := replace?_filled hc a
      rw [← hway] at hreplace
      rw [issued, hreplace] at hi
      cases List.mem_singleton.1 hi
      rw [apply, hreplace]
      exact SlotTable.current_handleAt (by
        show (((t.slots.retire way.index (.reserved (t.lineAddr a))).contentAt way.index).line?) = _
        rw [SlotTable.contentAt_retire_self _ _ hlt]
        rfl)
    | free | reserved =>
      have hreplace := replace?_of_not_filled (by rw [hc]; rfl) hlt a
      rw [← hway] at hreplace
      rw [issued, hreplace] at hi
      cases hi

/-- A handle that is given out is that of a slot that serves the line. -/
theorem current_of_issued (hs : t.Shaped) {c : TableCall γ} (hi : (h, X) ∈ t.issued c) :
    (t.apply c).slots.Current h X := by
  cases c with
  | reserve a => exact current_of_reserve hs hi
  | replace way a => exact current_of_replace hi
  | install way e =>
    obtain ⟨line, hl, heq⟩ := List.mem_map.1 hi
    cases heq
    obtain ⟨t', ht', hline⟩ := Option.bind_eq_some_iff.1 (Option.mem_toList.1 hl)
    rw [apply, ht']
    exact SlotTable.current_of_lineOf? hline
  | lookup a =>
    obtain ⟨way, hw, heq⟩ := List.mem_map.1 hi
    cases heq
    refine SlotTable.current_of_findIndex? (Option.mem_toList.1 hw) fun c hc => ?_
    obtain ⟨e, rfl⟩ := SlotTable.holds_iff.1 hc
    rfl
  | reservationFor a =>
    obtain ⟨way, hw, heq⟩ := List.mem_map.1 hi
    cases heq
    refine SlotTable.current_of_findIndex? (Option.mem_toList.1 hw) fun c hc => ?_
    cases c with
    | reserved line => exact congrArg some (eq_of_beq hc)
    | free | filled => cases hc
  | entries =>
    obtain ⟨⟨way, line, e⟩, hmem, heq⟩ := List.mem_map.1 hi
    cases heq
    obtain ⟨i, rfl, hc⟩ := SlotTable.mem_entries.1 hmem
    exact SlotTable.current_handleAt (by rw [apply, hc]; rfl)
  | touch | release | modify => cases hi

/-- The table keeps its word on the handles that the call `c` gives out, and the call keeps to its
slot. -/
structure Safe (t : LineTable γ) (c : TableCall γ) : Prop where
  /-- The index of a handle is one of 32 bits. -/
  narrow : ∀ h X, (h, X) ∈ t.issued c → h.index < UInt32.size
  /-- A handle is good until its slot is released or replaced, ... -/
  lasting : ∀ h X more, (h, X) ∈ t.issued c →
    retirements retired? (record apply (t.apply c) more) h.index = 0 →
    ((t.apply c).after more).Resolves h X
  /-- ... and good for nothing from then on, as long as that has not been done too often. -/
  ended : ∀ h X more, (h, X) ∈ t.issued c →
    0 < retirements retired? (record apply (t.apply c) more) h.index →
    retirements retired? (record apply (t.apply c) more) h.index < UInt32.size →
    ((t.apply c).after more).Dead h
  /-- What is done through a handle is done to its slot alone. -/
  elsewhere : ∀ h, c.handle? = some h → ∀ j, j ≠ h.index →
    (t.apply c).slots.slots[j]? = t.slots.slots[j]?

theorem changes_apply (t : LineTable γ) (c : TableCall γ) (hs : t.Shaped) :
    (t.apply c).Shaped ∧ ∃ i, t.slots.Changes i (t.apply c).slots (t.retired? c) := by
  obtain ⟨i, -, heffect⟩ := effect_apply hs c
  exact ⟨hs.apply c, i, heffect.slots⟩

theorem Shaped.safe (hs : t.Shaped) (hsize : t.slots.capacity ≤ UInt32.size) (c : TableCall γ) :
    t.Safe c where
  narrow h X hi := by
    obtain ⟨-, i, hchange⟩ := changes_apply t c hs
    have hlt := (current_of_issued hs hi).lt_capacity
    rw [hchange.capacity] at hlt
    exact Nat.lt_of_lt_of_le hlt hsize
  lasting h X more hi hnone := resolves_of_current
    (SlotTable.Current.lasts changes_apply (hs.apply c) (current_of_issued hs hi) more hnone)
  ended h X more hi hpos hlt := dead_of_behind?
    (SlotTable.Current.ends changes_apply (hs.apply c) (current_of_issued hs hi) more hpos hlt)
  elsewhere h hh j hj := by
    cases c with
    | install way e =>
      cases hh
      exact (effect_install t h e).slots.elsewhere hj
    | touch way =>
      cases hh
      exact (effect_touch t h).slots.elsewhere hj
    | replace way a =>
      cases hh
      exact (effect_replace t h a).slots.elsewhere hj
    | release way =>
      cases hh
      exact (effect_release t h).slots.elsewhere hj
    | modify way f =>
      cases hh
      exact (effect_modify t h f).slots.elsewhere hj
    | reserve | lookup | reservationFor | entries => cases hh

end LineTable

/-! ## Miss registers -/

/-- A call on miss registers. Handles may be any, also stale ones. -/
inductive MshrCall (τ : Type) where
  | reserve (line : Addr) (v : τ)
  | modify (h : Handle) (f : τ → τ)
  | release (h : Handle)
  | find (line : Addr)
  | first (p : τ → Bool)
  | entries

/-- The handle that a call is made through, if it is. -/
def MshrCall.handle? {τ : Type} : MshrCall τ → Option Handle
  | .modify h _ | .release h => some h
  | .reserve _ _ | .find _ | .first _ | .entries => none

namespace Mshr

variable {τ : Type} {m : Mshr τ} {h : Handle} {X : Addr}

/-- The registers after a call. -/
def apply (m : Mshr τ) : MshrCall τ → Mshr τ
  | .reserve line v => ((m.reserve? line v).map (·.2)).getD m
  | .modify h f => m.modify h f
  | .release h => (m.release h).2
  | .find _ | .first _ | .entries => m

/-- The registers after some calls, one after another. -/
def after (m : Mshr τ) (calls : List (MshrCall τ)) : Mshr τ := calls.foldl apply m

/-- The register that a call frees. -/
def retired? (m : Mshr τ) : MshrCall τ → Option Nat
  | .release h => (m.slots.behind? h).map fun _ => h.index
  | _ => none

/-- The handles that the answer to a call holds, each with the line that it is given out for. -/
def issued (m : Mshr τ) : MshrCall τ → List (Handle × Addr)
  | .reserve line v => ((m.reserve? line v).map (·.1)).toList.map (·, line)
  | .find line => (m.find? line).toList.map (·, line)
  | .first p =>
      (m.findSome? fun v => Option.guard p v).toList.map fun (h, line, _) => (h, line)
  | .entries => m.entries.map fun (h, line, _) => (h, line)
  | .modify _ _ | .release _ => []

/-- Every operation through the handle is about the register at its index, which is that of the
line `X`. -/
structure Resolves (m : Mshr τ) (h : Handle) (X : Addr) : Prop where
  line : (m.slots.contentAt h.index).line? = some X
  lineOf : m.lineOf? h = some X
  entry : m.get? h = (m.slots.contentAt h.index).value?
  modify : ∀ f v, m.slots.contentAt h.index = .filled X v →
    m.modify h f = { slots := m.slots.write h.index (.filled X (f v)) }
  release : m.release h
    = ((m.slots.contentAt h.index).value?, { slots := m.slots.retire h.index .free })

/-- Every operation through the handle gives nothing and changes nothing. -/
structure Dead (m : Mshr τ) (h : Handle) : Prop where
  entry : m.get? h = none
  lineOf : m.lineOf? h = none
  modify : ∀ f, m.modify h f = m
  release : m.release h = (none, m)

theorem resolves_of_current (hc : m.slots.Current h X) : m.Resolves h X := by
  obtain ⟨index, generation⟩ := h
  have heq : (⟨index, generation⟩ : Handle) = m.slots.handleAt index := hc.eq
  have hlt : index < m.slots.capacity := hc.lt_capacity
  have hline : (m.slots.contentAt index).line? = some X := hc.line
  rw [heq]
  exact {
    line := hline
    lineOf := (SlotTable.lineOf?_handleAt index).trans hline
    entry := SlotTable.get?_handleAt index
    modify := fun f v hf => congrArg Mshr.mk (SlotTable.modify_handleAt hf f)
    release := by rw [Mshr.release, SlotTable.vacate, SlotTable.behind?_handleAt hlt]; rfl }

theorem dead_of_behind? (hb : m.slots.behind? h = none) : m.Dead h where
  entry := by rw [get?, SlotTable.get?, hb]; rfl
  lineOf := by rw [lineOf?, SlotTable.lineOf?, hb]; rfl
  modify f := by rw [Mshr.modify, SlotTable.modify, hb]
  release := by rw [Mshr.release, SlotTable.vacate, hb]

theorem changes_apply (m : Mshr τ) (c : MshrCall τ) (hw : m.slots.ways = m.slots.capacity) :
    (m.apply c).slots.ways = (m.apply c).slots.capacity ∧
      ∃ i, m.slots.Changes i (m.apply c).slots (m.retired? c) ∧
        ∀ h, c.handle? = some h → i = h.index := by
  suffices hchange : ∃ i, m.slots.Changes i (m.apply c).slots (m.retired? c) ∧
      ∀ h, c.handle? = some h → i = h.index by
    obtain ⟨i, hi, hindex⟩ := hchange
    exact ⟨by rw [hi.ways, hi.capacity, hw], i, hi, hindex⟩
  have hself (h : Handle) : ∀ h', some h = some h' → h.index = h'.index := by
    rintro h' ⟨⟩
    rfl
  have hnone (i : Nat) : ∀ h', (none : Option Handle) = some h' → i = h'.index := by
    rintro h' ⟨⟩
  cases c with
  | reserve line v =>
    cases hf : m.free? with
    | none =>
      rw [apply, reserve?, hf]
      exact ⟨0, .stay, hnone 0⟩
    | some h =>
      obtain ⟨r, rfl, hfree, hr⟩ := of_free? hw hf
      rw [apply, reserve?, hf]
      exact ⟨r, .take _ hr hfree, hnone r⟩
  | modify h f =>
    refine ⟨h.index, ?_, hself h⟩
    rw [apply, Mshr.modify, SlotTable.modify]
    split
    · next line v hb =>
      obtain ⟨-, hc, -⟩ := SlotTable.of_behind? hb
      have hline : (m.slots.contentAt h.index).line? = some line := by rw [hc]; rfl
      exact .rewrite hline rfl
    · exact .stay
  | release h =>
    refine ⟨h.index, ?_, hself h⟩
    cases hb : m.slots.behind? h with
    | none =>
      rw [apply, retired?, (dead_of_behind? hb).release, hb]
      exact .stay
    | some c =>
      obtain ⟨-, -, hlt⟩ := SlotTable.of_behind? hb
      rw [apply, retired?, Mshr.release, SlotTable.vacate, hb]
      exact .retire _ hlt
  | find | first | entries => exact ⟨0, .stay, hnone 0⟩

/-- A handle that is given out is that of a register of the line. -/
theorem current_of_issued (hw : m.slots.ways = m.slots.capacity) {c : MshrCall τ}
    (hi : (h, X) ∈ m.issued c) : (m.apply c).slots.Current h X := by
  cases c with
  | reserve line v =>
    cases hf : m.free? with
    | none =>
      rw [issued, reserve?, hf] at hi
      cases hi
    | some way =>
      obtain ⟨r, rfl, -, hr⟩ := of_free? hw hf
      rw [issued, reserve?, hf] at hi
      cases List.mem_singleton.1 hi
      rw [apply, reserve?, hf]
      have hcurrent := SlotTable.current_handleAt (t := m.slots.write r (.filled X v)) (i := r)
        (X := X) (by rw [SlotTable.contentAt_write_self _ _ hr]; rfl)
      rwa [SlotTable.handleAt_write] at hcurrent
  | find line =>
    obtain ⟨way, hway, heq⟩ := List.mem_map.1 hi
    cases heq
    refine SlotTable.current_of_findIndex? (Option.mem_toList.1 hway) fun c hc => ?_
    obtain ⟨v, rfl⟩ := SlotTable.holds_iff.1 hc
    rfl
  | first p =>
    obtain ⟨⟨way, line, v⟩, hfound, heq⟩ := List.mem_map.1 hi
    cases heq
    obtain ⟨r, w, rfl, hc, -⟩ := of_findSome? (Option.mem_toList.1 hfound)
    exact SlotTable.current_handleAt (by rw [apply, hc]; rfl)
  | entries =>
    obtain ⟨⟨way, line, v⟩, hmem, heq⟩ := List.mem_map.1 hi
    cases heq
    obtain ⟨r, rfl, hc⟩ := SlotTable.mem_entries.1 hmem
    exact SlotTable.current_handleAt (by rw [apply, hc]; rfl)
  | modify | release => cases hi

/-- The registers keep their word on the handles that the call `c` gives out, and the call keeps to
its register. -/
structure Safe (m : Mshr τ) (c : MshrCall τ) : Prop where
  narrow : ∀ h X, (h, X) ∈ m.issued c → h.index < UInt32.size
  lasting : ∀ h X more, (h, X) ∈ m.issued c →
    retirements retired? (record apply (m.apply c) more) h.index = 0 →
    ((m.apply c).after more).Resolves h X
  ended : ∀ h X more, (h, X) ∈ m.issued c →
    0 < retirements retired? (record apply (m.apply c) more) h.index →
    retirements retired? (record apply (m.apply c) more) h.index < UInt32.size →
    ((m.apply c).after more).Dead h
  elsewhere : ∀ h, c.handle? = some h → ∀ j, j ≠ h.index →
    (m.apply c).slots.slots[j]? = m.slots.slots[j]?

theorem safe (hw : m.slots.ways = m.slots.capacity) (hsize : m.slots.capacity ≤ UInt32.size)
    (c : MshrCall τ) : m.Safe c := by
  have hstep (m : Mshr τ) (c : MshrCall τ) (hw : m.slots.ways = m.slots.capacity) :
      (m.apply c).slots.ways = (m.apply c).slots.capacity ∧
        ∃ i, m.slots.Changes i (m.apply c).slots (m.retired? c) := by
    obtain ⟨hw', i, hchange, -⟩ := changes_apply m c hw
    exact ⟨hw', i, hchange⟩
  obtain ⟨hw', i, hchange, hindex⟩ := changes_apply m c hw
  exact {
    narrow := fun h X hi => by
      have hlt := (current_of_issued hw hi).lt_capacity
      rw [hchange.capacity] at hlt
      exact Nat.lt_of_lt_of_le hlt hsize
    lasting := fun h X more hi hnone => resolves_of_current
      (SlotTable.Current.lasts hstep hw' (current_of_issued hw hi) more hnone)
    ended := fun h X more hi hpos hlt => dead_of_behind?
      (SlotTable.Current.ends hstep hw' (current_of_issued hw hi) more hpos hlt)
    elsewhere := fun h hh j hj => hchange.elsewhere (by rw [hindex h hh]; exact hj) }

/-- Registers keep to their shape. -/
theorem whole_after (hw : m.slots.ways = m.slots.capacity) (calls : List (MshrCall τ)) :
    (m.after calls).slots.ways = (m.after calls).slots.capacity ∧
      (m.after calls).slots.capacity = m.slots.capacity := by
  induction calls generalizing m with
  | nil => exact ⟨hw, rfl⟩
  | cons c rest ih =>
    obtain ⟨hw', i, hchange, -⟩ := changes_apply m c hw
    obtain ⟨hwhole, hcapacity⟩ := ih hw'
    exact ⟨hwhole, hcapacity.trans hchange.capacity⟩

end Mshr

/-! ## Both kinds of tables -/

/-- In a table of at most 2^32 ways, and among at most 2^32 miss registers, every handle that is
ever given out stands for its slot and its line until the slot is released or replaced, and for
nothing from then on; and nothing that is done through a handle, of whatever time, changes another
slot. -/
theorem handles_safe :
    (∀ (γ : Type) (g : CacheGeometry) (t : LineTable γ), LineTable.leastRecent? g = .ok t →
      t.slots.capacity ≤ UInt32.size → ∀ calls c, (t.after calls).Safe c) ∧
    (∀ (τ : Type) (n : Nat), n ≤ UInt32.size →
      ∀ calls c, ((Mshr.ofCapacity n : Mshr τ).after calls).Safe c) := by
  refine ⟨fun γ g t ht hsize calls c => ?_, fun τ n hn calls c => ?_⟩
  · obtain ⟨hs, -⟩ := LineTable.leastRecent?_shaped ht
    obtain ⟨-, -, hcapacity⟩ := hs.shape_after calls
    exact (hs.after calls).safe (by rwa [hcapacity]) c
  · have hempty : (Mshr.ofCapacity n : Mshr τ).slots.capacity = n := by
      rw [Mshr.ofCapacity, SlotTable.capacity_empty, Nat.one_mul]
    obtain ⟨hwhole, hcapacity⟩ := Mshr.whole_after (m := (Mshr.ofCapacity n : Mshr τ))
      hempty.symm calls
    exact Mshr.safe hwhole (by rwa [hcapacity, hempty]) c

/-- A cache of a single way. -/
def singleWay : CacheGeometry := { sizeBytes := 32, lineBytes := 32, ways := 1 }

/-- The only way, and the only register, go from line 0 to line 32, and the handle for line 0 is
good for nothing then. -/
theorem handles_safe_reused :
    (∃ t : LineTable Unit, LineTable.leastRecent? singleWay = .ok t ∧
      t.slots.capacity ≤ UInt32.size ∧ (⟨0, 0⟩, 0) ∈ t.issued (.reserve 0) ∧
      ((t.apply (.reserve 0)).after [.release ⟨0, 0⟩, .reserve 32]).Dead ⟨0, 0⟩) ∧
    1 ≤ UInt32.size ∧ (⟨0, 0⟩, 0) ∈ (Mshr.ofCapacity 1 : Mshr Unit).issued (.reserve 0 ()) ∧
      (((Mshr.ofCapacity 1 : Mshr Unit).apply (.reserve 0 ())).after
        [.release ⟨0, 0⟩, .reserve 32 ()]).Dead ⟨0, 0⟩ := by
  obtain ⟨hlines, hregisters⟩ := handles_safe
  refine ⟨?_, by decide, ?_⟩
  · obtain ⟨t, ht⟩ : ∃ t : LineTable Unit, LineTable.leastRecent? singleWay = .ok t :=
      LineTable.exists_leastRecent? (by decide)
    have hrun : (LineTable.leastRecent? singleWay).map (fun t : LineTable Unit =>
        (t.slots.capacity, t.issued (.reserve 0), retirements LineTable.retired?
          (record LineTable.apply (t.apply (.reserve 0)) [.release ⟨0, 0⟩, .reserve 32]) 0))
        = .ok (1, [(⟨0, 0⟩, 0)], 1) := rfl
    rw [ht] at hrun
    obtain ⟨hcapacity, hrun⟩ := Prod.ext_iff.1 (Except.ok.inj hrun)
    obtain ⟨hissued, hretired⟩ := Prod.ext_iff.1 hrun
    have hsize : t.slots.capacity ≤ UInt32.size := by
      rw [show t.slots.capacity = 1 from hcapacity]
      decide
    have hmem : ((⟨0, 0⟩, 0) : Handle × Addr) ∈ t.issued (.reserve 0) := by
      rw [show t.issued (.reserve 0) = [(⟨0, 0⟩, 0)] from hissued]
      exact List.mem_singleton_self _
    refine ⟨t, ht, hsize, hmem, (hlines Unit singleWay t ht hsize [] (.reserve 0)).ended _ 0 _ hmem
      ?_ ?_⟩
    · exact Nat.one_pos.trans_eq hretired.symm
    · exact hretired.trans_lt (by decide)
  · have hmem : ((⟨0, 0⟩, 0) : Handle × Addr)
        ∈ (Mshr.ofCapacity 1 : Mshr Unit).issued (.reserve 0 ()) := by decide
    exact ⟨hmem, (hregisters Unit 1 (by decide) [] (.reserve 0 ())).ended _ 0 _ hmem (by decide)
      (by decide)⟩

end CacheCoherence
