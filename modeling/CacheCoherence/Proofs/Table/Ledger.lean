import CacheCoherence.Proofs.Table.Lines
import CacheCoherence.Proofs.Table.Registers

/-!
# Ledger — where every line of a cache stands

A line table and the registers of one node are kept together: a register says what a
line waits for, and names a way by its handle. The ledger gives every line one place, and
table and registers hold exactly what the places say. So a line is never in two ways, no
way is named by two transactions, and no handle in a register is stale.
-/

namespace CacheCoherence

open Function (update update_self update_of_ne)

/-! ## Slots and the lines in them -/

/-- The slots hold exactly what `slot` says of every line. -/
def Occupies {α : Type} (content : Nat → SlotContent α)
    (slot : Addr → Option (Nat × SlotContent α)) : Prop :=
  ∀ i X c, c.line? = some X → (content i = c ↔ slot X = some (i, c))

namespace Occupies

variable {α : Type} {content : Nat → SlotContent α} {slot : Addr → Option (Nat × SlotContent α)}
  {i : Nat} {X : Addr} {c : SlotContent α}

/-- A line moves into a slot that is free or its own. -/
theorem put (h : Occupies content slot) (hc : c.line? = some X)
    (hi : content i = .free ∨ (content i).line? = some X)
    (hX : ∀ j d, slot X = some (j, d) → j = i) :
    Occupies (update content i c) (update slot X (some (i, c))) := by
  intro j Y d hd
  by_cases hj : j = i
  · subst hj
    rw [update_self]
    by_cases hY : Y = X
    · subst hY
      rw [update_self]
      simp
    · rw [update_of_ne hY, ← h j Y d hd]
      constructor
      · rintro rfl
        exact absurd (Option.some.inj (hd.symm.trans hc)) hY
      · rintro rfl
        rcases hi with hi | hi
        · rw [hi] at hd
          cases hd
        · exact absurd (Option.some.inj (hd.symm.trans hi)) hY
  · rw [update_of_ne hj, h j Y d hd]
    by_cases hY : Y = X
    · subst hY
      rw [update_self]
      constructor
      · intro hs
        exact absurd (hX j d hs) hj
      · intro hs
        cases hs
        exact absurd rfl hj
    · rw [update_of_ne hY]

/-- A line leaves its slot. -/
theorem clear (h : Occupies content slot) (hX : slot X = some (i, c)) (hc : c.line? = some X) :
    Occupies (update content i .free) (update slot X none) := by
  intro j Y d hd
  have hi := (h i X c hc).2 hX
  by_cases hY : Y = X
  · subst hY
    rw [update_self]
    by_cases hj : j = i
    · subst hj
      rw [update_self]
      constructor
      · rintro rfl
        cases hd
      · exact nofun
    · rw [update_of_ne hj, h j Y d hd, hX]
      constructor
      · intro hs
        cases hs
        exact absurd rfl hj
      · exact nofun
  · rw [update_of_ne hY, ← h j Y d hd]
    by_cases hj : j = i
    · subst hj
      rw [update_self, hi]
      constructor
      · rintro rfl
        cases hd
      · rintro rfl
        exact absurd (Option.some.inj (hd.symm.trans hc)) hY
    · rw [update_of_ne hj]

/-- A slot that is not free holds its line. -/
theorem of_content (h : Occupies content slot) (hi : content i = c) (hc : c.line? = some X) :
    slot X = some (i, c) :=
  (h i X c hc).1 hi

/-- No two lines stand in one slot. -/
theorem line_unique (h : Occupies content slot) {Y : Addr} {d : SlotContent α}
    (hX : slot X = some (i, c)) (hc : c.line? = some X) (hY : slot Y = some (i, d))
    (hd : d.line? = some Y) : X = Y := by
  have h1 := (h i X c hc).2 hX
  have h2 := (h i Y d hd).2 hY
  rw [h1] at h2
  subst h2
  exact Option.some.inj (hc.symm.trans hd)

end Occupies

/-! ## Places -/

/-- The way that a transaction lays claim to. -/
inductive Claim where
  /-- The victim in the way is still being evicted. -/
  | awaits (way : Handle)
  /-- The way is reserved for the line. -/
  | reserved (way : Handle)
  /-- The line is resident in the way. -/
  | resident (way : Handle)
deriving DecidableEq, Repr

/-- How a node reads its transactions and the controllers of its lines. -/
structure Discipline (γ τ : Type) where
  claim : τ → Claim
  stable : γ → Bool

/-- Where a line stands: in the way `i` and in the register `r`. -/
inductive Place (γ τ : Type) where
  | absent
  /-- Resident, possibly with a transaction. -/
  | filed (i : Nat) (e : LineEntry γ) (tx : Option (Nat × τ))
  /-- Being fetched into a way reserved for it. -/
  | reserved (i r : Nat) (v : τ)
  /-- To be fetched once the victim is gone. -/
  | waiting (i r : Nat) (v : τ)

variable {γ τ : Type}

namespace Place

/-- The way in question. -/
def way? : Place γ τ → Option Nat
  | absent => none
  | filed i _ _ | reserved i _ _ | waiting i _ _ => some i

/-- What the line takes up of the table. -/
def slot? (line : Addr) : Place γ τ → Option (Nat × SlotContent (LineEntry γ))
  | filed i e _ => some (i, .filled line e)
  | reserved i _ _ => some (i, .reserved line)
  | _ => none

/-- The register of the line and the transaction in it. -/
def register? : Place γ τ → Option (Nat × τ)
  | absent => none
  | filed _ _ tx => tx
  | reserved _ r v | waiting _ r v => some (r, v)

/-- What the line takes up of the registers. -/
def entered? (line : Addr) (p : Place γ τ) : Option (Nat × SlotContent τ) :=
  p.register?.map fun rv => (rv.1, .filled line rv.2)

/-- Way and entry of a resident line. -/
def resident? : Place γ τ → Option (Nat × LineEntry γ)
  | filed i e _ => some (i, e)
  | _ => none

/-- The way that the line waits for. -/
def waits? : Place γ τ → Option Nat
  | waiting i _ _ => some i
  | _ => none

/-- The way that the line is to leave. -/
def leaves? : Place γ τ → Option Nat
  | filed i e _ => if e.evicting then some i else none
  | _ => none

/-- What has to hold of the line `X` in its place. -/
def Fits (D : Discipline γ τ) (t : LineTable γ) (X : Addr) : Place γ τ → Prop
  | absent => True
  | filed i e none => t.InSet i X ∧ (e.evicting = false → D.stable e.controller = true)
  | filed i e (some (_, v)) =>
      t.InSet i X ∧ e.evicting = false ∧ D.stable e.controller = false ∧
        D.claim v = .resident (t.slots.handleAt i)
  | reserved i _ v => t.InSet i X ∧ D.claim v = .reserved (t.slots.handleAt i)
  | waiting i _ v => t.InSet i X ∧ D.claim v = .awaits (t.slots.handleAt i)

theorem line?_of_slot? {p : Place γ τ} {X : Addr} {i : Nat} {c : SlotContent (LineEntry γ)}
    (h : p.slot? X = some (i, c)) : c.line? = some X := by
  cases p <;> cases h <;> rfl

theorem filed_of_leaves {p : Place γ τ} {i : Nat} (h : p.leaves? = some i) :
    ∃ e tx, p = .filed i e tx ∧ e.evicting = true := by
  cases p with
  | filed j e tx =>
    obtain ⟨hev, hj⟩ := Option.ite_none_right_eq_some.1 h
    cases hj
    exact ⟨e, tx, rfl, hev⟩
  | absent | reserved | waiting => cases h

theorem Fits.congr {D : Discipline γ τ} {t t' : LineTable γ} {X : Addr} {p : Place γ τ}
    (h : p.Fits D t X) (hl : t'.layout = t.layout) (hw : t'.slots.ways = t.slots.ways)
    (hh : ∀ i, p.way? = some i → t'.slots.handleAt i = t.slots.handleAt i) : p.Fits D t' X := by
  have hin : ∀ i, t.InSet i X → t'.InSet i X := by
    intro i hi
    unfold LineTable.InSet SlotTable.setIndices at *
    rwa [hl, hw]
  cases p with
  | absent => trivial
  | filed i e tx =>
    cases tx with
    | none => exact ⟨hin i h.1, h.2⟩
    | some rv =>
      obtain ⟨h1, h2, h3, h4⟩ := h
      exact ⟨hin i h1, h2, h3, by rw [hh i rfl, h4]⟩
  | reserved i r v => exact ⟨hin i h.1, by rw [hh i rfl, h.2]⟩
  | waiting i r v => exact ⟨hin i h.1, by rw [hh i rfl, h.2]⟩

theorem Fits.inSet {D : Discipline γ τ} {t : LineTable γ} {X : Addr} {p : Place γ τ}
    (h : p.Fits D t X) {i : Nat} (hi : p.way? = some i) : t.InSet i X := by
  cases p with
  | absent => cases hi
  | filed j e tx =>
    cases hi
    cases tx <;> exact h.1
  | reserved | waiting =>
    cases hi
    exact h.1

end Place

/-- Lines wait for exactly the ways that others are to leave, each way for one line. -/
structure Matched (waits leaves : Addr → Option Nat) : Prop where
  iff : ∀ i, (∃ X, waits X = some i) ↔ ∃ V, leaves V = some i
  alone : ∀ X Y i, waits X = some i → waits Y = some i → X = Y

namespace Matched

variable {waits leaves : Addr → Option Nat} {X V : Addr} {i : Nat}

/-- One more line waits, and one more is to leave. -/
theorem add (h : Matched waits leaves) (hX : waits X = none) (hV : leaves V = none)
    (hi : ∀ Y, waits Y ≠ some i) :
    Matched (update waits X (some i)) (update leaves V (some i)) where
  iff j := by
    by_cases hj : j = i
    · subst hj
      exact ⟨fun _ => ⟨V, update_self ..⟩, fun _ => ⟨X, update_self ..⟩⟩
    · have hw : ∀ Y, update waits X (some i) Y = some j ↔ waits Y = some j := by
        intro Y
        by_cases hY : Y = X
        · simp [hY, hX, Ne.symm hj]
        · rw [update_of_ne hY]
      have hl : ∀ U, update leaves V (some i) U = some j ↔ leaves U = some j := by
        intro U
        by_cases hU : U = V
        · simp [hU, hV, Ne.symm hj]
        · rw [update_of_ne hU]
      simpa only [hw, hl] using h.iff j
  alone Y Z j hY hZ := by
    by_cases hYX : Y = X <;> by_cases hZX : Z = X
    · rw [hYX, hZX]
    · rw [hYX, update_self] at hY
      rw [update_of_ne hZX, ← hY] at hZ
      exact absurd hZ (hi Z)
    · rw [hZX, update_self] at hZ
      rw [update_of_ne hYX, ← hZ] at hY
      exact absurd hY (hi Y)
    · rw [update_of_ne hYX] at hY
      rw [update_of_ne hZX] at hZ
      exact h.alone Y Z j hY hZ

/-- A line has left, and the one that waited for it waits no more. -/
theorem remove (h : Matched waits leaves) (hX : waits X = some i) (hV : leaves V = some i)
    (hi : ∀ U, leaves U = some i → U = V) :
    Matched (update waits X none) (update leaves V none) where
  iff j := by
    by_cases hj : j = i
    · subst hj
      constructor
      · rintro ⟨Y, hY⟩
        by_cases hYX : Y = X
        · simp [hYX] at hY
        · rw [update_of_ne hYX] at hY
          exact absurd (h.alone Y X j hY hX) hYX
      · rintro ⟨U, hU⟩
        by_cases hUV : U = V
        · simp [hUV] at hU
        · rw [update_of_ne hUV] at hU
          exact absurd (hi U hU) hUV
    · have hw : ∀ Y, update waits X none Y = some j ↔ waits Y = some j := by
        intro Y
        by_cases hY : Y = X
        · simp [hY, hX, Ne.symm hj]
        · rw [update_of_ne hY]
      have hl : ∀ U, update leaves V none U = some j ↔ leaves U = some j := by
        intro U
        by_cases hU : U = V
        · simp [hU, hV, Ne.symm hj]
        · rw [update_of_ne hU]
      simpa only [hw, hl] using h.iff j
  alone Y Z j hY hZ := by
    by_cases hYX : Y = X
    · simp [hYX] at hY
    · by_cases hZX : Z = X
      · simp [hZX] at hZ
      · rw [update_of_ne hYX] at hY
        rw [update_of_ne hZX] at hZ
        exact h.alone Y Z j hY hZ

end Matched

/-- The table `t` and the registers `m` hold exactly what `place` says. -/
structure Filing (D : Discipline γ τ) (t : LineTable γ) (m : Mshr τ) (place : Addr → Place γ τ) :
    Prop where
  table : t.Shaped
  registers : m.Shaped
  aligned : ∀ X, place X ≠ .absent → t.lineAddr X = X
  ways : Occupies t.slots.contentAt fun X => (place X).slot? X
  tracked : Occupies m.slots.contentAt fun X => (place X).entered? X
  fits : ∀ X, (place X).Fits D t X

/-- Table and registers hold what `place` says, and every line that is being evicted makes
room for one that waits. -/
structure Ledger (D : Discipline γ τ) (t : LineTable γ) (m : Mshr τ) (place : Addr → Place γ τ) :
    Prop extends Filing D t m place where
  matched : Matched (fun X => (place X).waits?) fun X => (place X).leaves?

/-! ## Reading -/

namespace Filing

variable {D : Discipline γ τ} {t t' : LineTable γ} {m m' : Mshr τ} {place : Addr → Place γ τ}
  {X V : Addr} {i r : Nat} {v w : τ} {e : LineEntry γ} {tx : Option (Nat × τ)}

theorem content_filed (h : Filing D t m place) (hp : place X = .filed i e tx) :
    t.slots.contentAt i = .filled X e :=
  (h.ways i X _ rfl).2 (by simp only [hp]; rfl)

theorem content_reserved (h : Filing D t m place) (hp : place X = .reserved i r v) :
    t.slots.contentAt i = .reserved X :=
  (h.ways i X _ rfl).2 (by simp only [hp]; rfl)

theorem content_register (h : Filing D t m place) (hp : (place X).register? = some (r, v)) :
    m.slots.contentAt r = .filled X v :=
  (h.tracked r X _ rfl).2 (by simp only [Place.entered?, hp]; rfl)

theorem filed_of_content (h : Filing D t m place) (hc : t.slots.contentAt i = .filled X e) :
    ∃ tx, place X = .filed i e tx := by
  have hs : (place X).slot? X = _ := h.ways.of_content hc rfl
  cases hp : place X <;> simp [hp, Place.slot?] at hs
  obtain ⟨rfl, rfl⟩ := hs
  exact ⟨_, rfl⟩

theorem reserved_of_content (h : Filing D t m place) (hc : t.slots.contentAt i = .reserved X) :
    ∃ r v, place X = .reserved i r v := by
  have hs : (place X).slot? X = _ := h.ways.of_content hc rfl
  cases hp : place X <;> simp [hp, Place.slot?] at hs
  subst hs
  exact ⟨_, _, rfl⟩

theorem register_of_content (h : Filing D t m place) (hc : m.slots.contentAt r = .filled X v) :
    (place X).register? = some (r, v) := by
  have hs : (place X).entered? X = _ := h.tracked.of_content hc rfl
  obtain ⟨⟨r', v'⟩, hr, heq⟩ := Option.map_eq_some_iff.1 hs
  cases heq
  exact hr

/-- A transaction that has a way reserved is about a line that is fetched into it. -/
theorem reserved_of_claim (h : Filing D t m place) {way : Handle}
    (hr : (place X).register? = some (r, v)) (hc : D.claim v = .reserved way) :
    ∃ i, place X = .reserved i r v ∧ t.slots.handleAt i = way := by
  have hfit := h.fits X
  cases hp : place X with
  | absent =>
    rw [hp] at hr
    cases hr
  | filed i e tx =>
    rw [hp] at hr hfit
    cases hr
    cases hfit.2.2.2.symm.trans hc
  | reserved i r v =>
    rw [hp] at hr hfit
    cases hr
    exact ⟨i, rfl, Claim.reserved.inj (hfit.2.symm.trans hc)⟩
  | waiting i r v =>
    rw [hp] at hr hfit
    cases hr
    cases hfit.2.symm.trans hc

/-- A transaction that waits for a victim is about a line that waits for the victim's way. -/
theorem waiting_of_claim (h : Filing D t m place) {way : Handle}
    (hr : (place X).register? = some (r, v)) (hc : D.claim v = .awaits way) :
    ∃ i, place X = .waiting i r v ∧ t.slots.handleAt i = way := by
  have hfit := h.fits X
  cases hp : place X with
  | absent =>
    rw [hp] at hr
    cases hr
  | filed i e tx =>
    rw [hp] at hr hfit
    cases hr
    cases hfit.2.2.2.symm.trans hc
  | reserved i r v =>
    rw [hp] at hr hfit
    cases hr
    cases hfit.2.symm.trans hc
  | waiting i r v =>
    rw [hp] at hr hfit
    cases hr
    exact ⟨i, rfl, Claim.awaits.inj (hfit.2.symm.trans hc)⟩

/-- The resident line is found in its way. -/
theorem resident?_eq (h : Filing D t m place) (a : Addr) :
    t.resident? a = (place (t.lineAddr a)).resident?.map fun (i, e) => (t.slots.handleAt i, e) := by
  have hfind : t.slots.findIndex? (t.setOf a) (·.holds (t.lineAddr a))
      = (place (t.lineAddr a)).resident?.map (·.1) := by
    cases hp : place (t.lineAddr a) with
    | filed i e tx =>
      refine SlotTable.findIndex?_eq_some ((h.fits _).inSet (by rw [hp]; rfl))
        (SlotTable.holds_iff.2 ⟨e, h.content_filed hp⟩) fun j _ hj => ?_
      obtain ⟨e', hj⟩ := SlotTable.holds_iff.1 hj
      obtain ⟨tx', hp'⟩ := h.filed_of_content hj
      rw [hp] at hp'
      cases hp'
      rfl
    -- no way holds the line, or it would be resident
    | _ =>
      refine SlotTable.findIndex?_eq_none.2 fun j _ => ?_
      rw [Bool.eq_false_iff]
      intro hj
      obtain ⟨e', hj⟩ := SlotTable.holds_iff.1 hj
      obtain ⟨tx', hp'⟩ := h.filed_of_content hj
      rw [hp] at hp'
      cases hp'
  rw [LineTable.resident?, LineTable.lookup, SlotTable.findFilled?, hfind]
  cases hp : place (t.lineAddr a) <;> simp [Place.resident?]
  rw [LineTable.entry?, SlotTable.get?_handleAt, h.content_filed hp]
  rfl

/-- The transaction on a line is found in its register. -/
theorem outstanding?_eq (h : Filing D t m place) (X : Addr) :
    m.outstanding? X = (place X).register?.map fun (r, v) => (m.slots.handleAt r, v) := by
  cases hp : (place X).register? with
  | none =>
    rw [Mshr.outstanding?, Mshr.find?_eq_none]
    · rfl
    · intro q w hq
      rw [h.register_of_content hq] at hp
      cases hp
  | some rv =>
    obtain ⟨r, v⟩ := rv
    refine Mshr.outstanding?_eq_some h.registers (h.content_register hp) fun q w hq => ?_
    rw [h.register_of_content hq] at hp
    cases hp
    rfl

theorem tracks_eq (h : Filing D t m place) (X : Addr) :
    m.tracks X = (place X).register?.isSome := by
  cases hp : (place X).register? with
  | none =>
    rw [Mshr.tracks, Mshr.find?_eq_none]
    · rfl
    · intro q w hq
      rw [h.register_of_content hq] at hp
      cases hp
  | some rv =>
    have hout := h.outstanding?_eq X
    rw [hp] at hout
    obtain ⟨q, hq, -⟩ := Option.bind_eq_some_iff.1 hout
    rw [Mshr.tracks, hq]
    rfl

/-- Where no line has a transaction, every register is free. -/
theorem register_free (h : Filing D t m place) (hnone : ∀ X, (place X).register? = none) (r : Nat) :
    m.slots.contentAt r = .free := by
  cases hc : m.slots.contentAt r with
  | free => rfl
  | filled X v =>
    have hr := h.register_of_content hc
    rw [hnone X] at hr
    cases hr
  | reserved X =>
    have hs : (place X).entered? X = _ := h.tracked.of_content hc rfl
    rw [Place.entered?, hnone X] at hs
    cases hs

end Filing

/-- The transaction that waits for a victim is found by the handle of the victim's way. -/
theorem Ledger.findSome?_eq {D : Discipline γ τ} {t : LineTable γ} {m : Mshr τ}
    {place : Addr → Place γ τ} (h : Ledger D t m place) {X : Addr} {i r : Nat} {v : τ} {β : Type}
    {f : τ → Option β} {x : β} (hp : place X = .waiting i r v) (hv : f v = some x)
    (hf : ∀ w y, f w = some y → D.claim w = .awaits (t.slots.handleAt i)) :
    m.findSome? f = some (m.slots.handleAt r, X, x) := by
  have hmem : (m.slots.handleAt r, X, v) ∈ m.entries :=
    SlotTable.mem_entries.2 ⟨r, rfl, h.content_register (by rw [hp]; rfl)⟩
  -- any transaction that `f` accepts waits for the same way, and so is the one on `X`
  have hall : ∀ q Y w y, (q, Y, w) ∈ m.entries → f w = some y →
      (q, Y, y) = (m.slots.handleAt r, X, x) := by
    intro q Y w y hq hy
    obtain ⟨s, rfl, hs⟩ := SlotTable.mem_entries.1 hq
    have hreg := h.register_of_content hs
    have hc := hf w y hy
    obtain ⟨j, hY, hway⟩ := h.waiting_of_claim hreg hc
    -- two lines that wait for one way are the same
    obtain rfl : j = i := congrArg Handle.index hway
    obtain rfl := h.matched.alone X Y j (by simp only [hp]; rfl) (by simp only [hY]; rfl)
    rw [hp] at hY
    cases hY
    rw [hv] at hy
    cases hy
    rfl
  unfold Mshr.findSome?
  generalize hres : m.entries.findSome? _ = found
  cases found with
  | none =>
    have := List.findSome?_eq_none_iff.1 hres _ hmem
    simp [hv] at this
  | some res =>
    obtain ⟨⟨q, Y, w⟩, hq, hw⟩ := List.exists_of_findSome?_eq_some hres
    obtain ⟨y, hy, rfl⟩ := Option.map_eq_some_iff.1 hw
    rw [hall q Y w y hq hy]

namespace Ledger

variable {D : Discipline γ τ} {t : LineTable γ} {m : Mshr τ} {place : Addr → Place γ τ}

/-- Where no line is to leave, none waits for a way. -/
theorem not_waiting (h : Ledger D t m place) (hl : ∀ V, (place V).leaves? = none) {X : Addr}
    {i r : Nat} {v : τ} : place X ≠ .waiting i r v := by
  intro hp
  obtain ⟨V, hV⟩ := (h.matched.iff i).1 ⟨X, by simp only [hp]; rfl⟩
  rw [hl V] at hV
  cases hV

/-- Where nothing is outstanding, every line that there is lies in the table and is stable. -/
theorem stable_of_occupancy (h : Ledger D t m place) (ho : m.occupancy = 0) (X : Addr) :
    place X = .absent ∨ ∃ i e, place X = .filed i e none ∧ D.stable e.controller = true := by
  have hnone : ∀ Y, (place Y).register? = none := fun Y =>
    Option.eq_none_iff_forall_ne_some.2 fun (r, v) hr =>
      SlotTable.contentAt_ne_filled ho v (h.content_register hr)
  have hfit := h.fits X
  cases hX : place X with
  | absent => exact .inl rfl
  | filed i e tx =>
    have htx := hnone X
    rw [hX] at htx hfit
    obtain rfl : tx = none := htx
    refine .inr ⟨i, e, rfl, hfit.2 ?_⟩
    -- a line that is to leave makes room for one that waits in a register
    by_contra hev
    obtain ⟨Y, hY⟩ := (h.matched.iff i).2 ⟨X, by simp [hX, Place.leaves?, hev]⟩
    have hreg := hnone Y
    cases hp : place Y <;> simp [hp, Place.waits?, Place.register?] at hY hreg
  | reserved i r v | waiting i r v =>
    have hreg := hnone X
    rw [hX] at hreg
    cases hreg

end Ledger

/-! ## Changing the place of one line -/

section Update

variable {place : Addr → Place γ τ} {X : Addr} {p : Place γ τ}

theorem slot?_update : (fun Y => (update place X p Y).slot? Y)
    = update (fun Y => (place Y).slot? Y) X (p.slot? X) :=
  funext (Function.apply_update (fun Y p => p.slot? Y) place X p)

theorem entered?_update : (fun Y => (update place X p Y).entered? Y)
    = update (fun Y => (place Y).entered? Y) X (p.entered? X) :=
  funext (Function.apply_update (fun Y p => p.entered? Y) place X p)

theorem waits?_update :
    (fun Y => (update place X p Y).waits?) = update (fun Y => (place Y).waits?) X p.waits? :=
  funext (Function.apply_update (fun _ p => p.waits?) place X p)

theorem leaves?_update :
    (fun Y => (update place X p Y).leaves?) = update (fun Y => (place Y).leaves?) X p.leaves? :=
  funext (Function.apply_update (fun _ p => p.leaves?) place X p)

theorem waits?_update_same (h : p.waits? = (place X).waits?) :
    (fun Y => (update place X p Y).waits?) = fun Y => (place Y).waits? := by
  rw [waits?_update, h, Function.update_eq_self]

theorem leaves?_update_same (h : p.leaves? = (place X).leaves?) :
    (fun Y => (update place X p Y).leaves?) = fun Y => (place Y).leaves? := by
  rw [leaves?_update, h, Function.update_eq_self]

end Update

namespace Filing

variable {D : Discipline γ τ} {t t' : LineTable γ} {m m' : Mshr τ} {place : Addr → Place γ τ}
  {X V : Addr} {i r : Nat} {v w : τ} {e : LineEntry γ} {tx : Option (Nat × τ)} {p : Place γ τ}

/-- Only the line `X` changes its place. -/
theorem change (h : Filing D t m place) (htable : t'.Shaped) (hregs : m'.Shaped)
    (hl : t'.layout = t.layout) (hw : t'.slots.ways = t.slots.ways) (hX : t.lineAddr X = X)
    (hways : Occupies t'.slots.contentAt (update (fun Y => (place Y).slot? Y) X (p.slot? X)))
    (htracked : Occupies m'.slots.contentAt
      (update (fun Y => (place Y).entered? Y) X (p.entered? X)))
    (hfit : p.Fits D t' X)
    (hh : ∀ Y, Y ≠ X → ∀ i, (place Y).way? = some i →
      t'.slots.handleAt i = t.slots.handleAt i) : Filing D t' m' (update place X p) where
  table := htable
  registers := hregs
  aligned Y hY := by
    rw [LineTable.lineAddr, hl]
    by_cases hYX : Y = X
    · rw [hYX]
      exact hX
    · rw [update_of_ne hYX] at hY
      exact h.aligned Y hY
  ways := by rwa [slot?_update]
  tracked := by rwa [entered?_update]
  fits Y := by
    by_cases hYX : Y = X
    · rw [hYX, update_self]
      exact hfit
    · rw [update_of_ne hYX]
      exact (h.fits Y).congr hl hw (hh Y hYX)

/-- The registers stay as they are. -/
theorem tracked_same (h : Filing D t m place) (hr : p.register? = (place X).register?) :
    Occupies m.slots.contentAt (update (fun Y => (place Y).entered? Y) X (p.entered? X)) := by
  rw [Place.entered?, hr, ← Place.entered?, Function.update_eq_self]
  exact h.tracked

theorem ways_same (h : Filing D t m place) (hs : p.slot? X = (place X).slot? X) :
    Occupies t.slots.contentAt (update (fun Y => (place Y).slot? Y) X (p.slot? X)) := by
  rw [hs, Function.update_eq_self]
  exact h.ways

/-- The register of `X` is taken, or written again. -/
theorem tracked_put (h : Filing D t m place) (hm : m.Sets m' r (.filled X v))
    (hr : p.register? = some (r, v))
    (ho : m.slots.contentAt r = .free ∧ (place X).register? = none ∨
      ∃ w, (place X).register? = some (r, w)) :
    Occupies m'.slots.contentAt (update (fun Y => (place Y).entered? Y) X (p.entered? X)) := by
  rw [Place.entered?, hr, hm.content]
  refine h.tracked.put rfl ?_ fun j d hd => ?_
  · rcases ho with ⟨hf, -⟩ | ⟨w, hw⟩
    · exact .inl hf
    · exact .inr (by rw [h.content_register hw]; rfl)
  · rcases ho with ⟨-, hn⟩ | ⟨w, hw⟩
    · simp [Place.entered?, hn] at hd
    · simp [Place.entered?, hw] at hd
      exact hd.1.symm

/-- The register of `X` is released. -/
theorem tracked_clear (h : Filing D t m place) (hm : m.Sets m' r .free)
    (hX : (place X).register? = some (r, v)) (hr : p.register? = none) :
    Occupies m'.slots.contentAt (update (fun Y => (place Y).entered? Y) X (p.entered? X)) := by
  rw [Place.entered?, hr, hm.content]
  exact h.tracked.clear (c := .filled X v) (by simp only [Place.entered?, hX]; rfl) rfl

end Filing

end CacheCoherence
