import CacheCoherence.Proofs.Table.Ledger

/-!
# Ledger steps — how lines change their places

A node changes its table and its registers in a handful of ways. Each moves one line to
another place, or a line and the victim that makes room for it.
-/

namespace CacheCoherence

open Function (update update_self update_of_ne)

variable {γ τ : Type} {D : Discipline γ τ} {t t' : LineTable γ} {m m' : Mshr τ}
  {place : Addr → Place γ τ} {X V : Addr} {i r : Nat} {v w : τ} {e e' : LineEntry γ}
  {tx : Option (Nat × τ)} {p : Place γ τ}

/-! ## Lines and ways -/

theorem Filing.aligned_of (h : Filing D t m place) (hp : place X = p) (hne : p ≠ .absent) :
    t.lineAddr X = X :=
  h.aligned X (hp ▸ hne)

theorem Filing.slot_unique (h : Filing D t m place) {Y : Addr}
    {c d : SlotContent (LineEntry γ)} (hX : (place X).slot? X = some (i, c))
    (hY : (place Y).slot? Y = some (i, d)) : X = Y :=
  h.ways.line_unique hX (Place.line?_of_slot? hX) hY (Place.line?_of_slot? hY)

/-- A line that is to leave a way lies in it. -/
theorem Filing.eq_of_leaves (h : Filing D t m place) {U : Addr} {c : SlotContent (LineEntry γ)}
    (hV : (place V).slot? V = some (i, c)) (hU : (place U).leaves? = some i) : U = V := by
  obtain ⟨e, tx, hpU, -⟩ := Place.filed_of_leaves hU
  exact h.slot_unique (by rw [hpU]; rfl) hV

/-- No other line has to do with the way of a line that stays, unless it waits for it. -/
theorem Ledger.way_of_leaves (h : Ledger D t m place) (hp : place V = .filed i e tx) {Y : Addr}
    (hY : Y ≠ V) (hway : (place Y).way? = some i) :
    (place Y).waits? = some i ∧ e.evicting = true := by
  have hV : (place V).slot? V = some (i, .filled V e) := by rw [hp]; rfl
  cases hpY : place Y with
  | absent => simp [hpY, Place.way?] at hway
  | filed j e' tx' =>
    rw [hpY] at hway
    cases hway
    exact absurd (h.slot_unique (by rw [hpY]; rfl) hV) hY
  | reserved j r v =>
    rw [hpY] at hway
    cases hway
    exact absurd (h.slot_unique (by rw [hpY]; rfl) hV) hY
  | waiting j r v =>
    rw [hpY] at hway
    cases hway
    refine ⟨rfl, ?_⟩
    obtain ⟨U, hU⟩ := (h.matched.iff i).1 ⟨Y, by simp only [hpY]; rfl⟩
    obtain rfl := h.eq_of_leaves hV hU
    rw [hp] at hU
    exact (Option.ite_none_right_eq_some.1 hU).1

namespace Filing

/-- The slot of a line that stays in it is written. -/
theorem ways_put (h : Filing D t m place) {c : SlotContent (LineEntry γ)}
    (hw : t.Writes t' i c) (hc : p.slot? X = some (i, c))
    (ho : t.slots.contentAt i = .free ∧ (place X).slot? X = none ∨
      ∃ d, (place X).slot? X = some (i, d)) :
    Occupies t'.slots.contentAt (update (fun Y => (place Y).slot? Y) X (p.slot? X)) := by
  rw [hc, hw.content]
  refine h.ways.put (Place.line?_of_slot? hc) ?_ fun j d hd => ?_
  · rcases ho with ⟨hf, -⟩ | ⟨d, hd⟩
    · exact .inl hf
    · have hline := Place.line?_of_slot? hd
      exact .inr (by rw [(h.ways i X d hline).2 hd, hline])
  · rcases ho with ⟨-, hn⟩ | ⟨d', hd'⟩
    · simp [hn] at hd
    · simp only [hd'] at hd
      cases hd
      rfl

end Filing

namespace Ledger

/-- A table and registers without lines. -/
theorem empty (ht : t.Shaped) (hm : m.Shaped) (hc : ∀ i, t.slots.contentAt i = .free)
    (hr : ∀ i, m.slots.contentAt i = .free) : Ledger D t m fun _ => .absent where
  table := ht
  registers := hm
  aligned _ hX := absurd rfl hX
  ways i X c hX := by
    rw [hc i]
    constructor
    · rintro rfl
      cases hX
    · exact nofun
  tracked i X c hX := by
    rw [hr i]
    constructor
    · rintro rfl
      cases hX
    · exact nofun
  fits _ := trivial
  matched := ⟨fun i => ⟨nofun, nofun⟩, nofun⟩

/-- A line that is being evicted makes room for another, which waits in a register. -/
theorem waiter (h : Ledger D t m place) (hV : place V = .filed i e tx) (hev : e.evicting = true) :
    ∃ X r v, place X = .waiting i r v ∧ X ≠ V ∧ r < m.slots.capacity := by
  obtain ⟨X, hX⟩ := (h.matched.iff i).2 ⟨V, by simp only [hV, Place.leaves?, if_pos hev]⟩
  cases hp : place X with
  | waiting j r v =>
    simp only [hp, Place.waits?, Option.some.injEq] at hX
    subst hX
    refine ⟨X, r, v, hp, ?_, SlotTable.lt_capacity ?_⟩
    · rintro rfl
      rw [hp] at hV
      cases hV
    · rw [h.content_register (X := X) (r := r) (v := v) (by rw [hp]; rfl)]
      simp
  | _ => simp [hp, Place.waits?] at hX

/-! ## Lines that stay where they are -/

theorem touch (h : Ledger D t m place) (ht : t.Touches t') : Ledger D t' m place where
  table := ht.shaped h.table
  registers := h.registers
  aligned X hX := by
    rw [LineTable.lineAddr, ht.layout]
    exact h.aligned X hX
  ways := by
    rw [ht.slots]
    exact h.ways
  tracked := h.tracked
  fits X := (h.fits X).congr ht.layout (by rw [ht.slots]) fun i _ => by rw [ht.slots]
  matched := h.matched

/-- A line waits for no other way than before, and leaves no other. -/
theorem matched_same (h : Ledger D t m place) (hw : p.waits? = (place X).waits?)
    (hl : p.leaves? = (place X).leaves?) :
    Matched (fun Y => (update place X p Y).waits?) fun Y => (update place X p Y).leaves? := by
  rw [waits?_update_same hw, leaves?_update_same hl]
  exact h.matched

theorem leaves?_filed (h : e.evicting = false) :
    (Place.filed i e tx : Place γ τ).leaves? = none := by
  rw [Place.leaves?, if_neg (by simp [h])]

/-- A resident line changes its entry, but not whether it is being evicted. -/
theorem modify (h : Ledger D t m place) (hp : place X = .filed i e tx)
    (hw : t.Writes t' i (.filled X e')) (hev : e'.evicting = e.evicting)
    (hst : e'.evicting = false → D.stable e'.controller = tx.isNone) :
    Ledger D t' m (update place X (.filed i e' tx)) where
  toFiling := by
    refine h.change (hw.shaped h.table) h.registers hw.layout hw.ways
      (h.aligned_of hp nofun) (h.ways_put hw rfl (.inr ⟨_, by rw [hp]; rfl⟩))
      (h.tracked_same (by rw [hp]; rfl)) ?_ fun Y _ j _ => by rw [hw.handle]
    have hfit := (hp ▸ h.fits X : Place.Fits D t X (.filed i e tx)).congr hw.layout hw.ways
      fun j _ => by rw [hw.handle]
    cases tx with
    | none => exact ⟨hfit.1, hst⟩
    | some rv =>
      obtain ⟨h1, h2, -, h4⟩ := hfit
      exact ⟨h1, hev.trans h2, hst (hev.trans h2), h4⟩
  matched := h.matched_same (by rw [hp]; rfl) (by rw [hp, Place.leaves?, Place.leaves?, hev])

/-- A transaction on a resident line is opened. -/
theorem start (h : Ledger D t m place) (hp : place X = .filed i e none)
    (hev : e.evicting = false) (hm : m.Sets m' r (.filled X v)) (hr : m.slots.contentAt r = .free)
    (hw : t.Writes t' i (.filled X e')) (hev' : e'.evicting = false)
    (hst : D.stable e'.controller = false) (hc : D.claim v = .resident (t.slots.handleAt i)) :
    Ledger D t' m' (update place X (.filed i e' (some (r, v)))) where
  toFiling := by
    have hfit := (h.fits X).inSet (i := i) (by rw [hp]; rfl)
    refine h.change (hw.shaped h.table) (hm.shaped h.registers) hw.layout hw.ways
      (h.aligned_of hp nofun) (h.ways_put hw rfl (.inr ⟨_, by rw [hp]; rfl⟩))
      (h.tracked_put hm rfl (.inl ⟨hr, by rw [hp]; rfl⟩)) ?_ fun Y _ j _ => by rw [hw.handle]
    refine ⟨?_, hev', hst, by rw [hw.handle, hc]⟩
    unfold LineTable.InSet SlotTable.setIndices at *
    rwa [hw.layout, hw.ways]
  matched := h.matched_same (by rw [hp]; rfl) (by rw [hp, leaves?_filed hev, leaves?_filed hev'])

/-- The transaction on a resident line is over. -/
theorem close (h : Ledger D t m place) (hp : place X = .filed i e (some (r, v)))
    (hm : m.Sets m' r .free) (hw : t.Writes t' i (.filled X e')) (hev : e'.evicting = false)
    (hst : D.stable e'.controller = true) :
    Ledger D t' m' (update place X (.filed i e' none)) where
  toFiling := by
    have hfit := (hp ▸ h.fits X : Place.Fits D t X (.filed i e (some (r, v)))).congr hw.layout
      hw.ways fun j _ => by rw [hw.handle]
    exact h.change (hw.shaped h.table) (hm.shaped h.registers) hw.layout hw.ways
      (h.aligned_of hp nofun) (h.ways_put hw rfl (.inr ⟨_, by rw [hp]; rfl⟩))
      (h.tracked_clear hm (by rw [hp]; rfl) rfl) ⟨hfit.1, fun _ => hst⟩
      fun Y _ j _ => by rw [hw.handle]
  matched := by
    have hfit : Place.Fits D t X (.filed i e (some (r, v))) := hp ▸ h.fits X
    exact h.matched_same (by rw [hp]; rfl) (by rw [hp, leaves?_filed hfit.2.1, leaves?_filed hev])

/-! ## Lines that come -/

/-- A free way is reserved for a line. -/
theorem reserve (h : Ledger D t m place) (hp : place X = .absent) (hX : t.lineAddr X = X)
    (hi : t.InSet i X) (hf : t.slots.contentAt i = .free) (hw : t.Writes t' i (.reserved X))
    (hm : m.Sets m' r (.filled X v)) (hr : m.slots.contentAt r = .free)
    (hc : D.claim v = .reserved (t.slots.handleAt i)) :
    Ledger D t' m' (update place X (.reserved i r v)) where
  toFiling := by
    refine h.change (hw.shaped h.table) (hm.shaped h.registers) hw.layout hw.ways hX
      (h.ways_put hw rfl (.inl ⟨hf, by rw [hp]; rfl⟩))
      (h.tracked_put hm rfl (.inl ⟨hr, by rw [hp]; rfl⟩)) ?_ fun Y _ j _ => by rw [hw.handle]
    refine ⟨?_, by rw [hw.handle, hc]⟩
    unfold LineTable.InSet SlotTable.setIndices at *
    rwa [hw.layout, hw.ways]
  matched := h.matched_same (by rw [hp]; rfl) (by rw [hp]; rfl)

/-- The transaction on a line that is being fetched changes. -/
theorem advance (h : Ledger D t m place) (hp : place X = .reserved i r v)
    (hm : m.Sets m' r (.filled X w)) (hc : D.claim w = D.claim v) :
    Ledger D t m' (update place X (.reserved i r w)) where
  toFiling := by
    have hfit : Place.Fits D t X (.reserved i r v) := hp ▸ h.fits X
    exact h.change h.table (hm.shaped h.registers) rfl rfl (h.aligned_of hp nofun)
      (h.ways_same (by rw [hp]; rfl))
      (h.tracked_put hm rfl (.inr ⟨v, by rw [hp]; rfl⟩)) ⟨hfit.1, hc.trans hfit.2⟩
      fun _ _ _ _ => rfl
  matched := h.matched_same (by rw [hp]; rfl) (by rw [hp]; rfl)

/-- The transaction on a line that waits for a way changes. -/
theorem amend (h : Ledger D t m place) (hp : place X = .waiting i r v)
    (hm : m.Sets m' r (.filled X w)) (hc : D.claim w = D.claim v) :
    Ledger D t m' (update place X (.waiting i r w)) where
  toFiling := by
    have hfit : Place.Fits D t X (.waiting i r v) := hp ▸ h.fits X
    exact h.change h.table (hm.shaped h.registers) rfl rfl (h.aligned_of hp nofun)
      (h.ways_same (by rw [hp]; rfl))
      (h.tracked_put hm rfl (.inr ⟨v, by rw [hp]; rfl⟩)) ⟨hfit.1, hc.trans hfit.2⟩
      fun _ _ _ _ => rfl
  matched := h.matched_same (by rw [hp]; rfl) (by rw [hp]; rfl)

/-- A fetched line is filed in the way reserved for it. -/
theorem fill (h : Ledger D t m place) (hp : place X = .reserved i r v)
    (hm : m.Sets m' r .free) (hw : t.Writes t' i (.filled X e)) (hev : e.evicting = false)
    (hst : D.stable e.controller = true) :
    Ledger D t' m' (update place X (.filed i e none)) where
  toFiling := by
    have hfit := (hp ▸ h.fits X : Place.Fits D t X (.reserved i r v)).congr hw.layout hw.ways
      fun j _ => by rw [hw.handle]
    exact h.change (hw.shaped h.table) (hm.shaped h.registers) hw.layout hw.ways
      (h.aligned_of hp nofun) (h.ways_put hw rfl (.inr ⟨_, by rw [hp]; rfl⟩))
      (h.tracked_clear hm (by rw [hp]; rfl) rfl) ⟨hfit.1, fun _ => hst⟩
      fun Y _ j _ => by rw [hw.handle]
  matched := h.matched_same (by rw [hp]; rfl) (by rw [hp, leaves?_filed hev]; rfl)

/-! ## Lines that go -/

/-- A resident line without a transaction is dropped. -/
theorem drop (h : Ledger D t m place) (hp : place X = .filed i e none) (hev : e.evicting = false)
    (ht : t.Retires t' i .free) : Ledger D t' m (update place X .absent) where
  toFiling := by
    refine h.change (ht.shaped h.table) h.registers ht.layout ht.ways (h.aligned_of hp nofun)
      ?_ (h.tracked_same (by rw [hp]; rfl)) trivial fun Y hY j hj => ht.handle j ?_
    · rw [ht.content]
      exact h.ways.clear (c := .filled X e) (by simp only [hp]; rfl) rfl
    · -- only a line that waits for the way would mind, and none waits for one that stays
      rintro rfl
      have hleft := (h.way_of_leaves hp hY hj).2
      simp [hev] at hleft
  matched := h.matched_same (by rw [hp]; rfl) (by rw [hp, leaves?_filed hev]; rfl)

/-- A line is to be fetched into the way of another, which is evicted from now on. -/
theorem evict (h : Ledger D t m place) (hp : place X = .absent) (hX : t.lineAddr X = X)
    (hV : place V = .filed i e none) (hev : e.evicting = false) (hi : t.InSet i X)
    (hm : m.Sets m' r (.filled X v)) (hr : m.slots.contentAt r = .free)
    (hc : D.claim v = .awaits (t.slots.handleAt i)) (hw : t.Writes t' i (.filled V e'))
    (hev' : e'.evicting = true) :
    Ledger D t' m' (update (update place X (.waiting i r v)) V (.filed i e' none)) := by
  have hne : V ≠ X := by
    rintro rfl
    rw [hp] at hV
    cases hV
  -- first the line `X` starts to wait, then `V` is marked as leaving
  have hX' : Filing D t m' (update place X (.waiting i r v)) :=
    h.change h.table (hm.shaped h.registers) rfl rfl hX (h.ways_same (by rw [hp]; rfl))
      (h.tracked_put hm rfl (.inl ⟨hr, by rw [hp]; rfl⟩)) ⟨hi, hc⟩ fun _ _ _ _ => rfl
  have hpV : update place X (.waiting i r v) V = .filed i e none := by rw [update_of_ne hne, hV]
  have hfitV := (hV ▸ h.fits V : Place.Fits D t V (.filed i e none)).congr hw.layout hw.ways
    fun j _ => by rw [hw.handle]
  -- nobody waits for the way yet, since its line was not to leave
  have hidle : ∀ Y, (place Y).waits? ≠ some i := by
    intro Y hY
    by_cases hYV : Y = V
    · rw [hYV, hV] at hY
      cases hY
    · have hway : (place Y).way? = some i := by
        cases hpY : place Y <;> rw [hpY] at hY <;> cases hY
        rfl
      have hleft := (h.way_of_leaves hV hYV hway).2
      simp [hev] at hleft
  refine { toFiling := ?_, matched := ?_ }
  · exact hX'.change (hw.shaped hX'.table) hX'.registers hw.layout hw.ways
      (hX'.aligned_of hpV nofun) (hX'.ways_put hw rfl (.inr ⟨_, by rw [hpV]; rfl⟩))
      (hX'.tracked_same (by rw [hpV]; rfl)) ⟨hfitV.1, by simp [hev']⟩
      fun Y _ j _ => by rw [hw.handle]
  · have hadd := h.matched.add (X := X) (V := V) (i := i) (by simp only [hp]; rfl)
      (by simp only [hV, leaves?_filed hev]) hidle
    rw [waits?_update_same (by rw [hpV]; rfl), waits?_update, leaves?_update,
      leaves?_update_same (by rw [hp]; rfl), Place.leaves?, if_pos hev']
    exact hadd

/-- An evicted line has left, and its way is reserved for the line that waited for it. -/
theorem replace (h : Ledger D t m place) (hV : place V = .filed i e none)
    (hX : place X = .waiting i r v) (ht : t.Retires t' i (.reserved X))
    (hm : m.Sets m' r (.filled X w)) (hc : D.claim w = .reserved (t'.slots.handleAt i)) :
    Ledger D t' m' (update (update place V .absent) X (.reserved i r w)) := by
  have hne : X ≠ V := by
    -- the handle of the way is a new one, and no line but `X` waited for the old one
    rintro rfl
    rw [hX] at hV
    cases hV
  have hpX : update place V .absent X = .waiting i r v := by rw [update_of_ne hne, hX]
  have hin : t'.InSet i X := by
    have hfit : t.InSet i X := (h.fits X).inSet (by rw [hX]; rfl)
    unfold LineTable.InSet SlotTable.setIndices at *
    rwa [ht.layout, ht.ways]
  have hslotV : (place V).slot? V = some (i, .filled V e) := by rw [hV]; rfl
  -- `X` waits for a way, so some line is to leave it, and that can only be `V`
  have hleaveV : (place V).leaves? = some i := by
    obtain ⟨U, hU⟩ := (h.matched.iff i).1 ⟨X, by simp only [hX]; rfl⟩
    rwa [← h.eq_of_leaves hslotV hU]
  refine { toFiling := ?_, matched := ?_ }
  · refine ⟨ht.shaped h.table, hm.shaped h.registers, fun Y hY => ?_, ?_, ?_, fun Y => ?_⟩
    · rw [LineTable.lineAddr, ht.layout]
      by_cases hYX : Y = X
      · rw [hYX]
        exact h.aligned_of hX (by simp)
      · rw [update_of_ne hYX] at hY
        by_cases hYV : Y = V
        · rw [hYV, update_self] at hY
          exact absurd rfl hY
        · rw [update_of_ne hYV] at hY
          exact h.aligned Y hY
    · -- the way goes from `V` to `X`: cleared for the one, put for the other
      have hclear := h.ways.clear (X := V) (c := .filled V e) hslotV rfl
      have hput := hclear.put (X := X) (c := .reserved X) (i := i) rfl (.inl (update_self ..))
        fun j d hd => by
          rw [update_of_ne hne] at hd
          simp only [hX] at hd
          cases hd
      rw [slot?_update, slot?_update, ht.content]
      rwa [Function.update_idem] at hput
    · have hgone : (Place.absent : Place γ τ).entered? V = (place V).entered? V := by rw [hV]; rfl
      rw [entered?_update, entered?_update, hgone, Function.update_eq_self, hm.content]
      refine h.tracked.put rfl (.inr ?_) fun j d hd => ?_
      · rw [h.content_register (X := X) (r := r) (v := v) (by rw [hX]; rfl)]
        rfl
      · simp only [hX] at hd
        cases hd
        rfl
    · by_cases hYX : Y = X
      · rw [hYX, update_self]
        exact ⟨hin, hc⟩
      · rw [update_of_ne hYX]
        by_cases hYV : Y = V
        · rw [hYV, update_self]
          trivial
        · rw [update_of_ne hYV]
          refine (h.fits Y).congr ht.layout ht.ways fun j hj => ht.handle j ?_
          rintro rfl
          have hwait := (h.way_of_leaves hV hYV hj).1
          exact hYX (h.matched.alone Y X j hwait (by simp only [hX]; rfl))
  · have hrem := h.matched.remove (X := X) (V := V) (i := i) (by simp only [hX]; rfl) hleaveV
      fun U hU => h.eq_of_leaves hslotV hU
    rw [waits?_update, waits?_update_same (by rw [hV]; rfl), leaves?_update_same (by rw [hpX]; rfl),
      leaves?_update]
    exact hrem

end Ledger

end CacheCoherence
