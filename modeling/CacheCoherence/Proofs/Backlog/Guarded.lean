import CacheCoherence.Proofs.Backlog.Blocked
import CacheCoherence.Proofs.Table.LedgerSteps

/-!
# Guarded requests — no wakeup is lost

A backlog is guarded if every parked request still has something in its way. Parking a
request for what is in its way keeps it so, and so does every wakeup that tells what is no
longer in the way. In a guarded backlog nothing is parked once nothing is in the way. What is
in the way at a node is read off the places of its lines.
-/

namespace CacheCoherence

open Function (update update_self update_of_ne)

namespace Backlog

variable {α : Type}

/-- Every parked request has something in its way, unless it is its turn after the request
for the line `K` at hand. -/
structure Guarded (lineOf : α → Addr) (B : Blockers) (K : Option Addr) (b : Backlog α) :
    Prop where
  ordered : b.parked.Ordered
  addressed : ∀ x, x ∈ b.parked.toList ∨ x ∈ b.retries → x.line = lineOf x.item
  blocked : ∀ x ∈ b.parked.toList, b.Blocks B K x

variable {lineOf : α → Addr} {B B' : Blockers} {K K' : Option Addr} {b : Backlog α}
  {e x : Parked α} {X V : Addr} {event : WakeEvent}

namespace Guarded

/-- What is in the way only becomes more. -/
theorem mono (h : Guarded lineOf B K b) (hle : B.Le B') : Guarded lineOf B' K b :=
  ⟨h.ordered, h.addressed, fun x hx =>
    (h.blocked x hx).imp hle.full (hle.tracked _) (hle.leaving _) id⟩

/-- The request at hand has been taken up, or is called for. -/
theorem settle (h : Guarded lineOf B (some X) b) (hX : B.tracked X ∨ b.Calls X) :
    Guarded lineOf B none b := by
  refine ⟨h.ordered, h.addressed, fun x hx => ?_⟩
  have hb := h.blocked x hx
  unfold Blocks at hb ⊢
  split at hb
  · exact hb
  · -- only a request that waits for its turn may have counted on the one at hand
    obtain ⟨hw, ht | hK | hc⟩ := hb
    · exact ⟨hw, .inl ht⟩
    · cases hK
      exact ⟨hw, hX.imp_right .inr⟩
    · exact ⟨hw, .inr (.inr hc)⟩
  · exact hb
  · exact hb

/-- The request at hand, if there is one, has been taken up. -/
theorem taken (h : Guarded lineOf B K b) (hK : K = none ∨ K = some X) (hle : B.Le B')
    (hX : B'.tracked X) : Guarded lineOf B' none b := by
  rcases hK with rfl | rfl
  · exact h.mono hle
  · exact (h.mono hle).settle (.inl hX)

/-- After a wakeup what stays parked is what it did not release. -/
theorem wake (h : Guarded lineOf B K b) (event : WakeEvent)
    (hb : ∀ x ∈ b.parked.toList, event.releases x = false → b.Blocks B K x →
      (b.wake event).Blocks B' K' x) : Guarded lineOf B' K' (b.wake event) where
  ordered := h.ordered.wake event
  addressed x hx := by
    refine h.addressed x ?_
    rcases hx with hx | hx
    · exact .inl (ParkingBuffer.mem_toList_wake.2 (.inr hx))
    · exact (List.mem_append.1 hx).elim .inr
        fun hx => .inl (ParkingBuffer.mem_toList_wake.2 (.inl hx))
  blocked x hx := by
    have hmem := ParkingBuffer.mem_toList_wake.2 (.inr hx)
    exact hb x hmem (h.ordered.not_releases hx) (h.blocked x hmem)

/-- The transaction on `X` is over. -/
theorem transactionDone (h : Guarded lineOf B K b) (hfull : B.full → B'.full)
    (htracked : ∀ Y, Y ≠ X → B.tracked Y → B'.tracked Y)
    (hleaving : ∀ Y, B.leaving Y → B'.leaving Y) (hK : ∀ Y, Y ≠ X → K = some Y → K' = some Y) :
    Guarded lineOf B' K' (b.wake (.transactionDone X)) := by
  refine h.wake _ fun x hx hrel hb => ?_
  unfold Blocks at hb ⊢
  split at hb
  · exact hfull hb
  · -- whoever waits for its turn on `X` is woken, so this one waits on another line
    next hr =>
    obtain ⟨hw, hb⟩ := hb
    have hne : x.line ≠ X := by
      rintro rfl
      simp [WakeEvent.releases, hr, hw] at hrel
    exact ⟨hw, hb.imp (htracked _ hne) fun hb => hb.imp (hK _ hne) fun hc => hc.wake _⟩
  · -- the same for who waits for a victim
    next hr =>
    have hne : x.watch ≠ X := by
      rintro rfl
      simp [WakeEvent.releases, hr] at hrel
    exact hb.imp (htracked _ hne) (hleaving _)
  · exact ⟨hb.1, hleaving _ hb.2⟩

/-- The request at hand, if there is one, has been served. -/
theorem served (h : Guarded lineOf B K b) (hK : K = none ∨ K = some X) (hle : B.Le B') :
    Guarded lineOf B' none (b.wake (.transactionDone X)) := by
  refine h.transactionDone hle.full (fun Y _ => hle.tracked Y) hle.leaving fun Y hY hKY => ?_
  rcases hK with rfl | rfl
  · exact hKY
  · cases hKY
    exact absurd rfl hY

/-- A register has been released. -/
theorem registerReleased (h : Guarded lineOf B K b)
    (htracked : ∀ Y, B.tracked Y → B'.tracked Y) (hleaving : ∀ Y, B.leaving Y → B'.leaving Y) :
    Guarded lineOf B' K (b.wake .registerReleased) := by
  refine h.wake _ fun x hx hrel hb => ?_
  unfold Blocks at hb ⊢
  split at hb
  · -- all that wait for a register are woken
    next hr => simp [WakeEvent.releases, hr] at hrel
  · exact ⟨hb.1, hb.2.imp (htracked _) fun hb => hb.imp_right fun hc => hc.wake _⟩
  · exact hb.imp (htracked _) (hleaving _)
  · exact ⟨hb.1, hleaving _ hb.2⟩

/-- The transaction on `X` is over, and its register is free again. -/
theorem conclude (h : Guarded lineOf B none b) (htracked : ∀ Y, Y ≠ X → B.tracked Y → B'.tracked Y)
    (hleaving : ∀ Y, B.leaving Y → B'.leaving Y) :
    Guarded lineOf B' none ((b.wake .registerReleased).wake (.transactionDone X)) :=
  have hwoken : Guarded lineOf { B with full := B'.full } none (b.wake .registerReleased) :=
    h.registerReleased (fun _ => id) fun _ => id
  hwoken.transactionDone id htracked hleaving nofun

/-- The line `V` is gone. -/
theorem evictionDone (h : Guarded lineOf B K b) (hfull : B.full → B'.full)
    (htracked : ∀ Y, B.tracked Y → B'.tracked Y)
    (hleaving : ∀ Y, Y ≠ V → B.leaving Y → B'.leaving Y) :
    Guarded lineOf B' K (b.wake (.evictionDone V)) := by
  refine h.wake _ fun x hx hrel hb => ?_
  unfold Blocks at hb ⊢
  split at hb
  · exact hfull hb
  · exact ⟨hb.1, hb.2.imp (htracked _) fun hb => hb.imp_right fun hc => hc.wake _⟩
  · next hr =>
    have hne : x.watch ≠ V := by
      rintro rfl
      simp [WakeEvent.releases, hr] at hrel
    exact hb.imp (htracked _) (hleaving _ hne)
  · next hr =>
    have hne : x.watch ≠ V := by
      rintro rfl
      simp [WakeEvent.releases, hr] at hrel
    exact ⟨hb.1, hleaving _ hne hb.2⟩

/-- A request that something is in the way of is parked. -/
theorem park (h : Guarded lineOf B K b) (haddr : e.line = lineOf e.item)
    (he : (b.park e).Blocks B K e) : Guarded lineOf B K (b.park e) where
  ordered := h.ordered.park e
  addressed x hx := by
    rcases hx with hx | hx
    · rcases ParkingBuffer.mem_toList_park.1 hx with rfl | hx
      · exact haddr
      · exact h.addressed x (.inl hx)
    · exact h.addressed x (.inr hx)
  blocked x hx := by
    rcases ParkingBuffer.mem_toList_park.1 hx with rfl | hx
    · exact he
    · exact (h.blocked x hx).imp id id id fun hturn => hturn.imp_right fun hc => hc.park e

/-- The request at hand is parked for what is in its way. -/
theorem parkAtHand (h : Guarded lineOf B K b) (hK : K = none ∨ K = some e.line)
    (haddr : e.line = lineOf e.item) (he : b.Blocks B none e) :
    Guarded lineOf B none (b.park e) := by
  have hnow : (b.park e).Blocks B none e :=
    he.imp id id id fun hturn => hturn.imp_right fun hc => hc.park e
  have hparked : Guarded lineOf B K (b.park e) :=
    h.park haddr (hnow.imp id id id fun hturn => .inr (hturn.resolve_left nofun))
  -- others may have counted on the request at hand: they count on what it waits for, or on it
  rcases hK with rfl | rfl
  · exact hparked
  · refine hparked.settle ?_
    by_cases hr : e.reason = .linePending
    · unfold Blocks at hnow
      rw [hr] at hnow
      exact hnow.2.imp_right fun hturn => hturn.resolve_left nofun
    · exact .inr (.inl ⟨e, ParkingBuffer.mem_toList_park.2 (.inl rfl), rfl, hr⟩)

/-- The first request to be tried again is at hand. -/
theorem pop (h : Guarded lineOf B none b) {rest : List (Parked α)} (hq : b.retries = e :: rest) :
    Guarded lineOf B (some e.line) { b with retries := rest } where
  ordered := h.ordered
  addressed x hx := h.addressed x (hx.imp_right fun hx => by
    rw [hq]
    exact List.mem_cons_of_mem e hx)
  blocked x hx := (h.blocked x hx).imp id id id fun hturn => by
    -- who counted on the one that is tried now counts on the request at hand
    rcases hturn.resolve_left nofun with ⟨y, hy, hline⟩ | ⟨y, hy, hline⟩
    · exact .inr (.inl ⟨y, hy, hline⟩)
    · rw [hq] at hy
      rcases List.mem_cons.1 hy with rfl | hy
      · exact .inl (by rw [hline])
      · exact .inr (.inr ⟨y, hy, hline⟩)

/-- Behind a parked request for `X` there is a transaction on the line, or another request
for it that does not wait for its turn. -/
theorem turn (h : Guarded lineOf B none b) (hX : b.parked.addresses X = true) :
    B.tracked X ∨ b.Calls X := by
  obtain ⟨x, hx, rfl⟩ := (b.parked.addresses_iff X).1 hX
  by_cases hr : x.reason = .linePending
  · have hb := h.blocked x hx
    unfold Blocks at hb
    rw [hr] at hb
    exact hb.2.imp_right fun hb => hb.resolve_left nofun
  · exact .inr (.inl ⟨x, hx, rfl, hr⟩)

/-- Where nothing is in the way of anything, nothing is parked. -/
theorem eq_nil (h : Guarded lineOf B none b) (hr : b.retries = []) (hfull : ¬B.full)
    (htracked : ∀ Y, ¬B.tracked Y) (hleaving : ∀ Y, ¬B.leaving Y) : b.parked.toList = [] := by
  -- nothing but requests that wait for their turn
  have hturn : ∀ x ∈ b.parked.toList, x.reason = .linePending := by
    intro x hx
    have hb := h.blocked x hx
    unfold Blocks at hb
    split at hb
    · exact absurd hb hfull
    · assumption
    · exact absurd hb (not_or.2 ⟨htracked _, hleaving _⟩)
    · exact absurd hb.2 (hleaving _)
  refine List.eq_nil_iff_forall_not_mem.2 fun x hx => ?_
  have hb := h.blocked x hx
  unfold Blocks at hb
  rw [hturn x hx] at hb
  rcases hb.2 with ht | hK | ⟨y, hy, -, hyr⟩ | ⟨y, hy, -⟩
  · exact htracked _ ht
  · cases hK
  · exact hyr (hturn y hy)
  · rw [hr] at hy
    cases hy

/-- An empty backlog. -/
theorem empty (lineOf : α → Addr) (B : Blockers) : Guarded lineOf B none ({} : Backlog α) where
  ordered := ⟨nofun, .nil, nofun⟩
  addressed x hx := by rcases hx with hx | hx <;> cases hx
  blocked x hx := by cases hx

end Guarded

end Backlog

/-! ## What is in the way at a node -/

namespace Blockers

variable {γ τ : Type} {D : Discipline γ τ} {t : LineTable γ} {m m' : Mshr τ}
  {place : Addr → Place γ τ} {p : Place γ τ} {X Y : Addr} {i : Nat} {e : LineEntry γ}
  {tx : Option (Nat × τ)}

/-- What requests may have to wait for where the lines stand at `place`. -/
def ofPlaces (m : Mshr τ) (place : Addr → Place γ τ) : Blockers where
  full := m.free? = none
  tracked X := (place X).register? ≠ none
  leaving X := (place X).leaves? ≠ none

theorem leaving_of_filed (hp : place X = .filed i e tx) (hev : e.evicting = true) :
    (ofPlaces m place).leaving X := by
  show (place X).leaves? ≠ none
  rw [hp, Place.leaves?, if_pos hev]
  exact Option.some_ne_none i

/-- A way that is reserved for a line is so for a transaction on it. -/
theorem tracked_of_reserved (h : Filing D t m place) (hc : t.slots.contentAt i = .reserved X) :
    (ofPlaces m place).tracked X := by
  obtain ⟨r, v, hp⟩ := h.reserved_of_content hc
  show (place X).register? ≠ none
  rw [hp]
  exact nofun

/-- A line that cannot be replaced right now is being evicted or has a transaction. -/
theorem busy_of_filled (h : Filing D t m place) (hc : t.slots.contentAt i = .filled X e)
    (hbusy : ¬(!e.evicting && D.stable e.controller) = true) :
    (ofPlaces m place).tracked X ∨ (ofPlaces m place).leaving X := by
  obtain ⟨tx, hp⟩ := h.filed_of_content hc
  by_cases hev : e.evicting = true
  · exact .inr (leaving_of_filed hp hev)
  · left
    have hev : e.evicting = false := by simpa using hev
    show (place X).register? ≠ none
    rw [hp]
    rintro rfl
    have hfit : Place.Fits D t X (.filed i e none) := hp ▸ h.fits X
    simp [hev, hfit.2 hev] at hbusy

/-- Other lines are in the way as before when a line changes its place. -/
theorem ofPlaces_tracked (hY : Y ≠ X) (h : (ofPlaces m place).tracked Y) :
    (ofPlaces m' (update place X p)).tracked Y := by
  show (update place X p Y).register? ≠ none
  rw [update_of_ne hY]
  exact h

theorem ofPlaces_leaving (hl : (place X).leaves? ≠ none → p.leaves? ≠ none)
    (h : (ofPlaces m place).leaving Y) : (ofPlaces m' (update place X p)).leaving Y := by
  show (update place X p Y).leaves? ≠ none
  by_cases hY : Y = X
  · rw [hY, update_self]
    rw [hY] at h
    exact hl h
  · rw [update_of_ne hY]
    exact h

/-- A line that goes on to its next place stays in the way. -/
theorem ofPlaces_le (hfull : m.free? = none → m'.free? = none)
    (hr : (place X).register? ≠ none → p.register? ≠ none)
    (hl : (place X).leaves? ≠ none → p.leaves? ≠ none) :
    (ofPlaces m place).Le (ofPlaces m' (update place X p)) where
  full := hfull
  tracked Y h := by
    by_cases hY : Y = X
    · show (update place X p Y).register? ≠ none
      rw [hY, update_self]
      rw [hY] at h
      exact hr h
    · exact ofPlaces_tracked hY h
  leaving Y h := ofPlaces_leaving hl h

/-- A resident line that changes its entry stays in the way. -/
theorem ofPlaces_le_filed {f : LineEntry γ} (hp : place X = .filed i e tx)
    (hev : e.evicting = true → f.evicting = true) :
    (ofPlaces m place).Le (ofPlaces m (update place X (.filed i f tx))) := by
  refine ofPlaces_le (fun hfull => hfull) (fun hr => ?_) fun hl => ?_
  · rw [hp] at hr
    exact hr
  · rw [hp, Place.leaves?] at hl
    rw [Place.leaves?]
    by_cases h : e.evicting = true
    · rw [if_pos (hev h)]
      exact Option.some_ne_none i
    · rw [if_neg h] at hl
      exact absurd rfl hl

end Blockers

namespace Backlog.Guarded

open Blockers

variable {α γ τ : Type} {lineOf : α → Addr} {K : Option Addr} {b : Backlog α} {m m' : Mshr τ}
  {place : Addr → Place γ τ} {p : Place γ τ} {X V : Addr} {i r : Nat} {v w : τ} {e : LineEntry γ}

/-- A register is taken for the line of the request at hand. -/
theorem enter (h : Guarded lineOf (ofPlaces m place) K b) (hK : K = none ∨ K = some X)
    (hm : m.Sets m' r (.filled X v)) (hs : m.Shaped) (hl : (place X).leaves? = none)
    (hp : p.register? = some (r, v)) :
    Guarded lineOf (ofPlaces m' (update place X p)) none b := by
  refine h.taken hK (ofPlaces_le (hm.full nofun hs) (fun _ => ?_) fun hne => absurd hl hne) ?_
  · rw [hp]
    exact nofun
  · show (update place X p X).register? ≠ none
    rw [update_self, hp]
    exact nofun

/-- The transaction on a line goes on in its register. -/
theorem advance (h : Guarded lineOf (ofPlaces m place) K b) (hm : m.Sets m' r (.filled X w))
    (hs : m.Shaped) (hl : (place X).leaves? = none) (hp : p.register? = some (r, w)) :
    Guarded lineOf (ofPlaces m' (update place X p)) K b := by
  refine h.mono (ofPlaces_le (hm.full nofun hs) (fun _ => ?_) fun hne => absurd hl hne)
  rw [hp]
  exact nofun

/-- The transaction on a line is over. -/
theorem leave (m' : Mshr τ) (h : Guarded lineOf (ofPlaces m place) none b)
    (hl : (place X).leaves? = none) :
    Guarded lineOf (ofPlaces m' (update place X p)) none
      ((b.wake .registerReleased).wake (.transactionDone X)) :=
  h.conclude (fun _ hY => ofPlaces_tracked hY) fun _ => ofPlaces_leaving fun hne => absurd hl hne

/-- A line that nobody waits for the way of is dropped. -/
theorem drop (h : Guarded lineOf (ofPlaces m place) none b) (hp : place X = .filed i e none)
    (hev : e.evicting = false) :
    Guarded lineOf (ofPlaces m (update place X .absent)) none (b.wake (.transactionDone X)) := by
  refine h.served (.inl rfl) (ofPlaces_le (fun hfull => hfull) (fun hr => ?_) fun hl => ?_)
  · rw [hp] at hr
    exact hr
  · rw [hp, Ledger.leaves?_filed hev] at hl
    exact hl

/-- The line `X` is to be fetched into the way of `V`, which is evicted from now on. -/
theorem evict (h : Guarded lineOf (ofPlaces m place) K b) (hK : K = none ∨ K = some X)
    (hm : m.Sets m' r (.filled X v)) (hs : m.Shaped) (hX : place X = .absent)
    (hV : place V = .filed i e none) (hev : e.evicting = false) (f : LineEntry γ) :
    Guarded lineOf (ofPlaces m' (update (update place X (.waiting i r v)) V (.filed i f none)))
      none b := by
  have hne : V ≠ X := by
    rintro rfl
    rw [hX] at hV
    cases hV
  have hpV : update place X (.waiting i r v) V = .filed i e none := by rw [update_of_ne hne, hV]
  -- first `X` takes its register, then `V` is marked
  have htaken : Guarded lineOf (ofPlaces m' (update place X (.waiting i r v))) none b :=
    h.enter hK hm hs (by rw [hX]; rfl) rfl
  exact htaken.mono (ofPlaces_le_filed hpV fun hev' => by simp [hev] at hev')

/-- The evicted line `V` is gone, and `X` goes on in its register. -/
theorem replace (h : Guarded lineOf (ofPlaces m place) none b) (hV : place V = .filed i e none)
    (hX : place X = .waiting i r v) (hm : m.Sets m' r (.filled X w)) (hs : m.Shaped) :
    Guarded lineOf (ofPlaces m' (update (update place V .absent) X (.reserved i r w))) none
      (b.wake (.evictionDone V)) := by
  have hne : X ≠ V := by
    rintro rfl
    rw [hX] at hV
    cases hV
  -- first `V` goes, which wakes whoever waited for that, then `X` moves on
  have hgone : Guarded lineOf (ofPlaces m (update place V .absent)) none
      (b.wake (.evictionDone V)) := by
    refine h.evictionDone (fun hfull => hfull) (fun Y hY => ?_) fun Y hYV hY => ?_
    · refine ofPlaces_tracked ?_ hY
      rintro rfl
      exact hY (by rw [hV]; rfl)
    · show (update place V .absent Y).leaves? ≠ none
      rw [update_of_ne hYV]
      exact hY
  exact hgone.advance hm hs (by rw [update_of_ne hne, hX]; rfl) rfl

/-- Where no line has a transaction and none is to leave, nothing waits. -/
theorem idle {D : Discipline γ τ} {t : LineTable γ} (h : Guarded lineOf (ofPlaces m place) none b)
    (hl : Filing D t m place) (hr : b.retries = []) (hreg : ∀ X, (place X).register? = none)
    (hleave : ∀ X, (place X).leaves? = none) : m.occupancy = 0 ∧ b.isEmpty = true := by
  have hfree := hl.register_free hreg
  refine ⟨SlotTable.occupied_eq_zero hfree, ?_⟩
  have hparked := h.eq_nil hr (hl.registers.free?_isSome (hfree 0) hl.registers.room)
    (fun Y hY => hY (hreg Y)) fun Y hY => hY (hleave Y)
  rw [isEmpty, ParkingBuffer.isEmpty, ParkingBuffer.size_eq_length_toList, hparked, hr]
  rfl

end Backlog.Guarded

end CacheCoherence
