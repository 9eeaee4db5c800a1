import CacheCoherence.Proofs.Driven.Runs

/-!
# Wakeups — no parked request is forgotten

In a guarded backlog something is in the way of every parked request, as the places of the
lines tell it. Table and registers hold what the places say. So they show what every request
waits for: none that was parked has been overlooked by a wakeup.
-/

namespace CacheCoherence

variable {α γ τ : Type}

/-- Whether the line of an address is resident and being evicted. -/
def LineTable.evicts (t : LineTable γ) (a : Addr) : Bool :=
  (t.resident? a).any fun (_, e) => e.evicting

/-- No request is left to be tried again, and whatever a parked request was parked for is still
in its way. -/
structure Backlog.Unforgotten (lineOf : α → Addr) (t : LineTable γ) (m : Mshr τ) (b : Backlog α) :
    Prop where
  tried : b.retries = []
  addressed : ∀ x ∈ b.parked.toList, x.line = lineOf x.item
  full : ∀ x ∈ b.parked.toList, x.reason = .noRegister → m.isFull = true
  pending : ∀ x ∈ b.parked.toList, x.reason = .linePending →
    m.tracks x.line = true ∨ ∃ y ∈ b.parked.toList, y.line = x.line ∧ y.reason ≠ .linePending
  busy : ∀ x ∈ b.parked.toList, x.reason = .victimBusy →
    t.evicts x.watch = true ∨ m.tracks x.watch = true
  evicting : ∀ x ∈ b.parked.toList, x.reason = .lineEvicting → t.evicts x.line = true

/-! ## What table and registers show -/

namespace Filing

variable {D : Discipline γ τ} {t : LineTable γ} {m : Mshr τ} {place : Addr → Place γ τ} {X : Addr}

/-- A line that is to leave is found in the table. -/
theorem evicts_of_leaves (h : Filing D t m place) (hX : (place X).leaves? ≠ none) :
    t.evicts X = true := by
  obtain ⟨i, hi⟩ := Option.ne_none_iff_exists'.1 hX
  obtain ⟨e, tx, hp, hev⟩ := Place.filed_of_leaves hi
  have hres := h.resident?_eq X
  rw [h.aligned X (by simp [hp]), hp] at hres
  simp [LineTable.evicts, hres, Place.resident?, hev]

/-- A line that has a transaction is found in the registers. -/
theorem tracks_of_register (h : Filing D t m place) (hX : (place X).register? ≠ none) :
    m.tracks X = true := by
  rw [h.tracks_eq X]
  exact Option.isSome_iff_ne_none.2 hX

end Filing

/-- Of a guarded backlog with nothing left to be tried again nothing is forgotten. -/
theorem Backlog.Guarded.unforgotten {D : Discipline γ τ} {t : LineTable γ} {m : Mshr τ}
    {place : Addr → Place γ τ} {lineOf : α → Addr} {b : Backlog α}
    (h : Guarded lineOf (.ofPlaces m place) none b) (hl : Filing D t m place)
    (hr : b.retries = []) : b.Unforgotten lineOf t m where
  tried := hr
  addressed x hx := h.addressed x (.inl hx)
  full x hx hreason := by
    have hb := h.blocked x hx
    simp only [Blocks, hreason] at hb
    have hnone : m.free? = none := hb
    simp [Mshr.isFull, hnone]
  pending x hx hreason := by
    have hb := h.blocked x hx
    simp only [Blocks, hreason] at hb
    rcases hb.2 with htracked | hturn | ⟨y, hy, hline, hy'⟩ | ⟨y, hy, -⟩
    · exact .inl (hl.tracks_of_register htracked)
    · cases hturn
    · exact .inr ⟨y, hy, hline, hy'⟩
    · -- it cannot count on a request that is to be tried again
      rw [hr] at hy
      cases hy
  busy x hx hreason := by
    have hb := h.blocked x hx
    simp only [Blocks, hreason] at hb
    rcases hb with htracked | hleaves
    · exact .inr (hl.tracks_of_register htracked)
    · exact .inl (hl.evicts_of_leaves hleaves)
  evicting x hx hreason := by
    have hb := h.blocked x hx
    simp only [Blocks, hreason] at hb
    rw [← hb.1]
    exact hl.evicts_of_leaves hb.2

/-! ## Caches and banks -/

theorem SharedBank.Driven.retries {c : SharedBank} (h : c.Driven) : c.backlog.retries = [] := by
  induction h with
  | create hc => exact retries_create? hc
  | receive _ p ih => exact ih
  | tick _ hf ih => exact retries_tick ih hf

/-- However a cache or a bank is driven, no request that it has parked is forgotten. -/
theorem unforgotten_of_driven :
    (∀ c : PrivateCache, c.Driven →
      c.backlog.Unforgotten (fun q => c.table.lineAddr q.addr) c.table c.mshr) ∧
    (∀ c : SharedBank, c.Driven →
      c.backlog.Unforgotten (fun msg => c.table.lineAddr msg.addr) c.table c.mshr) := by
  constructor
  · intro c hc
    obtain ⟨P, place, hf, hrests⟩ := hc.settled
    obtain ⟨asked, answered, hs⟩ := hc.served
    simp only [hf.lineOf]
    exact hrests.guarded.unforgotten hrests.toFiling hs.accounts.tried
  · intro c hc
    obtain ⟨P, place, hf, hrests⟩ := hc.settled
    simp only [hf.lineOf]
    exact hrests.guarded.unforgotten hrests.toFiling hc.retries

/-- In a cache and in a bank with requests parked for every reason none is forgotten. -/
theorem unforgotten_of_parked : ∃ c b, PrivateCache.Driven c ∧ SharedBank.Driven b ∧
    c.backlog.parked.toList.map Parked.reason
      = [.noRegister, .lineEvicting, .victimBusy, .linePending] ∧
    b.backlog.parked.toList.map Parked.reason
      = [.noRegister, .lineEvicting, .victimBusy, .linePending] ∧
    c.backlog.Unforgotten (fun q => c.table.lineAddr q.addr) c.table c.mshr ∧
    b.backlog.Unforgotten (fun msg => b.table.lineAddr msg.addr) b.table b.mshr := by
  let node : NodeId := { index := 0 }
  let near : NodeId := { index := 1 }
  let far : NodeId := { index := 2 }
  let get (a : Addr) : Packet := .about a .getE far node
  -- line 0 is filed first; then line 64 takes its way, and line 32 the other register
  obtain ⟨c, hc, hcache⟩ := PrivateCache.exists_driven
    (fun c => c.backlog.parked.toList.map Parked.reason)
    (show (PrivateCache.create? node .narrow {} (.single near)).toOption.bind (fun c =>
        (c.after? [[.write 0], [.packet (.about 0 .grantE near node)],
          [.write 64, .write 0, .write 128, .write 64, .write 32, .write 96]]).map fun d =>
            d.1.backlog.parked.toList.map Parked.reason)
      = some [.noRegister, .lineEvicting, .victimBusy, .linePending] by cbv)
  obtain ⟨b, hb, hbank⟩ := SharedBank.exists_driven
    (fun b => b.backlog.parked.toList.map Parked.reason)
    (show (SharedBank.create? node .narrow {} (.single far)).toOption.bind (fun b =>
        (b.after? [[.about 0 .getE near node], [.supplied 0 far node],
          [.about 0 .unblockE near node],
          [get 64, get 0, get 128, .about 64 .getE near node, get 32, get 96]]).map fun d =>
            d.backlog.parked.toList.map Parked.reason)
      = some [.noRegister, .lineEvicting, .victimBusy, .linePending] by cbv)
  exact ⟨c, b, hc, hb, hcache, hbank, unforgotten_of_driven.1 c hc, unforgotten_of_driven.2 b hb⟩

end CacheCoherence
