import CacheCoherence.Proofs.Backlog.Held

/-!
# Blocked requests — what every parked request waits for

A request is parked because something is in its way, and it is woken when that is over. So
whatever is parked still has something in its way: no wakeup is lost. A request that only
waits for its turn on a line is the one case in which this is another request, and that one
is either woken already or parked for a reason of its own.
-/

namespace CacheCoherence

variable {α : Type}

/-- What requests may have to wait for. -/
structure Blockers where
  /-- No miss register is free. -/
  full : Prop
  /-- A transaction on the line is outstanding. -/
  tracked : Addr → Prop
  /-- The line is being evicted. -/
  leaving : Addr → Prop

/-- Whatever is in the way in `B` is still so in `B'`. -/
structure Blockers.Le (B B' : Blockers) : Prop where
  full : B.full → B'.full
  tracked : ∀ X, B.tracked X → B'.tracked X
  leaving : ∀ X, B.leaving X → B'.leaving X

theorem Blockers.Le.refl (B : Blockers) : B.Le B := ⟨id, fun _ => id, fun _ => id⟩

/-! ## Queues in order -/

namespace WatchQueues

theorem mem_entries {q : WatchQueues α} {x : Parked α} :
    x ∈ q.entries ↔ ∃ p ∈ q, x ∈ p.2 := by
  simp [entries, List.mem_flatMap]

/-- The queues stand in ascending order of lines, and what stands in one watches its line
and waits for no register. -/
structure Ordered (q : WatchQueues α) : Prop where
  ascending : q.Pairwise fun a b => a.1 < b.1
  watching : ∀ p ∈ q, ∀ x ∈ p.2, x.watch = p.1 ∧ x.reason ≠ .noRegister

theorem Ordered.tail {p : Addr × List (Parked α)} {q : WatchQueues α} (h : Ordered (p :: q)) :
    Ordered q :=
  ⟨(List.pairwise_cons.1 h.ascending).2, fun x hx => h.watching x (List.mem_cons_of_mem p hx)⟩

theorem Ordered.head_lt {p : Addr × List (Parked α)} {q : WatchQueues α} (h : Ordered (p :: q)) :
    ∀ r ∈ q, p.1 < r.1 :=
  (List.pairwise_cons.1 h.ascending).1

theorem Ordered.head_watch {p : Addr × List (Parked α)} {q : WatchQueues α}
    (h : Ordered (p :: q)) : ∀ x ∈ p.2, x.watch = p.1 := fun x hx =>
  (h.watching p List.mem_cons_self x hx).1

theorem Ordered.cons {p : Addr × List (Parked α)} {q : WatchQueues α} (h : Ordered q)
    (hlt : ∀ r ∈ q, p.1 < r.1) (hp : ∀ x ∈ p.2, x.watch = p.1 ∧ x.reason ≠ .noRegister) :
    Ordered (p :: q) :=
  ⟨List.pairwise_cons.2 ⟨hlt, h.ascending⟩, List.forall_mem_cons.2 ⟨hp, h.watching⟩⟩

/-- Queueing a request gives a queue to no line but the one it watches. -/
theorem line_of_mem_enqueue {e : Parked α} {q : WatchQueues α} {p : Addr × List (Parked α)}
    (h : p ∈ enqueue e q) : p.1 = e.watch ∨ ∃ r ∈ q, r.1 = p.1 := by
  induction q with
  | nil => exact .inl (by rw [List.mem_singleton.1 h])
  | cons head rest ih =>
    obtain ⟨w, q⟩ := head
    unfold enqueue at h
    split at h
    · rcases List.mem_cons.1 h with rfl | h
      · exact .inl rfl
      · exact .inr ⟨p, h, rfl⟩
    · split at h
      · rcases List.mem_cons.1 h with rfl | h
        · exact .inr ⟨(w, q), List.mem_cons_self, rfl⟩
        · exact .inr ⟨p, List.mem_cons_of_mem _ h, rfl⟩
      · rcases List.mem_cons.1 h with rfl | h
        · exact .inr ⟨(w, q), List.mem_cons_self, rfl⟩
        · obtain hw | ⟨r, hr, heq⟩ := ih h
          · exact .inl hw
          · exact .inr ⟨r, List.mem_cons_of_mem _ hr, heq⟩

theorem Ordered.enqueue {e : Parked α} {q : WatchQueues α} (h : Ordered q)
    (he : e.reason ≠ .noRegister) : Ordered (enqueue e q) := by
  induction q with
  | nil => exact .cons h nofun fun x hx => by rw [List.mem_singleton.1 hx]; exact ⟨rfl, he⟩
  | cons head rest ih =>
    obtain ⟨w, q⟩ := head
    have hlt : ∀ r ∈ rest, w < r.1 := h.head_lt
    have hq := h.watching (w, q) List.mem_cons_self
    unfold WatchQueues.enqueue
    split
    · -- the line comes before all that have a queue, so it gets one of its own
      next hw =>
      refine h.cons (fun r hr => ?_) fun x hx => by rw [List.mem_singleton.1 hx]; exact ⟨rfl, he⟩
      rcases List.mem_cons.1 hr with rfl | hr
      · exact hw
      · exact UInt64.lt_trans hw (hlt r hr)
    · next hw =>
      split
      · next heq =>
        refine h.tail.cons hlt fun x hx => ?_
        rcases List.mem_append.1 hx with hx | hx
        · exact hq x hx
        · rw [List.mem_singleton.1 hx]
          exact ⟨heq, he⟩
      · next hne =>
        -- further on: the queue may go to another line, which is the one it watches or had one
        refine (ih h.tail).cons (fun r hr => ?_) hq
        rcases line_of_mem_enqueue hr with hr | ⟨s, hs, hr⟩
        · show w < r.1
          rw [hr]
          exact (UInt64.lt_or_eq_of_le (UInt64.not_lt.1 hw)).resolve_right (Ne.symm hne)
        · rw [← hr]
          exact hlt s hs

/-- Releasing gives no line a queue. -/
theorem line_of_mem_release {line : Addr} {wakes : Parked α → Bool} {q : WatchQueues α}
    {p : Addr × List (Parked α)} (h : p ∈ (release line wakes q).2) : ∃ r ∈ q, r.1 = p.1 := by
  induction q with
  | nil => cases h
  | cons head rest ih =>
    obtain ⟨w, q⟩ := head
    have hrest : ∀ r ∈ rest, ∃ s ∈ (w, q) :: rest, s.1 = r.1 := fun r hr =>
      ⟨r, List.mem_cons_of_mem _ hr, rfl⟩
    unfold release at h
    split at h
    · dsimp only at h
      split at h
      · exact hrest p h
      · rcases List.mem_cons.1 h with rfl | h
        · exact ⟨(w, q), List.mem_cons_self, rfl⟩
        · exact hrest p h
    · rcases List.mem_cons.1 h with rfl | h
      · exact ⟨(w, q), List.mem_cons_self, rfl⟩
      · obtain ⟨r, hr, heq⟩ := ih h
        exact ⟨r, List.mem_cons_of_mem _ hr, heq⟩

theorem Ordered.release {line : Addr} {wakes : Parked α → Bool} {q : WatchQueues α}
    (h : Ordered q) : Ordered (release line wakes q).2 := by
  induction q with
  | nil => exact h
  | cons head rest ih =>
    obtain ⟨w, q⟩ := head
    have hlt : ∀ r ∈ rest, w < r.1 := h.head_lt
    have hq := h.watching (w, q) List.mem_cons_self
    unfold WatchQueues.release
    split
    · dsimp only
      split
      · -- all of the queue is woken, or some of it stays
        exact h.tail
      · exact h.tail.cons hlt fun x hx => hq x (List.mem_filter.1 hx).1
    · refine (ih h.tail).cons (fun r hr => ?_) hq
      obtain ⟨s, hs, heq⟩ := line_of_mem_release hr
      rw [← heq]
      exact hlt s hs

/-- What is queued for lines behind `w` watches none but these. -/
theorem Ordered.watch_ne {q : WatchQueues α} (h : Ordered q) {w : Addr} (hw : ∀ p ∈ q, w < p.1) :
    ∀ x ∈ q.entries, x.watch ≠ w := by
  intro x hx heq
  obtain ⟨p, hp, hxp⟩ := mem_entries.1 hx
  have hlt := hw p hp
  rw [← (h.watching p hp x hxp).1, heq] at hlt
  exact UInt64.lt_irrefl w hlt

/-- What is released is what watches the line and is picked. -/
theorem Ordered.release_fst {q : WatchQueues α} (h : Ordered q) (line : Addr)
    (wakes : Parked α → Bool) :
    (WatchQueues.release line wakes q).1
      = q.entries.filter fun x => x.watch == line && wakes x := by
  induction q with
  | nil => rfl
  | cons head rest ih =>
    obtain ⟨w, q⟩ := head
    have hq : ∀ x ∈ q, x.watch = w := h.head_watch
    have hne : ∀ x ∈ entries rest, x.watch ≠ w := h.tail.watch_ne h.head_lt
    show _ = (q ++ entries rest).filter _
    rw [List.filter_append]
    unfold WatchQueues.release
    split
    · next hwl =>
      subst hwl
      have hrest : (entries rest).filter (fun x => x.watch == w && wakes x) = [] :=
        List.filter_eq_nil_iff.2 fun x hx => by simp [hne x hx]
      rw [hrest, List.append_nil]
      exact List.filter_congr fun x hx => by simp [hq x hx]
    · next hwl =>
      rw [List.filter_eq_nil_iff.2 fun x hx => by simp [hq x hx, hwl], List.nil_append]
      exact ih h.tail

/-- And the others stay, in their order. -/
theorem Ordered.entries_release {q : WatchQueues α} (h : Ordered q) (line : Addr)
    (wakes : Parked α → Bool) :
    (WatchQueues.release line wakes q).2.entries
      = q.entries.filter fun x => !(x.watch == line && wakes x) := by
  induction q with
  | nil => rfl
  | cons head rest ih =>
    obtain ⟨w, q⟩ := head
    have hq : ∀ x ∈ q, x.watch = w := h.head_watch
    have hne : ∀ x ∈ entries rest, x.watch ≠ w := h.tail.watch_ne h.head_lt
    show _ = (q ++ entries rest).filter _
    rw [List.filter_append]
    unfold WatchQueues.release
    split
    · next hwl =>
      subst hwl
      have hrest : (entries rest).filter (fun x => !(x.watch == w && wakes x)) = entries rest :=
        List.filter_eq_self.2 fun x hx => by simp [hne x hx]
      have hkept : (q.filter fun x => !(x.watch == w && wakes x)) = q.filter fun x => !wakes x :=
        List.filter_congr fun x hx => by simp [hq x hx]
      rw [hrest, hkept]
      dsimp only
      split
      · next hk => rw [List.isEmpty_iff.1 hk, List.nil_append]
      · rfl
    · next hwl =>
      rw [List.filter_eq_self.2 fun x hx => by simp [hq x hx, hwl]]
      exact congrArg (q ++ ·) (ih h.tail)

end WatchQueues

namespace ParkingQueues

/-- Every parked request stands in the queue of its reason and of the line it watches. -/
structure Ordered (q : ParkingQueues α) : Prop where
  register : ∀ x ∈ q.register, x.reason = .noRegister
  watch : q.watch.Ordered

variable {q : ParkingQueues α} {e x : Parked α} {event : WakeEvent}

theorem Ordered.add (h : q.Ordered) (e : Parked α) : (q.add e).Ordered := by
  unfold ParkingQueues.add
  split
  · next hr =>
    refine ⟨fun x hx => ?_, h.watch⟩
    rcases List.mem_append.1 hx with hx | hx
    · exact h.register x hx
    · rw [List.mem_singleton.1 hx, hr]
  · next hr => exact ⟨h.register, h.watch.enqueue hr⟩

theorem Ordered.take (h : q.Ordered) (event : WakeEvent) : (q.take event).2.Ordered := by
  cases event with
  | registerReleased => exact ⟨nofun, h.watch⟩
  | transactionDone line | evictionDone line => exact ⟨h.register, h.watch.release⟩

theorem Ordered.reason_of_mem_entries (h : q.Ordered) (hx : x ∈ q.watch.entries) :
    x.reason ≠ .noRegister :=
  have ⟨p, hp, hxp⟩ := WatchQueues.mem_entries.1 hx
  (h.watch.watching p hp x hxp).2

/-- What is taken out is what the event releases. -/
theorem Ordered.take_fst (h : q.Ordered) (event : WakeEvent) :
    (q.take event).1 = q.toList.filter event.releases := by
  unfold toList
  rw [List.filter_append]
  cases event with
  | registerReleased =>
    rw [List.filter_eq_self.2 fun x hx => by simp [WakeEvent.releases, h.register x hx],
      List.filter_eq_nil_iff.2 fun x hx => by
        simp [WakeEvent.releases, h.reason_of_mem_entries hx], List.append_nil]
    rfl
  | transactionDone line | evictionDone line =>
    rw [List.filter_eq_nil_iff.2 fun x hx => by simp [WakeEvent.releases, h.register x hx],
      List.nil_append]
    exact h.watch.release_fst line _

/-- What stays is what the event does not release. -/
theorem Ordered.toList_take (h : q.Ordered) (event : WakeEvent) :
    (q.take event).2.toList = q.toList.filter fun x => !event.releases x := by
  show (q.take event).2.register ++ (q.take event).2.watch.entries
    = (q.register ++ q.watch.entries).filter _
  rw [List.filter_append]
  cases event with
  | registerReleased =>
    rw [List.filter_eq_nil_iff.2 fun x hx => by simp [WakeEvent.releases, h.register x hx],
      List.filter_eq_self.2 fun x hx => by simp [WakeEvent.releases, h.reason_of_mem_entries hx]]
    rfl
  | transactionDone line | evictionDone line =>
    rw [List.filter_eq_self.2 fun x hx => by simp [WakeEvent.releases, h.register x hx]]
    exact congrArg (q.register ++ ·) (h.watch.entries_release line _)

end ParkingQueues

namespace ParkingBuffer

variable {b : ParkingBuffer α} {e x : Parked α} {event : WakeEvent}

/-- The buffer is as ordered as its queues. -/
def Ordered (b : ParkingBuffer α) : Prop := b.queues.Ordered

theorem mem_toList_park : x ∈ (b.park e).toList ↔ x = e ∨ x ∈ b.toList := by
  rw [(b.perm_toList_park e).mem_iff, List.mem_cons]

theorem mem_toList_wake :
    x ∈ b.toList ↔ x ∈ (b.wake event).1 ∨ x ∈ (b.wake event).2.toList := by
  rw [← (b.perm_toList_wake event).mem_iff, List.mem_append]

theorem Ordered.park (h : b.Ordered) (e : Parked α) : (b.park e).Ordered :=
  ParkingQueues.Ordered.add h e

theorem Ordered.wake (h : b.Ordered) (event : WakeEvent) : (b.wake event).2.Ordered :=
  ParkingQueues.Ordered.take h event

/-- What stays parked is not released by what happened. -/
theorem Ordered.not_releases (h : b.Ordered) (hx : x ∈ (b.wake event).2.toList) :
    event.releases x = false := by
  have hx : x ∈ b.toList.filter fun x => !event.releases x :=
    ParkingQueues.Ordered.toList_take h event ▸ hx
  simpa using (List.mem_filter.1 hx).2

end ParkingBuffer

/-! ## No lost wakeup -/

namespace Backlog

/-- A request for the line `X` is tried again soon, or waits for something other than its
turn. -/
def Calls (b : Backlog α) (X : Addr) : Prop :=
  (∃ x ∈ b.parked.toList, x.line = X ∧ x.reason ≠ .linePending) ∨ ∃ x ∈ b.retries, x.line = X

/-- Something is in the way of the parked request `x`. A request for the line `K`, if there
is one, is at hand. -/
def Blocks (b : Backlog α) (B : Blockers) (K : Option Addr) (x : Parked α) : Prop :=
  match x.reason with
  | .noRegister => B.full
  | .linePending => x.watch = x.line ∧ (B.tracked x.line ∨ K = some x.line ∨ b.Calls x.line)
  | .victimBusy => B.tracked x.watch ∨ B.leaving x.watch
  | .lineEvicting => x.watch = x.line ∧ B.leaving x.watch

variable {B B' : Blockers} {K K' : Option Addr} {b : Backlog α} {e x : Parked α} {X : Addr}

/-- What is called for is still called for after a wakeup. -/
theorem Calls.wake (h : b.Calls X) (event : WakeEvent) : (b.wake event).Calls X := by
  rcases h with ⟨x, hx, hX⟩ | ⟨x, hx, hX⟩
  · rcases ParkingBuffer.mem_toList_wake.1 hx with hx | hx
    · exact .inr ⟨x, List.mem_append_right _ hx, hX.1⟩
    · exact .inl ⟨x, hx, hX⟩
  · exact .inr ⟨x, List.mem_append_left _ hx, hX⟩

theorem Calls.park (h : b.Calls X) (e : Parked α) : (b.park e).Calls X :=
  h.imp_left fun ⟨x, hx, hX⟩ => ⟨x, ParkingBuffer.mem_toList_park.2 (.inr hx), hX⟩

/-- What is in the way of a request may change, as long as something is. -/
theorem Blocks.imp {b' : Backlog α} (h : b.Blocks B K x) (hfull : B.full → B'.full)
    (htracked : B.tracked x.watch → B'.tracked x.watch)
    (hleaving : B.leaving x.watch → B'.leaving x.watch)
    (hturn : K = some x.line ∨ b.Calls x.line → K' = some x.line ∨ b'.Calls x.line) :
    b'.Blocks B' K' x := by
  unfold Blocks at h ⊢
  split at h
  · exact hfull h
  · obtain ⟨hw, h⟩ := h
    rw [hw] at htracked
    exact ⟨hw, h.imp htracked hturn⟩
  · exact h.imp htracked hleaving
  · exact ⟨h.1, hleaving h.2⟩

end Backlog

end CacheCoherence
