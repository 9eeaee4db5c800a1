import CacheCoherence.Proofs.Backlog.Blocked
import Mathlib.Data.List.Induction
import Mathlib.Order.Bounds.Basic

/-!
# Arrivals — the parking buffer is one list

A parking buffer keeps its requests in many queues and counts them in several ways. None of
this shows: whatever is parked and woken, the buffer answers as one list would to which
every parked request is added at the end, and from which a wakeup takes what it releases.

The queues and the list are related group by group. A group is what stands in one queue, and
an event releases requests of one group only, so the list may be replaced by the queues
wherever only one group matters.
-/

namespace CacheCoherence

variable {α : Type}

/-! ## Calls and answers -/

/-- A call on a parking buffer. -/
inductive ParkingCall (α : Type) where
  | park (e : Parked α)
  | wake (event : WakeEvent)

namespace ParkingCall

/-- What is handed back by each of the calls in turn, and the state after them. -/
def answers {σ : Type} (answer : σ → ParkingCall α → List (Parked α) × σ) (s : σ) :
    List (ParkingCall α) → List (List (Parked α)) × σ
  | [] => ([], s)
  | c :: rest =>
      let (woken, s) := answer s c
      let (others, s) := answers answer s rest
      (woken :: others, s)

theorem answers_concat {σ : Type} (answer : σ → ParkingCall α → List (Parked α) × σ) (s : σ)
    (calls : List (ParkingCall α)) (c : ParkingCall α) :
    answers answer s (calls ++ [c])
      = ((answers answer s calls).1 ++ [(answer (answers answer s calls).2 c).1],
          (answer (answers answer s calls).2 c).2) := by
  induction calls generalizing s with
  | nil => rfl
  | cons d rest ih => simp only [List.cons_append, answers, ih]

/-- The request that is parked, if one is. -/
def parked? : ParkingCall α → Option (Parked α)
  | park e => some e
  | wake _ => none

end ParkingCall

/-- A parking buffer answers a call. -/
def ParkingBuffer.answer (b : ParkingBuffer α) : ParkingCall α → List (Parked α) × ParkingBuffer α
  | .park e => ([], b.park e)
  | .wake event => b.wake event

/-- One list answers a call: what is parked goes to the end, and what is released leaves. -/
def Arrivals.answer (xs : List (Parked α)) : ParkingCall α → List (Parked α) × List (Parked α)
  | .park e => ([], xs ++ [e])
  | .wake event => (xs.filter event.releases, xs.filter fun x => !event.releases x)

/-- The buffer after some calls, from the empty one on. -/
def ParkingBuffer.after (calls : List (ParkingCall α)) : ParkingBuffer α :=
  (ParkingCall.answers ParkingBuffer.answer .empty calls).2

/-- The list after some calls, from the empty one on. -/
def Arrivals.after (calls : List (ParkingCall α)) : List (Parked α) :=
  (ParkingCall.answers Arrivals.answer [] calls).2

theorem ParkingBuffer.after_concat (calls : List (ParkingCall α)) (c : ParkingCall α) :
    ParkingBuffer.after (calls ++ [c]) = ((ParkingBuffer.after calls).answer c).2 :=
  congrArg Prod.snd (ParkingCall.answers_concat ..)

theorem Arrivals.after_concat (calls : List (ParkingCall α)) (c : ParkingCall α) :
    Arrivals.after (calls ++ [c]) = (Arrivals.answer (Arrivals.after calls) c).2 :=
  congrArg Prod.snd (ParkingCall.answers_concat ..)

/-! ## Groups -/

/-- The queue of a request: that of the line it watches, or of those that wait for a register. -/
def Parked.group (x : Parked α) : Option Addr :=
  if x.reason = .noRegister then none else some x.watch

/-- The queue that an event concerns. -/
def WakeEvent.group : WakeEvent → Option Addr
  | .registerReleased => none
  | .transactionDone line | .evictionDone line => some line

/-- An event releases requests of its own group only. -/
theorem WakeEvent.group_of_releases {event : WakeEvent} {x : Parked α}
    (h : event.releases x = true) : x.group = event.group := by
  cases event with
  | registerReleased =>
    have hr : x.reason = .noRegister := eq_of_beq h
    rw [Parked.group, if_pos hr, WakeEvent.group]
  | transactionDone line | evictionDone line =>
    simp only [WakeEvent.releases, Bool.and_eq_true, Bool.or_eq_true, beq_iff_eq] at h
    obtain ⟨hw, hr⟩ := h
    have hne : x.reason ≠ .noRegister := by rcases hr with hr | hr <;> simp [hr]
    rw [Parked.group, if_neg hne, hw, WakeEvent.group]

/-- Each group has the same requests in `l` as in `xs`, in the same order. -/
def Parked.SameGroups (l xs : List (Parked α)) : Prop :=
  ∀ g, l.filter (·.group == g) = xs.filter (·.group == g)

namespace Parked.SameGroups

variable {l xs : List (Parked α)} {event : WakeEvent}

theorem perm (h : SameGroups l xs) : l.Perm xs := by
  classical
  refine List.perm_iff_count.2 fun x => ?_
  have hx : (x.group == x.group) = true := beq_self_eq_true _
  have hcount (ys : List (Parked α)) : (ys.filter (·.group == x.group)).count x = ys.count x :=
    List.count_filter hx
  rw [← hcount l, h x.group, hcount xs]

/-- What an event releases is the same in both, in the same order. -/
theorem filter_releases (h : SameGroups l xs) (event : WakeEvent) :
    l.filter event.releases = xs.filter event.releases := by
  have hgroup (ys : List (Parked α)) :
      ys.filter event.releases = (ys.filter (·.group == event.group)).filter event.releases := by
    rw [List.filter_filter]
    refine List.filter_congr fun x _ => ?_
    cases hx : event.releases x with
    | false => rfl
    | true => rw [WakeEvent.group_of_releases hx, beq_self_eq_true]; rfl
  rw [hgroup l, h event.group, ← hgroup xs]

theorem filter (h : SameGroups l xs) (p : Parked α → Bool) :
    SameGroups (l.filter p) (xs.filter p) := by
  intro g
  rw [List.filter_filter, List.filter_filter]
  simp only [Bool.and_comm _ (p _)]
  rw [← List.filter_filter, ← List.filter_filter, h g]

end Parked.SameGroups

/-! ## The queues keep the groups -/

namespace WatchQueues

/-- Queueing a request puts it behind the others that watch its line. -/
theorem Ordered.filter_enqueue {q : WatchQueues α} (h : Ordered q) (e : Parked α) (w : Addr) :
    (WatchQueues.enqueue e q).entries.filter (·.watch == w)
      = q.entries.filter (·.watch == w) ++ [e].filter (·.watch == w) := by
  induction q with
  | nil => rfl
  | cons head rest ih =>
    obtain ⟨v, q⟩ := head
    have hlt : ∀ r ∈ rest, v < r.1 := h.head_lt
    unfold WatchQueues.enqueue
    split
    · next hv =>
      -- its line comes before all others, so no request watches it
      have hall : ∀ r ∈ (v, q) :: rest, e.watch < r.1 :=
        List.forall_mem_cons.2 ⟨hv, fun r hr => UInt64.lt_trans hv (hlt r hr)⟩
      show (e :: entries ((v, q) :: rest)).filter _ = _
      rw [← List.singleton_append, List.filter_append]
      by_cases hw : e.watch = w
      · subst hw
        have hnil : (entries ((v, q) :: rest)).filter (·.watch == e.watch) = [] :=
          List.filter_eq_nil_iff.2 fun x hx => by simp [h.watch_ne hall x hx]
        rw [hnil, List.append_nil, List.nil_append]
      · simp [hw]
    · split
      · next hv =>
        show (q ++ [e] ++ entries rest).filter _ = (q ++ entries rest).filter _ ++ _
        rw [List.append_assoc]
        simp only [List.filter_append, List.append_assoc]
        congr 1
        by_cases hw : e.watch = w
        · have hnil : (entries rest).filter (·.watch == w) = [] :=
            List.filter_eq_nil_iff.2 fun x hx => by
              simp [← hw, hv, h.tail.watch_ne hlt x hx]
          rw [hnil, List.append_nil, List.nil_append]
        · simp [hw]
      · show (q ++ (WatchQueues.enqueue e rest).entries).filter _
          = (q ++ entries rest).filter _ ++ _
        rw [List.filter_append, ih h.tail, List.filter_append, List.append_assoc]

/-- The requests stand in ascending order of the lines that they watch. -/
theorem Ordered.pairwise_entries {q : WatchQueues α} (h : Ordered q) :
    q.entries.Pairwise fun x y => x.watch ≤ y.watch := by
  induction q with
  | nil => exact .nil
  | cons head rest ih =>
    obtain ⟨v, q⟩ := head
    have hlt : ∀ r ∈ rest, v < r.1 := h.head_lt
    have hq : ∀ x ∈ q, x.watch = v := h.head_watch
    refine List.pairwise_append.2 ⟨List.pairwise_iff_forall_sublist.2 fun hs => ?_, ih h.tail, ?_⟩
    · have hmem := hs.subset
      rw [hq _ (hmem List.mem_cons_self), hq _ (hmem (List.mem_cons_of_mem _ List.mem_cons_self))]
      exact UInt64.le_refl v
    · intro x hx y hy
      obtain ⟨p, hp, hyp⟩ := mem_entries.1 hy
      rw [hq x hx, (h.tail.watching p hp y hyp).1]
      exact UInt64.le_of_lt (hlt p hp)

end WatchQueues

namespace ParkingQueues

variable {q : ParkingQueues α} {e : Parked α}

theorem add_of_noRegister (hr : e.reason = .noRegister) :
    q.add e = { q with register := q.register ++ [e] } := by
  unfold add
  rw [hr]

theorem add_of_ne (hr : e.reason ≠ .noRegister) :
    q.add e = { q with watch := q.watch.enqueue e } := by
  unfold add
  split
  · next h => exact absurd h hr
  · rfl

end ParkingQueues

namespace ParkingQueues.Ordered

variable {q : ParkingQueues α}

theorem group_of_mem_register (h : q.Ordered) {x : Parked α} (hx : x ∈ q.register) :
    x.group = none :=
  if_pos (h.register x hx)

theorem group_of_mem_entries (h : q.Ordered) {x : Parked α} (hx : x ∈ q.watch.entries) :
    x.group = some x.watch :=
  if_neg (h.reason_of_mem_entries hx)

/-- Adding a request puts it behind the others of its group. -/
theorem filter_add (h : q.Ordered) (e : Parked α) (g : Option Addr) :
    (q.add e).toList.filter (·.group == g)
      = q.toList.filter (·.group == g) ++ [e].filter (·.group == g) := by
  have hnone {q : ParkingQueues α} (h : q.Ordered) :
      q.watch.entries.filter (·.group == none) = [] :=
    List.filter_eq_nil_iff.2 fun x hx => by simp [h.group_of_mem_entries hx]
  have hsome {q : ParkingQueues α} (h : q.Ordered) (w : Addr) :
      q.watch.entries.filter (·.group == some w) = q.watch.entries.filter (·.watch == w) :=
    List.filter_congr fun x hx => by simp [h.group_of_mem_entries hx]
  unfold toList
  rw [List.filter_append, List.filter_append, List.append_assoc]
  by_cases hr : e.reason = .noRegister
  · rw [add_of_noRegister hr, List.filter_append, List.append_assoc]
    congr 1
    cases g with
    | none => rw [hnone h, List.append_nil, List.nil_append]
    | some w =>
      have he : [e].filter (·.group == some w) = [] := by simp [Parked.group, hr]
      rw [he, List.append_nil, List.nil_append]
  · have hadd := h.add e
    rw [add_of_ne hr] at hadd ⊢
    congr 1
    cases g with
    | none =>
      have he : [e].filter (·.group == none) = [] := by simp [Parked.group, hr]
      rw [hnone h, hnone hadd, he, List.append_nil]
    | some w =>
      have he : [e].filter (·.group == some w) = [e].filter (·.watch == w) :=
        List.filter_congr fun x hx => by simp [List.mem_singleton.1 hx, Parked.group, hr]
      rw [hsome h, hsome hadd, he]
      exact h.watch.filter_enqueue e w

/-- The groups follow each other, the one that waits for a register first. -/
theorem pairwise_toList (h : q.Ordered) : q.toList.Pairwise fun x y => x.group ≤ y.group := by
  have hreg : ∀ x ∈ q.register, ∀ y : Parked α, x.group ≤ y.group := fun x hx y => by
    rw [h.group_of_mem_register hx]
    exact Option.none_le
  refine List.pairwise_append.2 ⟨?_, ?_, fun x hx y _ => hreg x hx y⟩
  · exact List.pairwise_iff_forall_sublist.2 fun {x y} hs =>
      hreg x (hs.subset List.mem_cons_self) y
  · refine h.watch.pairwise_entries.imp_of_mem fun hx hy hle => ?_
    rw [h.group_of_mem_entries hx, h.group_of_mem_entries hy]
    exact Option.some_le_some.2 hle

end ParkingQueues.Ordered

/-! ## The buffer and the list -/

namespace ParkingBuffer

/-- The buffer `b` holds what the list `xs` holds, each group in the order of the list. -/
structure Mirrors (b : ParkingBuffer α) (xs : List (Parked α)) : Prop where
  ordered : b.Ordered
  groups : Parked.SameGroups b.toList xs

variable {b : ParkingBuffer α} {xs : List (Parked α)}

theorem Mirrors.empty : Mirrors (.empty : ParkingBuffer α) [] :=
  ⟨⟨nofun, ⟨.nil, nofun⟩⟩, fun _ => rfl⟩

/-- A wakeup hands back the same requests in the same order. -/
theorem Mirrors.wake_fst (h : b.Mirrors xs) (event : WakeEvent) :
    (b.wake event).1 = xs.filter event.releases :=
  (ParkingQueues.Ordered.take_fst h.ordered event).trans (h.groups.filter_releases event)

/-- One call keeps the two together, and both answer alike. -/
theorem Mirrors.answer (h : b.Mirrors xs) (c : ParkingCall α) :
    (b.answer c).1 = (Arrivals.answer xs c).1 ∧
      (b.answer c).2.Mirrors (Arrivals.answer xs c).2 := by
  cases c with
  | park e =>
    refine ⟨rfl, h.ordered.park e, fun g => ?_⟩
    rw [Arrivals.answer, List.filter_append, ← h.groups g]
    exact ParkingQueues.Ordered.filter_add h.ordered e g
  | wake event =>
    refine ⟨h.wake_fst event, h.ordered.wake event, ?_⟩
    have hstays : (b.wake event).2.toList = b.toList.filter fun x => !event.releases x :=
      ParkingQueues.Ordered.toList_take h.ordered event
    show Parked.SameGroups (b.wake event).2.toList _
    rw [hstays]
    exact h.groups.filter _

/-- So do all calls. -/
theorem mirrors_after (calls : List (ParkingCall α)) :
    (ParkingCall.answers ParkingBuffer.answer .empty calls).1
        = (ParkingCall.answers Arrivals.answer [] calls).1
      ∧ (ParkingBuffer.after calls).Mirrors (Arrivals.after calls) := by
  induction calls using List.reverseRecOn with
  | nil => exact ⟨rfl, .empty⟩
  | append_singleton calls c ih =>
    obtain ⟨hwoken, hm⟩ := ih
    obtain ⟨hc, hm⟩ := hm.answer c
    rw [after_concat, Arrivals.after_concat, ParkingCall.answers_concat,
      ParkingCall.answers_concat, hwoken]
    exact ⟨congrArg (_ ++ [·]) hc, hm⟩

theorem Mirrors.perm (h : b.Mirrors xs) : b.toList.Perm xs := h.groups.perm

theorem Mirrors.size_eq (h : b.Mirrors xs) : b.size = xs.length := by
  rw [size_eq_length_toList, h.perm.length_eq]

theorem Mirrors.addresses_iff (h : b.Mirrors xs) (line : Addr) :
    b.addresses line = true ↔ ∃ x ∈ xs, x.line = line := by
  rw [ParkingBuffer.addresses_iff]
  exact exists_congr fun x => and_congr_left fun _ => h.perm.mem_iff

/-- A call makes the buffer as deep as it was or as it is now. -/
theorem deepest_answer (h : b.size ≤ b.deepest) (c : ParkingCall α) :
    (b.answer c).2.deepest = max b.deepest (b.answer c).2.size := by
  cases c with
  | park e => rfl
  | wake event =>
    have hsize : (b.wake event).2.size ≤ b.deepest := by
      have := b.length_wake_add_size event
      omega
    exact (max_eq_left hsize).symm

/-- The buffer was never deeper than it says, and that deep it was once. -/
theorem isGreatest_deepest (calls : List (ParkingCall α)) :
    IsGreatest {n | ∃ pre, pre <+: calls ∧ (Arrivals.after pre).length = n}
      (ParkingBuffer.after calls).deepest := by
  induction calls using List.reverseRecOn with
  | nil =>
    refine ⟨⟨[], List.nil_prefix, rfl⟩, ?_⟩
    rintro _ ⟨pre, hpre, rfl⟩
    rw [List.prefix_nil.1 hpre]
    exact Nat.le_refl 0
  | append_singleton calls c ih =>
    have hle : (ParkingBuffer.after calls).size ≤ (ParkingBuffer.after calls).deepest := by
      rw [(mirrors_after calls).2.size_eq]
      exact ih.2 ⟨calls, List.prefix_refl calls, rfl⟩
    have hdeepest : (ParkingBuffer.after (calls ++ [c])).deepest
        = max (ParkingBuffer.after calls).deepest (Arrivals.after (calls ++ [c])).length := by
      rw [← (mirrors_after (calls ++ [c])).2.size_eq, after_concat, deepest_answer hle]
    rw [hdeepest]
    constructor
    · rcases max_choice (ParkingBuffer.after calls).deepest (Arrivals.after (calls ++ [c])).length
        with h | h
      · rw [h]
        obtain ⟨pre, hpre, heq⟩ := ih.1
        exact ⟨pre, hpre.trans (List.prefix_append calls [c]), heq⟩
      · rw [h]
        exact ⟨calls ++ [c], List.prefix_refl _, rfl⟩
    · rintro _ ⟨pre, hpre, rfl⟩
      rcases List.prefix_concat_iff.1 hpre with rfl | hpre
      · exact le_max_right ..
      · exact le_max_of_le_left (ih.2 ⟨pre, hpre, rfl⟩)

/-- One call parks a request, or hands back some that were parked. -/
theorem perm_answer (b : ParkingBuffer α) (c : ParkingCall α) :
    ((b.answer c).1 ++ (b.answer c).2.toList).Perm (b.toList ++ c.parked?.toList) := by
  cases c with
  | park e => exact (b.perm_toList_park e).trans (List.perm_append_singleton e _).symm
  | wake event =>
    rw [ParkingCall.parked?, Option.toList_none, List.append_nil]
    exact b.perm_toList_wake event

/-- What was parked has been handed back once, or it is still there. -/
theorem perm_answers (calls : List (ParkingCall α)) :
    ((ParkingCall.answers ParkingBuffer.answer .empty calls).1.flatten
        ++ (ParkingBuffer.after calls).toList).Perm (calls.filterMap ParkingCall.parked?) := by
  induction calls using List.reverseRecOn with
  | nil => exact .refl _
  | append_singleton calls c ih =>
    have hparked : [c].filterMap ParkingCall.parked? = c.parked?.toList := by
      cases c <;> rfl
    rw [after_concat, ParkingCall.answers_concat, List.filterMap_append, hparked,
      List.flatten_append, List.flatten_singleton, List.append_assoc]
    refine (((ParkingBuffer.after calls).perm_answer c).append_left _).trans ?_
    rw [← List.append_assoc]
    exact ih.append_right _

/-- No count is taken below zero: the line of each woken request is counted until its turn. -/
theorem count_forget_pos (b : ParkingBuffer α) {event : WakeEvent} {pre post : List (Parked α)}
    {x : Parked α} (h : (b.wake event).1 = pre ++ x :: post) :
    0 < (b.perLine.forget (pre.map (·.line))).count x.line := by
  have hp : (b.toList.map (·.line)).Perm
      (pre.map (·.line) ++ x.line :: (post ++ (b.wake event).2.toList).map (·.line)) := by
    have := (b.perm_toList_wake event).map Parked.line
    rw [h] at this
    simpa using this.symm
  have ht := (b.tallied.perm hp).forget
  rw [ht.count_eq, List.count_pos_iff]
  exact List.mem_cons_self

/-- All that can be asked of the buffer `b` is answered as the list `xs` answers it. -/
structure ShowsAs (b : ParkingBuffer α) (xs : List (Parked α)) : Prop where
  /-- A wakeup hands back what it releases, in order of arrival. -/
  woken : ∀ event, (b.wake event).1 = xs.filter event.releases
  /-- A line is addressed exactly if a request in the list is for it. -/
  addressed : ∀ line, b.addresses line = true ↔ ∃ x ∈ xs, x.line = line
  size : b.size = xs.length
  empty : b.isEmpty = xs.isEmpty
  count : ∀ reason, b.count reason = xs.countP (·.reason == reason)
  /-- The buffer lists the same requests, ... -/
  listed : b.toList.Perm xs
  /-- ... those that wait for a register first, then the others by ascending line, ... -/
  grouped : b.toList.Pairwise fun x y => x.group ≤ y.group
  /-- ... and each of these groups in order of arrival. -/
  arrival : ∀ g, b.toList.filter (·.group == g) = xs.filter (·.group == g)
  /-- No wakeup takes more off the size than it is, ... -/
  size_covers : ∀ event, (b.wake event).1.length ≤ b.size
  /-- ... or one off the count of a line when nothing is left of it. -/
  count_covers : ∀ event pre x post, (b.wake event).1 = pre ++ x :: post →
    0 < (b.perLine.forget (pre.map (·.line))).count x.line

theorem Mirrors.showsAs (h : b.Mirrors xs) : b.ShowsAs xs where
  woken := h.wake_fst
  addressed := h.addresses_iff
  size := h.size_eq
  empty := by
    rw [isEmpty, h.size_eq]
    cases xs <;> rfl
  count reason := h.perm.countP_eq _
  listed := h.perm
  grouped := ParkingQueues.Ordered.pairwise_toList h.ordered
  arrival := h.groups
  size_covers event := by
    have := b.length_wake_add_size event
    omega
  count_covers _ _ _ _ := b.count_forget_pos

/-- Whatever is called, the buffer hands back what one list in order of arrival hands back,
and shows as that list from then on. It has been as deep as the list has been long, and every
request has been handed back or is still parked, together as often as it was parked. -/
theorem answers_eq (calls : List (ParkingCall α)) :
    (ParkingCall.answers ParkingBuffer.answer .empty calls).1
        = (ParkingCall.answers Arrivals.answer [] calls).1
      ∧ (ParkingBuffer.after calls).ShowsAs (Arrivals.after calls)
      ∧ IsGreatest {n | ∃ pre, pre <+: calls ∧ (Arrivals.after pre).length = n}
          (ParkingBuffer.after calls).deepest
      ∧ ((ParkingCall.answers ParkingBuffer.answer .empty calls).1.flatten
          ++ (ParkingBuffer.after calls).toList).Perm (calls.filterMap ParkingCall.parked?) :=
  have ⟨hwoken, hm⟩ := mirrors_after calls
  ⟨hwoken, hm.showsAs, isGreatest_deepest calls, perm_answers calls⟩

end ParkingBuffer

end CacheCoherence
