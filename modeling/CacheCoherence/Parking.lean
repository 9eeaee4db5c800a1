import CacheCoherence.Parking.LineCounts

/-!
# Parking — blocked requests and what wakes them

A request that cannot proceed is parked under one reason until something
happens that may unblock it:

| reason         | watches                         | woken by                               |
|----------------|---------------------------------|----------------------------------------|
| `noRegister`   | any miss register               | a register was released                |
| `linePending`  | its own line                    | that line's transaction is done        |
| `victimBusy`   | the victim, or the awaited line | that line's transaction or eviction    |
| `lineEvicting` | its own line                    | that line's eviction is done           |

Requests that wait for a register stand in one queue, all others in one queue
per watched line. Within a queue the order is that of arrival, and waking keeps
it. Beside the queues the buffer counts what stands in them, all in all and by the
line that is addressed, so that neither question has to look at the queues; that the
counts are right is part of what a buffer is.
-/

namespace CacheCoherence

/-- Why a request is parked. -/
inductive StallReason where
  /-- No miss register is free. -/
  | noRegister
  /-- Another transaction on the same line is in flight. -/
  | linePending
  /-- The replacement victim is itself in transition. -/
  | victimBusy
  /-- The line is being evicted. -/
  | lineEvicting
deriving DecidableEq, Repr, Inhabited

/-- The spelling of a reason in tables. -/
def StallReason.name : StallReason → String
  | .noRegister => "MSHR_STALL"
  | .linePending => "PREV_PEND_STALL"
  | .victimBusy => "LRU_BUSY_STALL"
  | .lineEvicting => "TRANS_STALL"

/-- What may unblock parked requests. -/
inductive WakeEvent where
  /-- A miss register was released. -/
  | registerReleased
  /-- The transaction on a line finished. -/
  | transactionDone (line : Addr)
  /-- A replacement finished and its victim line is gone. -/
  | evictionDone (line : Addr)
deriving DecidableEq, Repr

/-- A parked request. -/
structure Parked (α : Type) where
  item : α
  /-- The line that the request addresses. -/
  line : Addr
  reason : StallReason
  /-- The line whose progress releases the request; of no account while it waits
  for a register. -/
  watch : Addr
  /-- The cycle at which it was parked. -/
  since : Nat
deriving DecidableEq, Repr

/-- Whether `event` releases the parked request. -/
def WakeEvent.releases {α : Type} : WakeEvent → Parked α → Bool
  | .registerReleased, e => e.reason == .noRegister
  | .transactionDone line, e =>
      e.watch == line && (e.reason == .linePending || e.reason == .victimBusy)
  | .evictionDone line, e =>
      e.watch == line && (e.reason == .lineEvicting || e.reason == .victimBusy)

/-! ## Queues by watched line -/

/-- Queues of parked requests by the line they watch, in ascending order of
lines. -/
abbrev WatchQueues (α : Type) := List (Addr × List (Parked α))

namespace WatchQueues

variable {α : Type}

/-- Adds a request at the end of the queue of the line it watches. -/
def enqueue (e : Parked α) : WatchQueues α → WatchQueues α
  | [] => [(e.watch, [e])]
  | (w, q) :: rest =>
      if e.watch < w then (e.watch, [e]) :: (w, q) :: rest
      else if e.watch = w then (w, q ++ [e]) :: rest
      else (w, q) :: enqueue e rest

/-- Splits the queue of `line`: the requests that `wakes` picks leave it, the
others stay, and an empty queue is dropped. -/
def release (line : Addr) (wakes : Parked α → Bool) :
    WatchQueues α → List (Parked α) × WatchQueues α
  | [] => ([], [])
  | (w, q) :: rest =>
      if w = line then
        let kept := q.filter fun e => !wakes e
        (q.filter wakes, if kept.isEmpty then rest else (w, kept) :: rest)
      else
        let (woken, rest) := release line wakes rest
        (woken, (w, q) :: rest)

/-- All queued requests, by ascending watched line and then by arrival. -/
def entries (q : WatchQueues α) : List (Parked α) := q.flatMap (·.2)

theorem perm_entries_enqueue (e : Parked α) (q : WatchQueues α) :
    (enqueue e q).entries.Perm (e :: q.entries) := by
  induction q with
  | nil => exact .refl _
  | cons head rest ih =>
    obtain ⟨w, q⟩ := head
    unfold enqueue
    split
    · exact .refl _
    · split
      · -- behind the others of its line
        show (q ++ [e] ++ entries rest).Perm (e :: (q ++ entries rest))
        rw [List.append_assoc]
        exact List.perm_middle
      · show (q ++ (enqueue e rest).entries).Perm (e :: (q ++ entries rest))
        exact (ih.append_left q).trans List.perm_middle

/-- Releasing moves requests and loses none. -/
theorem perm_entries_release (line : Addr) (wakes : Parked α → Bool) (q : WatchQueues α) :
    ((release line wakes q).1 ++ (release line wakes q).2.entries).Perm q.entries := by
  induction q with
  | nil => exact .refl _
  | cons head rest ih =>
    obtain ⟨w, q⟩ := head
    have hsplit : (q.filter wakes ++ q.filter fun e => !wakes e).Perm q :=
      List.filter_append_perm wakes q
    unfold release
    split
    · dsimp only
      split
      · next hk =>
        -- the whole queue is woken
        rw [List.isEmpty_iff.1 hk, List.append_nil] at hsplit
        exact hsplit.append_right _
      · show (q.filter wakes ++ ((q.filter fun e => !wakes e) ++ entries rest)).Perm
          (q ++ entries rest)
        rw [← List.append_assoc]
        exact hsplit.append_right _
    · show ((release line wakes rest).1 ++ (q ++ (release line wakes rest).2.entries)).Perm
        (q ++ entries rest)
      refine List.Perm.trans ?_ (ih.append_left q)
      rw [← List.append_assoc, ← List.append_assoc]
      exact List.perm_append_comm.append_right _

end WatchQueues

/-! ## All queues -/

/-- All queues of parked requests. -/
structure ParkingQueues (α : Type) where
  /-- Requests that wait for a miss register, in arrival order. -/
  register : List (Parked α) := []
  /-- All other requests, by the line they watch. -/
  watch : WatchQueues α := []
deriving DecidableEq, Repr

namespace ParkingQueues

variable {α : Type}

/-- The queued requests: those that wait for a register, then the others by
ascending watched line, each group in arrival order. -/
def toList (q : ParkingQueues α) : List (Parked α) := q.register ++ q.watch.entries

/-- Adds a request at the end of the queue that its reason calls for. -/
def add (q : ParkingQueues α) (e : Parked α) : ParkingQueues α :=
  match e.reason with
  | .noRegister => { q with register := q.register ++ [e] }
  | _ => { q with watch := q.watch.enqueue e }

/-- Takes out the requests that watch `line` for a reason that `wakes` picks. -/
def takeWatching (q : ParkingQueues α) (line : Addr) (wakes : StallReason → Bool) :
    List (Parked α) × ParkingQueues α :=
  let (woken, kept) := q.watch.release line fun e => wakes e.reason
  (woken, { q with watch := kept })

/-- Takes out what `event` unblocks. -/
def take (q : ParkingQueues α) : WakeEvent → List (Parked α) × ParkingQueues α
  | .registerReleased => (q.register, { q with register := [] })
  | .transactionDone line => q.takeWatching line fun r => r == .linePending || r == .victimBusy
  | .evictionDone line => q.takeWatching line fun r => r == .lineEvicting || r == .victimBusy

theorem perm_add (q : ParkingQueues α) (e : Parked α) : (q.add e).toList.Perm (e :: q.toList) := by
  unfold add
  cases e.reason with
  | noRegister =>
    show (q.register ++ [e] ++ q.watch.entries).Perm (e :: (q.register ++ q.watch.entries))
    rw [List.append_assoc]
    exact List.perm_middle
  | linePending | victimBusy | lineEvicting =>
    exact ((q.watch.perm_entries_enqueue e).append_left q.register).trans List.perm_middle

theorem perm_takeWatching (q : ParkingQueues α) (line : Addr) (wakes : StallReason → Bool) :
    ((q.takeWatching line wakes).1 ++ (q.takeWatching line wakes).2.toList).Perm q.toList := by
  have h := q.watch.perm_entries_release line fun e => wakes e.reason
  refine List.Perm.trans ?_ (h.append_left q.register)
  unfold takeWatching toList
  rw [← List.append_assoc, ← List.append_assoc]
  exact List.perm_append_comm.append_right _

/-- What is taken out and what stays are together what was there. -/
theorem perm_take (q : ParkingQueues α) (event : WakeEvent) :
    ((q.take event).1 ++ (q.take event).2.toList).Perm q.toList := by
  cases event with
  | registerReleased => exact .refl _
  | transactionDone line | evictionDone line => exact q.perm_takeWatching line _

end ParkingQueues

/-! ## The parking buffer -/

/-- All parked requests of a node. -/
structure ParkingBuffer (α : Type) where
  queues : ParkingQueues α := {}
  /-- How many of them address each line. -/
  perLine : LineCounts := []
  /-- How many requests are parked. -/
  size : Nat := 0
  /-- The largest number of requests parked at once. -/
  deepest : Nat := 0
  size_eq : size = queues.toList.length := by rfl
  tallied : perLine.Tallies (queues.toList.map (·.line)) := by exact .nil
deriving DecidableEq, Repr

namespace ParkingBuffer

variable {α : Type}

/-- The buffer in which nothing is parked yet. -/
def empty : ParkingBuffer α := {}

/-- The parked requests, in the order of the queues. -/
def toList (b : ParkingBuffer α) : List (Parked α) := b.queues.toList

/-- Whether nothing is parked. -/
def isEmpty (b : ParkingBuffer α) : Bool := b.size == 0

/-- Whether a parked request addresses `line`. -/
def addresses (b : ParkingBuffer α) (line : Addr) : Bool := b.perLine.lists line

/-- How many requests are parked under `reason`. -/
def count (b : ParkingBuffer α) (reason : StallReason) : Nat :=
  b.toList.countP (·.reason == reason)

/-- Parks a request. -/
def park (b : ParkingBuffer α) (e : Parked α) : ParkingBuffer α where
  queues := b.queues.add e
  perLine := b.perLine.increment e.line
  size := b.size + 1
  deepest := max b.deepest (b.size + 1)
  size_eq := by rw [b.size_eq, (b.queues.perm_add e).length_eq, List.length_cons]
  tallied := (b.tallied.increment e.line).perm ((b.queues.perm_add e).map Parked.line).symm

/-- Takes out every request that `event` releases, in arrival order. -/
def wake (b : ParkingBuffer α) (event : WakeEvent) : List (Parked α) × ParkingBuffer α :=
  let woken := (b.queues.take event).1
  (woken,
    { queues := (b.queues.take event).2
      perLine := b.perLine.forget (woken.map (·.line))
      size := b.size - woken.length
      deepest := b.deepest
      size_eq := by
        rw [b.size_eq, ← (b.queues.perm_take event).length_eq, List.length_append,
          Nat.add_sub_cancel_left]
      tallied := by
        have hp := (b.queues.perm_take event).map Parked.line
        rw [List.map_append] at hp
        exact (b.tallied.perm hp.symm).forget })

theorem perm_toList_park (b : ParkingBuffer α) (e : Parked α) :
    (b.park e).toList.Perm (e :: b.toList) := b.queues.perm_add e

/-- Waking moves requests out of the buffer and loses none. -/
theorem perm_toList_wake (b : ParkingBuffer α) (event : WakeEvent) :
    ((b.wake event).1 ++ (b.wake event).2.toList).Perm b.toList := b.queues.perm_take event

theorem size_eq_length_toList (b : ParkingBuffer α) : b.size = b.toList.length := b.size_eq

@[simp] theorem size_park (b : ParkingBuffer α) (e : Parked α) : (b.park e).size = b.size + 1 := rfl

theorem length_wake_add_size (b : ParkingBuffer α) (event : WakeEvent) :
    (b.wake event).1.length + (b.wake event).2.size = b.size := by
  rw [size_eq_length_toList, size_eq_length_toList, ← List.length_append]
  exact (b.perm_toList_wake event).length_eq

/-- The counts by line answer for the requests. -/
theorem addresses_iff (b : ParkingBuffer α) (line : Addr) :
    b.addresses line = true ↔ ∃ x ∈ b.toList, x.line = line := by
  rw [addresses, b.tallied.lists_iff, List.mem_map, toList]

end ParkingBuffer

end CacheCoherence
