import CacheCoherence.Backlog

/-!
# Mapped backlogs — what is parked does not matter to the buffer

Queues are kept by reasons and lines. So it makes no difference whether parked requests are
exchanged for others before an operation or after it.
-/

namespace CacheCoherence

variable {α β : Type}

/-- Another request, parked in the same place. -/
def Parked.map (g : α → β) (e : Parked α) : Parked β :=
  { item := g e.item, line := e.line, reason := e.reason, watch := e.watch, since := e.since }

/-- The queues with other requests in them. -/
def WatchQueues.map (g : α → β) (q : WatchQueues α) : WatchQueues β :=
  List.map (fun (w, es) => (w, es.map (·.map g))) q

namespace WatchQueues

variable (g : α → β)

theorem enqueue_map (e : Parked α) (q : WatchQueues α) :
    (q.map g).enqueue (e.map g) = (q.enqueue e).map g := by
  induction q with
  | nil => rfl
  | cons head rest ih =>
    obtain ⟨w, es⟩ := head
    show enqueue (e.map g) ((w, es.map (·.map g)) :: WatchQueues.map g rest) = _
    unfold enqueue
    by_cases hlt : e.watch < w
    · rw [if_pos hlt, if_pos (show (e.map g).watch < w from hlt)]
      rfl
    · rw [if_neg hlt, if_neg (show ¬(e.map g).watch < w from hlt)]
      by_cases heq : e.watch = w
      · rw [if_pos heq, if_pos (show (e.map g).watch = w from heq)]
        simp [map]
      · rw [if_neg heq, if_neg (show ¬(e.map g).watch = w from heq), ih]
        rfl

theorem release_map (line : Addr) (wakes : StallReason → Bool) (q : WatchQueues α) :
    (q.map g).release line (fun e => wakes e.reason)
      = ((q.release line fun e => wakes e.reason).1.map (·.map g),
        WatchQueues.map g (q.release line fun e => wakes e.reason).2) := by
  induction q with
  | nil => rfl
  | cons head rest ih =>
    obtain ⟨w, es⟩ := head
    show release line _ ((w, es.map (·.map g)) :: WatchQueues.map g rest) = _
    unfold release
    by_cases hw : w = line
    · have hkept : (es.map (·.map g)).filter (fun e => !wakes e.reason)
          = (es.filter fun e => !wakes e.reason).map (·.map g) := List.filter_map
      have hwoken : (es.map (·.map g)).filter (fun e => wakes e.reason)
          = (es.filter fun e => wakes e.reason).map (·.map g) := List.filter_map
      rw [if_pos hw, if_pos hw, hkept, hwoken]
      dsimp only
      rw [List.isEmpty_map]
      split <;> rfl
    · rw [if_neg hw, if_neg hw, ih]
      rfl

theorem entries_map (q : WatchQueues α) : (q.map g).entries = q.entries.map (·.map g) := by
  simp [entries, map, List.flatMap_map, List.map_flatMap]

end WatchQueues

namespace ParkingQueues

/-- The queues with other requests in them. -/
def map (g : α → β) (q : ParkingQueues α) : ParkingQueues β :=
  { register := q.register.map (·.map g), watch := q.watch.map g }

variable (g : α → β) (q : ParkingQueues α)

theorem toList_map : (q.map g).toList = q.toList.map (·.map g) := by
  rw [toList, toList, List.map_append, ← WatchQueues.entries_map]
  rfl

theorem add_map (e : Parked α) : (q.map g).add (e.map g) = (q.add e).map g := by
  have hw := WatchQueues.enqueue_map g e q.watch
  unfold add
  rw [show (e.map g).reason = e.reason from rfl]
  cases e.reason with
  | noRegister => simp [map]
  | linePending | victimBusy | lineEvicting => exact congrArg (ParkingQueues.mk _) hw

theorem takeWatching_map (line : Addr) (wakes : StallReason → Bool) :
    (q.map g).takeWatching line wakes
      = ((q.takeWatching line wakes).1.map (·.map g), (q.takeWatching line wakes).2.map g) := by
  have hw := WatchQueues.release_map g line wakes q.watch
  exact congrArg (fun p => (p.1, ParkingQueues.mk (q.register.map (·.map g)) p.2)) hw

theorem take_map (event : WakeEvent) :
    (q.map g).take event = ((q.take event).1.map (·.map g), (q.take event).2.map g) := by
  cases event with
  | registerReleased => rfl
  | transactionDone line =>
    exact takeWatching_map g q line fun r => r == .linePending || r == .victimBusy
  | evictionDone line =>
    exact takeWatching_map g q line fun r => r == .lineEvicting || r == .victimBusy

end ParkingQueues

namespace ParkingBuffer

/-- The buffer with other requests in it. -/
def map (g : α → β) (b : ParkingBuffer α) : ParkingBuffer β where
  queues := b.queues.map g
  perLine := b.perLine
  size := b.size
  deepest := b.deepest
  size_eq := by rw [b.size_eq, ParkingQueues.toList_map, List.length_map]
  tallied := by
    rw [ParkingQueues.toList_map, List.map_map]
    exact b.tallied

variable (g : α → β) (b : ParkingBuffer α)

theorem park_map (e : Parked α) : (b.map g).park (e.map g) = (b.park e).map g := by
  have hq := ParkingQueues.add_map g b.queues e
  simp only [park, map, mk.injEq]
  exact ⟨hq, rfl, trivial, trivial⟩

theorem wake_map (event : WakeEvent) :
    (b.map g).wake event = ((b.wake event).1.map (·.map g), (b.wake event).2.map g) := by
  have hq := ParkingQueues.take_map g b.queues event
  have hwoken : ((b.map g).queues.take event).1 = (b.queues.take event).1.map (·.map g) :=
    congrArg Prod.fst hq
  have hlines : ((b.queues.take event).1.map (·.map g)).map Parked.line
      = (b.queues.take event).1.map Parked.line := by rw [List.map_map]; rfl
  refine Prod.ext hwoken ?_
  simp only [wake, map, mk.injEq]
  refine ⟨congrArg Prod.snd hq, ?_, ?_, trivial⟩
  · show b.perLine.forget (((b.map g).queues.take event).1.map Parked.line) = _
    rw [hwoken, hlines]
  · show b.size - ((b.map g).queues.take event).1.length = _
    rw [hwoken, List.length_map]

end ParkingBuffer

namespace Backlog

/-- The backlog with other requests in it. -/
def map (g : α → β) (b : Backlog α) : Backlog β :=
  { parked := b.parked.map g, retries := b.retries.map (·.map g) }

variable (g : α → β) (b : Backlog α)

theorem park_map (e : Parked α) : (b.map g).park (e.map g) = (b.park e).map g :=
  congrArg (Backlog.mk · _) (ParkingBuffer.park_map g b.parked e)

theorem wake_map (event : WakeEvent) : (b.map g).wake event = (b.wake event).map g := by
  have hw := ParkingBuffer.wake_map g b.parked event
  simp only [wake, map, hw, List.map_append]

@[simp] theorem isEmpty_map : (b.map g).isEmpty = b.isEmpty := by
  show (b.parked.isEmpty && (b.retries.map _).isEmpty) = _
  rw [List.isEmpty_map]
  rfl

end Backlog

end CacheCoherence
