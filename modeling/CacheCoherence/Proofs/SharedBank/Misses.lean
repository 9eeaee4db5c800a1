import CacheCoherence.Proofs.SharedBank.Lifecycle
import CacheCoherence.Proofs.SharedBank.Resolution
import CacheCoherence.Proofs.Table.Entries

/-!
# Misses — lines that are being fetched

The registers of a bank list the lines that it fetches, each with the request that missed it. A
turn adds a line to the list for the miss that it counts, and takes off the list what is filed.
-/

namespace CacheCoherence

namespace SharedBank

/-- The lines that are being fetched, each with the request that missed it, in register order. -/
def missing (c : SharedBank) : List (Addr × CoherenceMessage) :=
  c.mshr.entries.filterMap fun (_, X, v) => v.miss?.map fun m => (X, m.request)

/-- The lines that are filed in the turn, each with the request that missed it. -/
def Turn.filled (t : Turn) : List (Addr × CoherenceMessage) :=
  t.before.missing.filter fun x => (t.after.entry? x.1).isSome

variable {P : Wiring} {c d : SharedBank} {w : Deed} {X : Addr} {q : CoherenceMessage} {t : Turn}
  {place place' : Addr → Place ManagerLine ManagerTransaction}

/-- A line is missing for a request as often as its registers say so. -/
theorem count_missing (c : SharedBank) (X : Addr) (q : CoherenceMessage) :
    Multiset.count (X, q) c.missing
      = (c.mshr.slots.listed X).countP fun x => x.2.miss?.any fun m => m.request = q := by
  rw [Multiset.coe_count, missing, SlotTable.listed, Mshr.entries]
  induction c.mshr.slots.entries with
  | nil => rfl
  | cons entry rest ih =>
    obtain ⟨h, Y, v⟩ := entry
    simp only [List.filterMap_cons] at ih ⊢
    by_cases hY : Y = X <;> cases v <;>
      simp [ManagerTransaction.miss?_miss, ManagerTransaction.miss?_resident, List.count_cons,
        List.countP_cons, hY, ih]

theorem serves_stageAt (p : Place ManagerLine ManagerTransaction) (q : CoherenceMessage) :
    (stageAt p).serves q = (missAt p).any fun m => m.request = q := by
  rw [stageAt]
  cases missAt p with
  | none => dsimp only; split <;> rfl
  | some m => rfl

theorem Filed.count_missing (h : Filed c place) (X : Addr) (q : CoherenceMessage) :
    Multiset.count (X, q) c.missing = ((stageAt (place X)).serves q).toNat := by
  rw [SharedBank.count_missing, h.listed_registers, serves_stageAt]
  cases hp : place X with
  | absent => rfl
  | filed i e tx =>
    cases tx with
    | none => rfl
    | some rv =>
      obtain ⟨r, v⟩ := rv
      obtain rfl := resident_of_filed h hp
      rfl
  | reserved i r v =>
    obtain ⟨m, rfl, -⟩ := miss_of_reserved h hp
    by_cases hq : m.request = q <;>
      simp [Place.register?, missAt, hq]
  | waiting i r v =>
    obtain ⟨m, rfl, -⟩ := miss_of_waiting h hp
    by_cases hq : m.request = q <;>
      simp [Place.register?, missAt, hq]

/-- Only lines of the bank are missing. -/
theorem Stands.lineOf_missing (h : Stands P c place) (hX : P.lineOf X ≠ X) :
    Multiset.count (X, q) c.missing = 0 := by
  have hplace : place X = .absent := by
    by_contra hne
    exact hX (by rw [← h.lineOf]; exact h.aligned X hne)
  rw [h.toFiled.count_missing, hplace]
  rfl

namespace Turn

theorem count_missedAt? (t : Turn) (X : Addr) (q : CoherenceMessage) :
    (t.missedAt? X).toList.count q = Multiset.count (X, q) t.missed?.toList := by
  rw [Multiset.coe_count, missedAt?]
  cases t.missed? with
  | none => rfl
  | some x =>
    obtain ⟨Y, q'⟩ := x
    by_cases hY : Y = X <;> simp [Option.filter, hY, List.count_cons]

theorem count_filled_eq (t : Turn) (X : Addr) (q : CoherenceMessage) :
    Multiset.count (X, q) t.filled
      = if (t.after.entry? X).isSome then Multiset.count (X, q) t.before.missing else 0 := by
  have hfilter : (t.filled : Multiset (Addr × CoherenceMessage))
      = Multiset.filter (fun x => (t.after.entry? x.1).isSome = true) t.before.missing := by
    simp [filled]
  rw [hfilter, Multiset.count_filter]

/-- Whatever else happens to a line does not count as a miss. -/
theorem count_missed (t : Turn) (X : Addr) (q : CoherenceMessage) :
    (t.events X).count (.missed q) = (t.missedAt? X).toList.count q := by
  rw [List.count, t.countP_events]
  cases t.missedAt? X with
  | none => simp [beq_eq_decide]
  | some q' => by_cases hq : q' = q <;> simp [beq_eq_decide, hq]

theorem count_filled (t : Turn) (X : Addr) (q : CoherenceMessage) :
    (t.events X).count (.filled q) = (t.filledAt? X).toList.count q := by
  rw [List.count, t.countP_events]
  cases t.filledAt? X with
  | none => simp [beq_eq_decide]
  | some q' => by_cases hq : q' = q <;> simp [beq_eq_decide, hq]

namespace Plays

variable (h : t.Plays P place w place')

include h

theorem count_filledAt? :
    (t.filledAt? X).toList.count q = Multiset.count (X, q) t.filled := by
  rw [t.count_filled_eq, Turn.filledAt?, h.before.toFiled.fetching?_eq,
    h.before.toFiled.count_missing, serves_stageAt]
  split
  · cases missAt (place X) with
    | none => rfl
    | some m => by_cases hq : m.request = q <;> simp [hq]
  · rfl

/-- In the turn the misses under way and those that the turn counts go on or are filed. -/
theorem missing : (t.before.missing : Multiset (Addr × CoherenceMessage)) + t.missed?.toList
    = t.filled + t.after.missing := by
  ext ⟨X, q⟩
  rw [Multiset.count_add, Multiset.count_add, ← t.count_missedAt?]
  by_cases hX : P.lineOf X = X
  · have htends := (Sound.tends ⟨P, place, w, place', h⟩ (by rw [h.lineAddr, hX])).run
    have hserved := LineStage.count_served q htends
    rw [t.count_missed, t.count_filled, h.stage_before hX, h.stage_after hX,
      ← h.before.toFiled.count_missing, ← h.after.toFiled.count_missing,
      h.count_filledAt?] at hserved
    omega
  · -- a line of no bank is not missed
    have hmissed : t.missedAt? X = none := by
      rw [h.missedAt?_eq]
      refine Option.filter_eq_none_iff.2 fun q _ => ?_
      have hne : X ≠ P.lineOf q.addr := fun hX' => hX (by rw [hX', P.lineOf_lineOf])
      simp [hne]
    rw [hmissed, t.count_filled_eq, h.before.lineOf_missing hX, h.after.lineOf_missing hX, ite_self]
    rfl

/-- A miss is counted once, in the turn of its request. -/
theorem misses_eq :
    t.after.counters.misses = t.before.counters.misses + t.missed?.toList.length := by
  have hmisses := h.does.misses
  have hcopies := h.resolves.1
  rw [t.start_counters] at hmisses
  rw [Turn.missed?]
  simp only [h.missed_iff]
  rw [Deed.copies] at hcopies
  cases hq : t.request? with
  | none =>
    rw [hq] at hcopies
    simp only [Option.toList_none, List.countP_nil] at hcopies
    simp only [Option.map_none, ite_self, Option.toList_none, List.length_nil]
    omega
  | some q =>
    rw [hq] at hcopies
    have hone : [q].countP (fun q => !q.op.isEviction) ≤ 1 := List.countP_le_length
    simp only [Option.toList_some] at hcopies
    split <;> simp only [Option.map_some, Option.toList_some, Option.toList_none,
      List.length_singleton, List.length_nil] <;> omega

end Plays

end Turn

/-! ## Any number of turns -/

/-- The misses of the turns are those that the bank counts, and each is under way or filed. -/
structure Fetches (past : List Turn) (c : SharedBank) : Prop where
  counted : (past.filterMap Turn.missed?).length = c.counters.misses
  missing : (past.filterMap Turn.missed? : Multiset (Addr × CoherenceMessage))
    = past.flatMap Turn.filled + c.missing

variable {past : List Turn}

theorem Fetches.akin (h : Fetches past c) (ha : Akin c d) : Fetches past d where
  counted := by rw [ha.misses, h.counted]
  missing := by rw [h.missing, SharedBank.missing, SharedBank.missing, ha.mshr]

theorem Fetches.turn (h : Fetches past t.before) (ht : t.Sound) :
    Fetches (past ++ [t]) t.after := by
  obtain ⟨P, place, w, place', ht⟩ := ht
  constructor
  · rw [filterMap_concat, List.length_append, h.counted, ht.misses_eq]
  · rw [filterMap_concat, ← Multiset.coe_add, h.missing, add_assoc, ht.missing, List.flatMap_append,
      ← Multiset.coe_add, List.flatMap_singleton, add_assoc]

end SharedBank

end CacheCoherence
