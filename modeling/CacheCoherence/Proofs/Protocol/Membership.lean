import CacheCoherence.Protocol.Sharers
import Mathlib.Data.Finset.Card
import Mathlib.Data.List.Count

/-!
# Membership — a sharer set is a finite set of ids

A sharer set is asked for its members and changed one member at a time, emptied, or collected anew
from a list. Whatever is done to it, it answers as a finite set of ids would, and lists just the
members of that set. Its words grow and shrink on the way, but they keep no trace of it: two sets
with the same members have the same words.
-/

namespace CacheCoherence

/-! ## Calls and answers -/

/-- A call on a set of clients. -/
inductive SharerCall where
  | insert (n : NodeId)
  | remove (n : NodeId)
  | clear
  /-- A new set takes the place of the old one. -/
  | collect (ids : List NodeId)

/-- The answers to calls, one after another, and the set after them. Not every call has one. -/
def SharerCall.answers {σ : Type} (answer : σ → SharerCall → Option Bool × σ) (s : σ) :
    List SharerCall → List (Option Bool) × σ
  | [] => ([], s)
  | c :: rest =>
      let (told, s) := answer s c
      let (others, s) := answers answer s rest
      (told :: others, s)

namespace SharerSet

variable {s t : SharerSet} {m : Finset NodeId}

/-- A sharer set answers a call. -/
def answer (s : SharerSet) : SharerCall → Option Bool × SharerSet
  | .insert n => (s.add n).map some id
  | .remove n => (s.remove n).map some id
  | .clear => (none, empty)
  | .collect ids => (none, ofList ids)

/-- A finite set answers a call. -/
def answerOf (m : Finset NodeId) : SharerCall → Option Bool × Finset NodeId
  | .insert n => (some (n ∉ m), Insert.insert n m)
  | .remove n => (some (n ∈ m), m.erase n)
  | .clear => (none, ∅)
  | .collect ids => (none, ids.toFinset)

/-- The sharer set after some calls. -/
def after (calls : List SharerCall) : SharerSet := (SharerCall.answers answer empty calls).2

/-- The finite set after some calls. -/
def membersAfter (calls : List SharerCall) : Finset NodeId :=
  (SharerCall.answers answerOf ∅ calls).2

/-! ## One call -/

/-- The set has just the members `m`. -/
def Represents (s : SharerSet) (m : Finset NodeId) : Prop := ∀ n, s.contains n = true ↔ n ∈ m

theorem contains_foldl_insert (ids : List NodeId) (s : SharerSet) (n : NodeId) :
    (ids.foldl insert s).contains n = true ↔ n ∈ ids ∨ s.contains n = true := by
  induction ids generalizing s with
  | nil => simp
  | cons c rest ih =>
    rw [List.foldl_cons, ih, contains_insert, List.mem_cons, Bool.or_eq_true, beq_iff_eq]
    tauto

theorem represents_empty : empty.Represents ∅ := fun n => by simp

theorem represents_ofList (ids : List NodeId) : (ofList ids).Represents ids.toFinset := fun n => by
  rw [ofList, contains_foldl_insert, contains_empty, List.mem_toFinset]
  simp

theorem Represents.insert (h : s.Represents m) (n : NodeId) :
    (s.insert n).Represents (Insert.insert n m) := fun c => by
  rw [contains_insert, Bool.or_eq_true, beq_iff_eq, h c, Finset.mem_insert]

theorem Represents.erase (h : s.Represents m) (n : NodeId) :
    (s.erase n).Represents (m.erase n) := fun c => by
  rw [contains_erase, Bool.and_eq_true, bne_iff_ne, h c, Finset.mem_erase]

theorem Represents.contains_eq (h : s.Represents m) (n : NodeId) :
    s.contains n = decide (n ∈ m) := by
  rw [Bool.eq_iff_iff, decide_eq_true_iff]
  exact h n

/-- Both answer a call alike, and are alike after it. -/
theorem Represents.answer (h : s.Represents m) (c : SharerCall) :
    (s.answer c).1 = (answerOf m c).1 ∧ (s.answer c).2.Represents (answerOf m c).2 := by
  cases c with
  | insert n =>
    refine ⟨?_, h.insert n⟩
    show some (!s.contains n) = some (decide (n ∉ m))
    rw [h.contains_eq n, decide_not]
  | remove n => exact ⟨congrArg some (h.contains_eq n), h.erase n⟩
  | clear => exact ⟨rfl, represents_empty⟩
  | collect ids => exact ⟨rfl, represents_ofList ids⟩

/-! ## All calls -/

theorem Represents.answers (h : s.Represents m) (calls : List SharerCall) :
    (SharerCall.answers SharerSet.answer s calls).1 = (SharerCall.answers answerOf m calls).1 ∧
      (SharerCall.answers SharerSet.answer s calls).2.Represents
        (SharerCall.answers answerOf m calls).2 := by
  induction calls generalizing s m with
  | nil => exact ⟨rfl, h⟩
  | cons c rest ih =>
    obtain ⟨htold, hnext⟩ := h.answer c
    obtain ⟨hothers, hlast⟩ := ih hnext
    exact ⟨congrArg₂ List.cons htold hothers, hlast⟩

theorem represents_after (calls : List SharerCall) :
    (after calls).Represents (membersAfter calls) :=
  (represents_empty.answers calls).2

/-- Sets with the same members are equal. -/
theorem Represents.eq_iff {p : Finset NodeId} (hs : s.Represents m) (ht : t.Represents p) :
    s = t ↔ m = p := by
  constructor
  · rintro rfl
    ext n
    rw [← hs n, ht n]
  · rintro rfl
    exact ext_members fun n => by rw [mem_members, mem_members, hs n, ht n]

/-! ## What a set tells -/

/-- Whatever is asked of the set, it tells the truth about `m`. -/
structure Tells (s : SharerSet) (m : Finset NodeId) : Prop where
  contains : ∀ n, s.contains n = decide (n ∈ m)
  size : s.size = m.card
  isEmpty : s.isEmpty = decide (m = ∅)
  /-- The members are listed in ascending order, ... -/
  ascending : s.members.Pairwise (· < ·)
  /-- ... each of them once and nobody else, ... -/
  once : ∀ n, s.members.count n = if n ∈ m then 1 else 0
  /-- ... and the number of no bit overflows the word that an id is. -/
  exact : ∀ i < s.words.size, ∀ b < 64,
    (UInt32.ofNat i * 64 + UInt32.ofNat b).toNat = i * 64 + b

theorem size_eq_card (s : SharerSet) : s.size = s.members.toFinset.card := by
  rw [size_eq, List.toFinset_card_of_nodup s.nodup]

/-- The id of every bit is its number. -/
theorem toNat_index (s : SharerSet) {i b : Nat} (hi : i < s.words.size) (hb : b < 64) :
    (UInt32.ofNat i * 64 + UInt32.ofNat b).toNat = i * 64 + b := by
  have hlt : i * 64 + b < UInt32.size := by
    have := s.size_le
    omega
  rw [ofNat_position, UInt32.toNat_ofNat_of_lt' hlt]

theorem Represents.tells (h : s.Represents m) : s.Tells m where
  contains := h.contains_eq
  size := by
    have hmembers : s.members.toFinset = m := by
      ext n
      rw [List.mem_toFinset, mem_members, h n]
    rw [size_eq_card, hmembers]
  isEmpty := by
    rw [Bool.eq_iff_iff, decide_eq_true_iff, isEmpty_iff]
    exact h.eq_iff represents_empty
  ascending := s.ascending
  once n := by
    rw [s.nodup.count]
    simp only [mem_members, h n]
  exact i hi b hb := s.toNat_index hi hb

/-- Whatever calls are made, a sharer set and a finite set of ids answer them alike and have the
same members in the end, and two sharer sets are equal, word by word, exactly if their members
are the same, whatever their histories. -/
theorem refines_finset :
    (∀ calls, (SharerCall.answers answer empty calls).1 = (SharerCall.answers answerOf ∅ calls).1 ∧
      (after calls).Tells (membersAfter calls)) ∧
    ∀ calls others, (after calls = after others ↔ membersAfter calls = membersAfter others) ∧
      ((after calls).words = (after others).words ↔ membersAfter calls = membersAfter others) := by
  refine ⟨fun calls => ⟨(represents_empty.answers calls).1, (represents_after calls).tells⟩,
    fun calls others => ?_⟩
  have heq := (represents_after calls).eq_iff (represents_after others)
  refine ⟨heq, ?_⟩
  rw [← heq]
  exact ⟨fun hwords => ext_members fun n => by rw [mem_members, mem_members, contains, hwords]; rfl,
    fun hsets => by rw [hsets]⟩

-- The words of client 130 go with it.
example : (after [.insert ⟨2⟩, .insert ⟨130⟩, .remove ⟨130⟩]).words
    = (after [.collect [⟨2⟩]]).words := by
  cbv

end SharerSet

end CacheCoherence
