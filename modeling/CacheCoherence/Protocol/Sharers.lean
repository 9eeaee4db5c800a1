import CacheCoherence.Packet
import CacheCoherence.Protocol.BitWords

/-!
# Sharers — the set of clients that hold a line

A finite set of node ids, kept as bit words: every id that there can be has a bit, and there are no
more words than the largest member asks for. The words are a canonical form: two sets with the same
members are equal, however they came about.
-/

namespace CacheCoherence

instance : LT NodeId := ⟨fun a b => a.index < b.index⟩

instance (a b : NodeId) : Decidable (a < b) := inferInstanceAs (Decidable (a.index < b.index))

theorem NodeId.lt_iff_toNat_lt {a b : NodeId} : a < b ↔ a.index.toNat < b.index.toNat :=
  UInt32.lt_iff_toNat_lt

theorem NodeId.toNat_index_inj {a b : NodeId} : a.index.toNat = b.index.toNat ↔ a = b := by
  rw [UInt32.toNat_inj, NodeId.mk.injEq]

/-- A finite set of clients. -/
structure SharerSet where
  /-- A bit for each id, up to that of the largest member. -/
  words : Array UInt64
  /-- Every bit is that of an id. -/
  size_le : words.size * 64 ≤ UInt32.size
  /-- There is no word beyond that of the largest member. -/
  trimmed : words.back? ≠ some 0
deriving DecidableEq, Repr

namespace SharerSet

/-- The set without members. -/
def empty : SharerSet := { words := #[], size_le := by decide, trimmed := by decide }

instance : Inhabited SharerSet := ⟨empty⟩

/-- The set with `n` added. -/
def insert (s : SharerSet) (n : NodeId) : SharerSet where
  words := BitWords.insert s.words n.index.toNat
  size_le := by
    have hid : n.index.toNat < UInt32.size := n.index.toNat_lt
    have hsize : UInt32.size = 67108864 * 64 := rfl
    have := s.size_le
    rw [BitWords.size_insert]
    omega
  trimmed := BitWords.back?_insert s.trimmed _

/-- The set without `n`. -/
def erase (s : SharerSet) (n : NodeId) : SharerSet where
  words := BitWords.erase s.words n.index.toNat
  size_le := Nat.le_trans (Nat.mul_le_mul_right 64 (BitWords.size_erase_le _ _)) s.size_le
  trimmed := BitWords.back?_erase s.trimmed _

/-- Whether `n` is a member. -/
def contains (s : SharerSet) (n : NodeId) : Bool := BitWords.contains s.words n.index.toNat

/-- Adds `n` and tells whether it was missing before. -/
def add (s : SharerSet) (n : NodeId) : Bool × SharerSet := (!s.contains n, s.insert n)

/-- Removes `n` and tells whether it was there. -/
def remove (s : SharerSet) (n : NodeId) : Bool × SharerSet := (s.contains n, s.erase n)

/-- How many members the set has. -/
def size (s : SharerSet) : Nat := BitWords.count s.words

/-- Whether the set has no members. -/
def isEmpty (s : SharerSet) : Bool := s.words.all (· == 0)

/-- The members in ascending order. The id of a bit is computed with the words that ids are. -/
def members (s : SharerSet) : List NodeId :=
  s.words.toList.zipIdx.flatMap fun (w, i) =>
    ((List.range 64).filter (BitWords.marks w)).map fun b =>
      { index := UInt32.ofNat i * 64 + UInt32.ofNat b }

/-- The set of the ids in a list. -/
def ofList (ids : List NodeId) : SharerSet := ids.foldl insert empty

/-- The members other than `n`, in ascending order. -/
def others (s : SharerSet) (n : NodeId) : List NodeId := s.members.filter (· ≠ n)

/-! ## Membership -/

@[simp] theorem contains_empty (n : NodeId) : empty.contains n = false :=
  BitWords.contains_empty _

@[simp] theorem contains_insert (s : SharerSet) (n m : NodeId) :
    (s.insert n).contains m = (m == n || s.contains m) := by
  have heq : (m.index.toNat == n.index.toNat) = (m == n) := by
    rw [Bool.eq_iff_iff, beq_iff_eq, beq_iff_eq, NodeId.toNat_index_inj]
  rw [contains, insert, BitWords.contains_insert, heq]
  rfl

@[simp] theorem contains_erase (s : SharerSet) (n m : NodeId) :
    (s.erase n).contains m = (m != n && s.contains m) := by
  have heq : (m.index.toNat != n.index.toNat) = (m != n) := by
    rw [Bool.eq_iff_iff, bne_iff_ne, bne_iff_ne, Ne, NodeId.toNat_index_inj]
  rw [contains, erase, BitWords.contains_erase, heq]
  rfl

/-! ## The members, as numbers -/

/-- What the words hold are numbers of ids. -/
theorem lt_of_mem_positions {s : SharerSet} {k : Nat} (h : k ∈ BitWords.positions s.words) :
    k < UInt32.size := by
  have hsize := BitWords.div_lt_size (BitWords.mem_positions.1 h)
  have := s.size_le
  omega

theorem ofNat_position (i b : Nat) :
    UInt32.ofNat i * 64 + UInt32.ofNat b = UInt32.ofNat (i * 64 + b) := by
  rw [UInt32.ofNat_add, UInt32.ofNat_mul]
  rfl

theorem members_eq (s : SharerSet) : s.members
    = (BitWords.positions s.words).map fun k => { index := UInt32.ofNat k } := by
  rw [members, BitWords.positions, List.map_flatMap]
  simp only [List.map_map, Function.comp_def, ofNat_position]

/-- No id overflows: as numbers, the members are what the words hold. -/
theorem map_toNat_members (s : SharerSet) :
    s.members.map (·.index.toNat) = BitWords.positions s.words := by
  rw [members_eq, List.map_map]
  refine (List.map_congr_left fun k hk => ?_).trans (List.map_id _)
  exact UInt32.toNat_ofNat_of_lt' (lt_of_mem_positions hk)

theorem mem_members {s : SharerSet} {n : NodeId} : n ∈ s.members ↔ s.contains n = true := by
  rw [contains, ← BitWords.mem_positions, ← map_toNat_members, List.mem_map]
  constructor
  · exact fun h => ⟨n, h, rfl⟩
  · rintro ⟨m, hm, heq⟩
    rwa [← NodeId.toNat_index_inj.1 heq]

theorem ascending (s : SharerSet) : s.members.Pairwise (· < ·) := by
  have h := BitWords.pairwise_positions s.words
  rw [← map_toNat_members, List.pairwise_map] at h
  exact h.imp NodeId.lt_iff_toNat_lt.2

theorem nodup (s : SharerSet) : s.members.Nodup :=
  s.ascending.imp fun {a b} hlt heq => by
    subst heq
    exact Nat.lt_irrefl _ hlt

theorem size_eq (s : SharerSet) : s.size = s.members.length := by
  rw [size, ← BitWords.length_positions, ← map_toNat_members, List.length_map]

theorem size_eq_zero_iff {s : SharerSet} : s.size = 0 ↔ s.members = [] := by
  rw [size_eq, List.length_eq_zero_iff]

@[simp] theorem members_empty : empty.members = [] := rfl

@[simp] theorem size_empty : empty.size = 0 := by
  rw [size_eq_zero_iff, members_empty]

@[simp] theorem mem_members_insert {s : SharerSet} {n m : NodeId} :
    m ∈ (s.insert n).members ↔ m = n ∨ m ∈ s.members := by
  simp [mem_members]

/-- A set is determined by its members. -/
theorem ext_members {s t : SharerSet} (h : ∀ n, n ∈ s.members ↔ n ∈ t.members) : s = t := by
  have hwords : s.words = t.words := by
    refine BitWords.ext_contains s.trimmed t.trimmed fun k => ?_
    by_cases hk : k < UInt32.size
    · have hn := h { index := UInt32.ofNat k }
      rwa [mem_members, mem_members, ← Bool.eq_iff_iff, contains, contains,
        UInt32.toNat_ofNat_of_lt' hk] at hn
    · -- a number that is none of an id is not held
      have hnot (u : SharerSet) : BitWords.contains u.words k = false := by
        rw [Bool.eq_false_iff]
        exact fun hu => hk (lt_of_mem_positions (BitWords.mem_positions.2 hu))
      rw [hnot s, hnot t]
  cases s
  cases t
  cases hwords
  rfl

theorem eq_empty_iff {s : SharerSet} : s = empty ↔ s.members = [] := by
  constructor
  · rintro rfl
    rfl
  · intro h
    exact ext_members fun n => by rw [h, members_empty]

theorem isEmpty_iff {s : SharerSet} : s.isEmpty = true ↔ s = empty := by
  constructor
  · intro h
    refine eq_empty_iff.2 (List.eq_nil_iff_forall_not_mem.2 fun n hn => ?_)
    rw [mem_members, contains, BitWords.contains_eq] at hn
    have hzero : BitWords.wordAt s.words (n.index.toNat / 64) = 0 := by
      rw [BitWords.wordAt]
      cases hw : s.words[n.index.toNat / 64]? with
      | none => rfl
      | some w => exact eq_of_beq (Array.all_eq_true'.1 h w (Array.mem_of_getElem? hw))
    rw [hzero, BitWords.marks_zero] at hn
    cases hn
  · rintro rfl
    simp [isEmpty, empty]

end SharerSet

end CacheCoherence
