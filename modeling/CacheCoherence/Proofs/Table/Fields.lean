import CacheCoherence.Address

/-!
# Fields — how an address falls apart

Behind the masks and shifts of a layout is one division with remainder after the other: an address
by the line size, and the number of its line by the number of sets. So nothing is lost, and no two
lines share tag and set, whether or not offset and index leave room for a tag.
-/

namespace CacheCoherence

attribute [local instance (high)] instPowNat

theorem isPowerOfTwo_iff {n : Nat} : IsPowerOfTwo n ↔ ∃ k : Nat, n = 2 ^ k := by
  constructor
  · exact fun h => ⟨n.log2, h.symm⟩
  · rintro ⟨k, rfl⟩
    exact isPowerOfTwo_two_pow k

namespace AddressLayout

variable {l : AddressLayout} {lineBytes sets : UInt64}

/-! ## Line numbers -/

/-- The tag is the number of the line, divided by the number of sets. -/
theorem tag_eq_div (l : AddressLayout) (a : Addr) :
    l.tag a = a.toNat / l.lineBytes / l.sets := by
  rw [tag_eq, Nat.div_div_eq_div_mul, lineBytes, AddressLayout.sets, ← Nat.pow_add, tagShift]

theorem lineAddr_le (l : AddressLayout) (a : Addr) : (l.lineAddr a).toNat ≤ a.toNat := by
  rw [toNat_lineAddr]
  exact Nat.sub_le ..

theorem lt_lineAddr_add (l : AddressLayout) (a : Addr) :
    a.toNat < (l.lineAddr a).toNat + l.lineBytes := by
  have hmod := Nat.mod_lt a.toNat l.lineBytes_pos
  rw [toNat_lineAddr]
  omega

/-- The number that a tag and a set are the fields of. -/
theorem mul_add_mul_eq (l : AddressLayout) (tag set : Nat) :
    tag * 2 ^ (l.offsetBits + l.indexBits) + set * 2 ^ l.offsetBits
      = l.lineBytes * (l.sets * tag + set) := by
  rw [lineBytes, AddressLayout.sets, Nat.pow_add, Nat.mul_add, Nat.mul_comm set, Nat.mul_comm tag,
    Nat.mul_assoc]

theorem lineAddr_recompose (l : AddressLayout) (a : Addr) : (l.lineAddr a).toNat
    = l.tag a * 2 ^ (l.offsetBits + l.indexBits) + l.setIndex a * 2 ^ l.offsetBits := by
  rw [mul_add_mul_eq, tag_eq_div, setIndex_eq, Nat.div_add_mod, toNat_lineAddr_eq_mul]

/-- Two addresses with the same fields are of one line, and the other way round. -/
theorem same_line_iff (l : AddressLayout) (a b : Addr) :
    l.tag a = l.tag b ∧ l.setIndex a = l.setIndex b ↔ l.lineAddr a = l.lineAddr b := by
  constructor
  · rintro ⟨htag, hset⟩
    refine UInt64.toNat.inj ?_
    rw [lineAddr_recompose, lineAddr_recompose, htag, hset]
  · intro hline
    have hnumber : a.toNat / l.lineBytes = b.toNat / l.lineBytes := by
      have hmul := congrArg UInt64.toNat hline
      rw [toNat_lineAddr_eq_mul, toNat_lineAddr_eq_mul] at hmul
      exact Nat.eq_of_mul_eq_mul_left l.lineBytes_pos hmul
    rw [tag_eq_div, tag_eq_div, setIndex_eq, setIndex_eq, hnumber]
    exact ⟨rfl, rfl⟩

/-- A tag and a set whose number is an address are the fields of that address. -/
theorem exists_line (l : AddressLayout) {tag set : Nat} (hset : set < l.sets)
    (hfits : tag * 2 ^ (l.offsetBits + l.indexBits) + set * 2 ^ l.offsetBits < UInt64.size) :
    ∃ a, l.tag a = tag ∧ l.setIndex a = set := by
  refine ⟨UInt64.ofNat (tag * 2 ^ (l.offsetBits + l.indexBits) + set * 2 ^ l.offsetBits), ?_⟩
  rw [tag_eq_div, setIndex_eq, UInt64.toNat_ofNat_of_lt' hfits, mul_add_mul_eq,
    Nat.mul_div_cancel_left _ l.lineBytes_pos, Nat.mul_add_div l.sets_pos,
    Nat.div_eq_of_lt hset, Nat.mul_add_mod, Nat.mod_eq_of_lt hset]
  exact ⟨Nat.add_zero tag, rfl⟩

/-! ## Accepted shapes -/

/-- Exactly the powers of two make a layout. -/
theorem exists_ofShape?_iff : (∃ l, ofShape? lineBytes sets = .ok l) ↔
    (∃ i : Nat, lineBytes.toNat = 2 ^ i) ∧ ∃ j : Nat, sets.toNat = 2 ^ j := by
  rw [← isPowerOfTwo_iff, ← isPowerOfTwo_iff]
  constructor
  · rintro ⟨l, hl⟩
    obtain ⟨hline, hsets⟩ := ofShape?_eq_ok hl
    rw [← hline, ← hsets]
    exact ⟨isPowerOfTwo_two_pow _, isPowerOfTwo_two_pow _⟩
  · rintro ⟨hline, hsets⟩
    rw [ofShape?, dif_pos hline, dif_pos hsets]
    exact ⟨_, rfl⟩

/-- The layout splits every address into its line and the rest, and names the lines by tag and set,
one to one. -/
structure Splits (l : AddressLayout) (lineBytes sets : Nat) : Prop where
  offset : 2 ^ l.offsetBits = lineBytes
  index : 2 ^ l.indexBits = sets
  /-- An address is in its line. -/
  le : ∀ a, (l.lineAddr a).toNat ≤ a.toNat
  lt_add : ∀ a, a.toNat < (l.lineAddr a).toNat + lineBytes
  /-- The line is put together again from its fields. -/
  recompose : ∀ a, (l.lineAddr a).toNat
    = l.tag a * 2 ^ (l.offsetBits + l.indexBits) + l.setIndex a * 2 ^ l.offsetBits
  setIndex_lt : ∀ a, l.setIndex a < sets
  same_line : ∀ a b,
    l.tag a = l.tag b ∧ l.setIndex a = l.setIndex b ↔ l.lineAddr a = l.lineAddr b
  /-- No tag that fits is left out. -/
  onto : ∀ tag set, set < sets →
    tag * 2 ^ (l.offsetBits + l.indexBits) + set * 2 ^ l.offsetBits < UInt64.size →
    ∃ a, l.tag a = tag ∧ l.setIndex a = set

theorem splits (l : AddressLayout) : l.Splits l.lineBytes l.sets where
  offset := rfl
  index := rfl
  le := l.lineAddr_le
  lt_add := l.lt_lineAddr_add
  recompose := l.lineAddr_recompose
  setIndex_lt := l.setIndex_lt
  same_line := l.same_line_iff
  onto _ _ hset hfits := l.exists_line hset hfits

theorem splits_of_ofShape? (h : ofShape? lineBytes sets = .ok l) :
    l.Splits lineBytes.toNat sets.toNat := by
  obtain ⟨hline, hsets⟩ := ofShape?_eq_ok h
  rw [← hline, ← hsets]
  exact l.splits

end AddressLayout

end CacheCoherence
