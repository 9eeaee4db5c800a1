/-!
# Addresses — line, set index and tag

A byte address of a set-associative table splits into three fields, from the
low end: the offset within a line, the index of the set, and the tag. Every
table of the hierarchy is keyed by *line address*, the byte address with its
offset cleared. The fields are cut out by masks and shifts. As numbers they are
quotients and remainders, also where offset and index fill the whole word.
-/

namespace CacheCoherence

-- A power of a number is the built-in one, whatever else is in scope.
attribute [local instance (high)] instPowNat

/-- A 64-bit byte address. -/
abbrev Addr := UInt64

/-- Being a power of two, as a test: the highest power not above `n` is `n`. -/
def IsPowerOfTwo (n : Nat) : Prop := 2 ^ n.log2 = n

instance (n : Nat) : Decidable (IsPowerOfTwo n) :=
  inferInstanceAs (Decidable (2 ^ n.log2 = n))

theorem IsPowerOfTwo.log2_lt {n k : Nat} (h : IsPowerOfTwo n) (hn : n < 2 ^ k) :
    n.log2 < k := by
  rw [← h] at hn
  exact (Nat.pow_lt_pow_iff_right (by decide)).1 hn

/-- Every power of two passes the test. -/
theorem isPowerOfTwo_two_pow (k : Nat) : IsPowerOfTwo (2 ^ k) := by
  simp [IsPowerOfTwo, Nat.log2_two_pow]

/-! ## Why a table shape is refused -/

/-- What is wrong with the shape of a table. -/
inductive GeometryError where
  /-- A set would hold no line. -/
  | noWays
  /-- The line size is not a power of two. -/
  | lineSize (bytes : Nat)
  /-- The number of sets is not a power of two. -/
  | setCount (sets : Nat)
  /-- The bytes of one set do not fit a machine word. -/
  | setOverflow (ways lineBytes : Nat)
  /-- The capacity is zero or not a whole number of sets. -/
  | unevenSize (sizeBytes ways lineBytes : Nat)
deriving DecidableEq, Repr

/-- The text shown for a refused table shape. -/
def GeometryError.message : GeometryError → String
  | .noWays => "associativity must be at least 1"
  | .lineSize bytes => s!"line size {bytes} is not a power of two"
  | .setCount sets => s!"set count {sets} is not a power of two"
  | .setOverflow ways lineBytes => s!"{ways} ways x {lineBytes} bytes overflows"
  | .unevenSize sizeBytes ways lineBytes =>
      s!"size {sizeBytes} is not a multiple of {ways} ways x {lineBytes} bytes"

/-! ## The layout of a table -/

/-- How many low bits name the byte within a line, and how many above them
name the set. Both counts stay below the width of an address. -/
structure AddressLayout where
  offsetBits : Nat
  indexBits : Nat
  offsetBits_lt : offsetBits < 64
  indexBits_lt : indexBits < 64
deriving DecidableEq, Repr

namespace AddressLayout

/-- The layout of `sets` sets of `lineBytes`-byte lines. Both must be powers
of two; the line size is looked at first. -/
def ofShape? (lineBytes sets : UInt64) : Except GeometryError AddressLayout :=
  if hl : IsPowerOfTwo lineBytes.toNat then
    if hs : IsPowerOfTwo sets.toNat then
      .ok {
        offsetBits := lineBytes.toNat.log2
        indexBits := sets.toNat.log2
        offsetBits_lt := hl.log2_lt lineBytes.toNat_lt
        indexBits_lt := hs.log2_lt sets.toNat_lt }
    else .error (.setCount sets.toNat)
  else .error (.lineSize lineBytes.toNat)

/-- Bytes in a line. -/
def lineBytes (l : AddressLayout) : Nat := 2 ^ l.offsetBits

/-- Sets in the table. -/
def sets (l : AddressLayout) : Nat := 2 ^ l.indexBits

/-- The address of the line that holds `a`. -/
def lineAddr (l : AddressLayout) (a : Addr) : Addr := a &&& ~~~(UInt64.ofNat l.lineBytes - 1)

/-- The set that `a` falls into. -/
def setIndex (l : AddressLayout) (a : Addr) : Nat :=
  ((a >>> UInt64.ofNat l.offsetBits) &&& (UInt64.ofNat l.sets - 1)).toNat

/-- How many bits are below the tag. They may be more than an address has. -/
def tagShift (l : AddressLayout) : Nat := l.offsetBits + l.indexBits

/-- The word with exactly the tag bits set; zero when offset and index leave
no room for a tag. -/
def tagMask (l : AddressLayout) : Addr :=
  if 64 ≤ l.tagShift then 0 else ~~~0 <<< UInt64.ofNat l.tagShift

/-- What is left of `a` above offset and index. -/
def tag (l : AddressLayout) (a : Addr) : Nat :=
  if l.tagShift < 64 then ((a &&& l.tagMask) >>> UInt64.ofNat l.tagShift).toNat else 0

/-- An accepted shape is that of the layout. -/
theorem ofShape?_eq_ok {lineBytes sets : UInt64} {l : AddressLayout}
    (h : ofShape? lineBytes sets = .ok l) :
    l.lineBytes = lineBytes.toNat ∧ l.sets = sets.toNat := by
  unfold ofShape? at h
  split at h
  · next hline =>
    split at h
    · next hsets =>
      cases h
      exact ⟨hline, hsets⟩
    · cases h
  · cases h

theorem lineBytes_pos (l : AddressLayout) : 0 < l.lineBytes := Nat.two_pow_pos _

theorem sets_pos (l : AddressLayout) : 0 < l.sets := Nat.two_pow_pos _

theorem lineBytes_lt (l : AddressLayout) : l.lineBytes < UInt64.size :=
  Nat.pow_lt_pow_right (by decide) l.offsetBits_lt

/-! ## The fields, as numbers -/

theorem toNat_shiftRight_of_lt (a : Addr) {k : Nat} (hk : k < 64) :
    (a >>> UInt64.ofNat k).toNat = a.toNat / 2 ^ k := by
  rw [UInt64.toNat_shiftRight, UInt64.toNat_ofNat_of_lt' (Nat.lt_trans hk (by decide)),
    Nat.mod_eq_of_lt hk, Nat.shiftRight_eq_div_pow]

/-- A power of two less one, as a word: the mask of the bits below it. -/
theorem toNat_lowMask {k : Nat} (hk : k < 64) :
    (UInt64.ofNat (2 ^ k) - 1).toNat = 2 ^ k - 1 := by
  have hlt : 2 ^ k < UInt64.size := Nat.pow_lt_pow_right (by decide) hk
  have hto : (UInt64.ofNat (2 ^ k)).toNat = 2 ^ k := UInt64.toNat_ofNat_of_lt' hlt
  have hle : (1 : UInt64) ≤ UInt64.ofNat (2 ^ k) := by
    rw [UInt64.le_iff_toNat_le, hto]
    exact Nat.two_pow_pos k
  rw [UInt64.toNat_sub_of_le _ _ hle, hto]
  rfl

/-- Clearing the bits below the `k`-th takes the remainder away. -/
theorem and_highMask (n : Nat) {k : Nat} (hn : n < UInt64.size) (hk : k < 64) :
    n &&& (UInt64.size - 2 ^ k) = n - n % 2 ^ k := by
  show n &&& (2 ^ 64 - 2 ^ k) = n - n % 2 ^ k
  have hsplit : n - n % 2 ^ k = (n / 2 ^ k) <<< k := by
    rw [Nat.shiftLeft_eq, Nat.mul_comm]
    have := Nat.div_add_mod n (2 ^ k)
    omega
  have hmask : 2 ^ 64 - 2 ^ k = 2 ^ 64 - ((2 ^ k - 1) + 1) := by
    have := Nat.two_pow_pos k
    omega
  have hlt : 2 ^ k - 1 < 2 ^ 64 := by
    have : 2 ^ k < 2 ^ 64 := Nat.pow_lt_pow_right (by decide) hk
    omega
  rw [hsplit, hmask]
  refine Nat.eq_of_testBit_eq fun i => ?_
  rw [Nat.testBit_and, Nat.testBit_two_pow_sub_succ hlt, Nat.testBit_two_pow_sub_one,
    Nat.testBit_shiftLeft, Nat.testBit_div_two_pow]
  -- beyond the width of a word the number has no bits
  by_cases hi : i < 64
  · by_cases hki : k ≤ i
    · simp [hi, hki, Nat.not_lt.2 hki, Nat.sub_add_cancel hki]
    · simp [hki, Nat.lt_of_not_le hki]
  · have hzero : n.testBit i = false :=
      Nat.testBit_lt_two_pow (Nat.lt_of_lt_of_le (show n < 2 ^ 64 from hn)
        (Nat.pow_le_pow_right (by decide) (Nat.le_of_not_lt hi)))
    by_cases hki : k ≤ i <;> simp [hzero, hki, Nat.sub_add_cancel]

/-- The line address, as a number: the address less its offset. -/
theorem toNat_lineAddr (l : AddressLayout) (a : Addr) :
    (l.lineAddr a).toNat = a.toNat - a.toNat % l.lineBytes := by
  have hmask : (~~~(UInt64.ofNat l.lineBytes - 1)).toNat = UInt64.size - 2 ^ l.offsetBits := by
    rw [UInt64.toNat_not, lineBytes, toNat_lowMask l.offsetBits_lt]
    have := Nat.two_pow_pos l.offsetBits
    omega
  rw [lineAddr, UInt64.toNat_and, hmask, and_highMask _ a.toNat_lt l.offsetBits_lt, lineBytes]

/-- It is the address of the line's first byte. -/
theorem toNat_lineAddr_eq_mul (l : AddressLayout) (a : Addr) :
    (l.lineAddr a).toNat = l.lineBytes * (a.toNat / l.lineBytes) := by
  have := Nat.div_add_mod a.toNat l.lineBytes
  rw [toNat_lineAddr]
  omega

/-- The set index, as a number: the remainder of the line's number by the number of sets. -/
theorem setIndex_eq (l : AddressLayout) (a : Addr) :
    l.setIndex a = a.toNat / l.lineBytes % l.sets := by
  rw [setIndex, UInt64.toNat_and, sets, toNat_lowMask l.indexBits_lt,
    toNat_shiftRight_of_lt a l.offsetBits_lt, Nat.and_two_pow_sub_one_eq_mod, lineBytes]

/-- The tag, as a number: the quotient of the line's number by the number of sets. It is zero
where offset and index reach the width of an address. -/
theorem tag_eq (l : AddressLayout) (a : Addr) : l.tag a = a.toNat / 2 ^ l.tagShift := by
  by_cases h : l.tagShift < 64
  · have hmask : l.tagMask.toNat = UInt64.size - 2 ^ l.tagShift := by
      have hlt : 2 ^ l.tagShift < 2 ^ 64 := Nat.pow_lt_pow_right (by decide) h
      have hpos := Nat.two_pow_pos l.tagShift
      rw [tagMask, if_neg (Nat.not_le.2 h), UInt64.toNat_shiftLeft,
        UInt64.toNat_ofNat_of_lt' (Nat.lt_trans h (by decide)), Nat.mod_eq_of_lt h,
        Nat.shiftLeft_eq]
      show (2 ^ 64 - 1) * 2 ^ l.tagShift % 2 ^ 64 = 2 ^ 64 - 2 ^ l.tagShift
      have heq : (2 ^ 64 - 1) * 2 ^ l.tagShift
          = (2 ^ 64 - 2 ^ l.tagShift) + 2 ^ 64 * (2 ^ l.tagShift - 1) := by
        omega
      rw [heq, Nat.add_mul_mod_self_left, Nat.mod_eq_of_lt (by omega)]
    rw [tag, if_pos h, toNat_shiftRight_of_lt _ h, UInt64.toNat_and, hmask,
      and_highMask _ a.toNat_lt h]
    have hsplit : a.toNat - a.toNat % 2 ^ l.tagShift
        = 2 ^ l.tagShift * (a.toNat / 2 ^ l.tagShift) := by
      have := Nat.div_add_mod a.toNat (2 ^ l.tagShift)
      omega
    rw [hsplit, Nat.mul_div_cancel_left _ (Nat.two_pow_pos _)]
  · rw [tag, if_neg h, Nat.div_eq_of_lt]
    exact Nat.lt_of_lt_of_le a.toNat_lt (Nat.pow_le_pow_right (by decide) (Nat.le_of_not_lt h))

/-- Every address falls into a set of the table. -/
theorem setIndex_lt (l : AddressLayout) (a : Addr) : l.setIndex a < l.sets := by
  rw [setIndex_eq]
  exact Nat.mod_lt _ l.sets_pos

/-- The line address, by the remainder of words. -/
theorem lineAddr_eq_sub (l : AddressLayout) (a : Addr) :
    l.lineAddr a = a - a % UInt64.ofNat l.lineBytes := by
  have hb : (UInt64.ofNat l.lineBytes).toNat = l.lineBytes :=
    UInt64.toNat_ofNat_of_lt' l.lineBytes_lt
  have hle : a % UInt64.ofNat l.lineBytes ≤ a := by
    rw [UInt64.le_iff_toNat_le, UInt64.toNat_mod]
    exact Nat.mod_le _ _
  refine UInt64.toNat.inj ?_
  rw [toNat_lineAddr, UInt64.toNat_sub_of_le _ _ hle, UInt64.toNat_mod, hb]

end AddressLayout

end CacheCoherence
