/-!
# Bit words — sets of numbers, packed into machine words

Bit `b` of word `i` of an array stands for the number `64 * i + b`. The array is as long as the
largest number asks for: putting a number in lengthens it, and taking one out drops the words at its
end that have become zero. An array without zero words at its end is determined by the numbers that
it holds.
-/

namespace CacheCoherence

-- A power of a number is the built-in one, whatever else is in scope.
attribute [local instance (high)] instPowNat

namespace BitWords

/-- The word with only bit `b` set. -/
def mask (b : Nat) : UInt64 := 1 <<< UInt64.ofNat b

/-- Whether bit `b` of `w` is set. -/
def marks (w : UInt64) (b : Nat) : Bool := w &&& mask b != 0

/-- How many bits of `w` are set. -/
def ones (w : UInt64) : Nat := w.toBitVec.cpop.toNat

/-- How many bits are set in all words. -/
def count (ws : Array UInt64) : Nat := ws.foldl (fun n w => n + ones w) 0

/-- Whether the words hold the number `k`. -/
def contains (ws : Array UInt64) (k : Nat) : Bool := ws[k / 64]?.any (marks · (k % 64))

/-- The words with `k` put in, lengthened as far as it takes. -/
def insert (ws : Array UInt64) (k : Nat) : Array UInt64 :=
  (ws.rightpad (k / 64 + 1) 0).modify (k / 64) (· ||| mask (k % 64))

/-- The words with `k` taken out, without zero words at their end. -/
def erase (ws : Array UInt64) (k : Nat) : Array UInt64 :=
  if contains ws k then
    (ws.modify (k / 64) (· &&& ~~~mask (k % 64))).popWhile (· == 0)
  else ws

/-- The numbers that the words hold, in ascending order. -/
def positions (ws : Array UInt64) : List Nat :=
  ws.toList.zipIdx.flatMap fun (w, i) => ((List.range 64).filter (marks w)).map (i * 64 + ·)

/-- The word at `i`; beyond the array all words are zero. -/
def wordAt (ws : Array UInt64) (i : Nat) : UInt64 := ws[i]?.getD 0

/-! ## One word -/

theorem toNat_mask {b : Nat} (hb : b < 64) : (mask b).toNat = 2 ^ b := by
  have hlt : 2 ^ b < 2 ^ 64 := Nat.pow_lt_pow_right (by decide) hb
  rw [mask, UInt64.toNat_shiftLeft, UInt64.toNat_ofNat_of_lt' (Nat.lt_trans hb (by decide)),
    Nat.mod_eq_of_lt hb, Nat.shiftLeft_eq, UInt64.toNat_one, Nat.one_mul, Nat.mod_eq_of_lt hlt]

theorem marks_eq (w : UInt64) {b : Nat} (hb : b < 64) : marks w b = w.toNat.testBit b := by
  have hzero : w &&& mask b = 0 ↔ w.toNat.testBit b = false := by
    rw [← UInt64.toNat_inj, UInt64.toNat_and, toNat_mask hb, UInt64.toNat_zero]
    constructor
    · intro h
      have hbit := congrArg (·.testBit b) h
      simpa [Nat.testBit_two_pow] using hbit
    · intro h
      refine Nat.eq_of_testBit_eq fun i => ?_
      by_cases hi : b = i
      · subst hi
        simp [h]
      · simp [hi]
  cases h : w.toNat.testBit b
  · simp [marks, hzero.2 h]
  · have hne : w &&& mask b ≠ 0 := fun heq => by
      rw [hzero.1 heq] at h
      cases h
    simp [marks, hne]

theorem marks_zero (b : Nat) : marks 0 b = false := by simp [marks]

theorem marks_or (w : UInt64) {b c : Nat} (hb : b < 64) (hc : c < 64) :
    marks (w ||| mask c) b = (b == c || marks w b) := by
  rw [marks_eq _ hb, marks_eq _ hb, UInt64.toNat_or, toNat_mask hc, Nat.testBit_or,
    Nat.testBit_two_pow, Bool.or_comm]
  congr 1
  rw [Bool.eq_iff_iff, beq_iff_eq, decide_eq_true_iff]
  exact eq_comm

theorem marks_and_not (w : UInt64) {b c : Nat} (hb : b < 64) (hc : c < 64) :
    marks (w &&& ~~~mask c) b = (b != c && marks w b) := by
  have hlt : 2 ^ c < 2 ^ 64 := Nat.pow_lt_pow_right (by decide) hc
  have hnot : (~~~mask c).toNat = 2 ^ 64 - (2 ^ c + 1) := by
    rw [UInt64.toNat_not, toNat_mask hc]
    show 2 ^ 64 - 1 - 2 ^ c = _
    omega
  rw [marks_eq _ hb, marks_eq _ hb, UInt64.toNat_and, hnot, Nat.testBit_and,
    Nat.testBit_two_pow_sub_succ hlt, Nat.testBit_two_pow, Bool.and_comm, decide_eq_true hb,
    Bool.true_and]
  congr 1
  rw [Bool.eq_iff_iff, bne_iff_ne, Bool.not_eq_true', decide_eq_false_iff_not]
  exact not_congr eq_comm

/-- A word with a bit set is not zero. -/
theorem or_mask_ne_zero (w : UInt64) {b : Nat} (hb : b < 64) : w ||| mask b ≠ 0 := by
  intro h
  have hmarks := marks_or w hb hb
  rw [h, marks_zero] at hmarks
  simp at hmarks

/-- Words with the same bits are equal. -/
theorem word_ext {v w : UInt64} (h : ∀ b < 64, marks v b = marks w b) : v = w := by
  refine UInt64.toNat.inj (Nat.eq_of_testBit_eq fun b => ?_)
  by_cases hb : b < 64
  · rw [← marks_eq v hb, ← marks_eq w hb, h b hb]
  · have hzero : ∀ u : UInt64, u.toNat.testBit b = false := fun u =>
      Nat.testBit_lt_two_pow (Nat.lt_of_lt_of_le u.toNat_lt
        (Nat.pow_le_pow_right (by decide) (Nat.le_of_not_lt hb)))
    rw [hzero v, hzero w]

/-- The bits that are set are counted one after another. -/
theorem cpopNatRec_eq_countP (w : UInt64) {n : Nat} (hn : n ≤ 64) :
    w.toBitVec.cpopNatRec n 0 = (List.range n).countP (marks w) := by
  induction n with
  | zero => rfl
  | succ n ih =>
    rw [BitVec.cpopNatRec_succ, BitVec.cpopNatRec_eq, ih (by omega), List.range_succ,
      List.countP_append, List.countP_singleton, marks_eq w (by omega : n < 64)]
    rw [show w.toBitVec.getLsbD n = w.toNat.testBit n from rfl]
    cases w.toNat.testBit n <;> rfl

theorem ones_eq (w : UInt64) : ones w = ((List.range 64).filter (marks w)).length := by
  rw [ones, BitVec.toNat_cpop, cpopNatRec_eq_countP w (Nat.le_refl 64), List.countP_eq_length_filter]

/-! ## Words by index -/

variable {ws vs : Array UInt64} {i j k : Nat}

theorem contains_eq (ws : Array UInt64) (k : Nat) :
    contains ws k = marks (wordAt ws (k / 64)) (k % 64) := by
  rw [contains, wordAt]
  cases ws[k / 64]? with
  | none => exact (marks_zero _).symm
  | some w => rfl

theorem size_rightpad (ws : Array UInt64) (n : Nat) :
    (ws.rightpad n 0).size = max ws.size n := by
  simp [Array.rightpad]
  omega

theorem wordAt_rightpad (ws : Array UInt64) (n i : Nat) :
    wordAt (ws.rightpad n 0) i = wordAt ws i := by
  simp only [wordAt, Array.rightpad, Array.getElem?_append, Array.getElem?_replicate]
  by_cases hi : i < ws.size
  · rw [if_pos hi]
  · rw [if_neg hi, Array.getElem?_eq_none (Nat.le_of_not_lt hi)]
    split <;> rfl

theorem wordAt_modify (f : UInt64 → UInt64) (hi : i < ws.size) (j : Nat) :
    wordAt (ws.modify i f) j = if i = j then f (wordAt ws j) else wordAt ws j := by
  simp only [wordAt, Array.getElem?_modify]
  by_cases hij : i = j
  · subst hij
    rw [if_pos rfl, if_pos rfl, Array.getElem?_eq_getElem hi]
    rfl
  · rw [if_neg hij, if_neg hij]

/-- Dropping zero words at the end changes no word. -/
theorem wordAt_popWhile (ws : Array UInt64) (i : Nat) :
    wordAt (ws.popWhile (· == 0)) i = wordAt ws i := by
  fun_induction Array.popWhile (· == 0) ws with
  | case1 ws hpos hzero ih =>
    rw [ih, wordAt, wordAt, Array.getElem?_pop]
    by_cases hi : i = ws.size - 1
    · subst hi
      have hlt : ws.size - 1 < ws.size := Nat.sub_lt hpos Nat.one_pos
      rw [if_neg (Nat.lt_irrefl _), Array.getElem?_eq_getElem hlt, eq_of_beq hzero]
      rfl
    · by_cases hlt : i < ws.size - 1
      · rw [if_pos hlt]
      · rw [if_neg hlt, Array.getElem?_eq_none (by omega)]
  | case2 => rfl
  | case3 => rfl

theorem size_popWhile_le (ws : Array UInt64) : (ws.popWhile (· == 0)).size ≤ ws.size := by
  fun_induction Array.popWhile (· == 0) ws with
  | case1 ws hpos hzero ih => exact Nat.le_trans ih (by simp)
  | case2 => exact Nat.le_refl _
  | case3 => exact Nat.le_refl _

theorem wordAt_insert (ws : Array UInt64) (k i : Nat) : wordAt (insert ws k) i
    = if k / 64 = i then wordAt ws i ||| mask (k % 64) else wordAt ws i := by
  have hlt : k / 64 < (ws.rightpad (k / 64 + 1) 0).size := by
    rw [size_rightpad]
    omega
  rw [insert, wordAt_modify _ hlt, wordAt_rightpad]

/-- Whether a number is held shows that its word is there. -/
theorem div_lt_size (h : contains ws k = true) : k / 64 < ws.size := by
  refine Nat.lt_of_not_le fun hle => ?_
  rw [contains, Array.getElem?_eq_none hle] at h
  cases h

theorem wordAt_erase (h : contains ws k = true) (i : Nat) : wordAt (erase ws k) i
    = if k / 64 = i then wordAt ws i &&& ~~~mask (k % 64) else wordAt ws i := by
  rw [erase, if_pos h, wordAt_popWhile, wordAt_modify _ (div_lt_size h)]

/-! ## Numbers that are held -/

theorem eq_of_div_mod (hd : j / 64 = k / 64) (hm : j % 64 = k % 64) : j = k := by
  rw [← Nat.div_add_mod j 64, ← Nat.div_add_mod k 64, hd, hm]

@[simp] theorem contains_empty (k : Nat) : contains #[] k = false := by simp [contains]

theorem contains_insert (ws : Array UInt64) (k j : Nat) :
    contains (insert ws k) j = (j == k || contains ws j) := by
  have hmod : ∀ n, n % 64 < 64 := fun n => Nat.mod_lt n (by decide)
  rw [contains_eq, contains_eq, wordAt_insert]
  by_cases hd : k / 64 = j / 64
  · rw [if_pos hd, marks_or _ (hmod j) (hmod k)]
    congr 1
    rw [Bool.eq_iff_iff, beq_iff_eq, beq_iff_eq]
    exact ⟨eq_of_div_mod hd.symm, fun h => by rw [h]⟩
  · have hne : (j == k) = false := by
      rw [beq_eq_false_iff_ne]
      rintro rfl
      exact hd rfl
    rw [if_neg hd, hne, Bool.false_or]

theorem contains_erase (ws : Array UInt64) (k j : Nat) :
    contains (erase ws k) j = (j != k && contains ws j) := by
  have hmod : ∀ n, n % 64 < 64 := fun n => Nat.mod_lt n (by decide)
  by_cases h : contains ws k = true
  · rw [contains_eq, contains_eq, wordAt_erase h]
    by_cases hd : k / 64 = j / 64
    · rw [if_pos hd, marks_and_not _ (hmod j) (hmod k)]
      congr 1
      rw [Bool.eq_iff_iff, bne_iff_ne, bne_iff_ne]
      exact ⟨fun hne heq => hne (by rw [heq]), fun hne heq => hne (eq_of_div_mod hd.symm heq)⟩
    · have hne : (j != k) = true := by
        rw [bne_iff_ne]
        rintro rfl
        exact hd rfl
      rw [if_neg hd, hne, Bool.true_and]
  · rw [erase, if_neg h]
    by_cases hj : j = k
    · subst hj
      simp [h]
    · simp [hj]

/-! ## No zero word at the end -/

theorem size_insert (ws : Array UInt64) (k : Nat) :
    (insert ws k).size = max ws.size (k / 64 + 1) := by
  rw [insert, Array.size_modify, size_rightpad]

theorem size_erase_le (ws : Array UInt64) (k : Nat) : (erase ws k).size ≤ ws.size := by
  rw [erase]
  split
  · exact Nat.le_trans (size_popWhile_le _) (Nat.le_of_eq (Array.size_modify ..))
  · exact Nat.le_refl _

theorem back?_eq_zero_iff : ws.back? = some 0 ↔ 0 < ws.size ∧ wordAt ws (ws.size - 1) = 0 := by
  rw [Array.back?_eq_getElem?, wordAt]
  by_cases hpos : 0 < ws.size
  · rw [Array.getElem?_eq_getElem (Nat.sub_lt hpos Nat.one_pos)]
    simp [hpos]
  · rw [Array.getElem?_eq_none (by omega)]
    simp [hpos]

theorem back?_insert (h : ws.back? ≠ some 0) (k : Nat) : (insert ws k).back? ≠ some 0 := by
  rw [Ne, back?_eq_zero_iff, size_insert, wordAt_insert]
  rintro ⟨-, hzero⟩
  split at hzero
  · exact or_mask_ne_zero _ (Nat.mod_lt k (by decide)) hzero
  · next hne =>
    -- the last word is an old one
    have hsize : max ws.size (k / 64 + 1) = ws.size := by omega
    rw [hsize] at hzero
    exact h (back?_eq_zero_iff.2 ⟨by omega, hzero⟩)

theorem back?_popWhile (ws : Array UInt64) : (ws.popWhile (· == 0)).back? ≠ some 0 := by
  fun_induction Array.popWhile (· == 0) ws with
  | case1 ws hpos hzero ih => exact ih
  | case2 ws hpos hne =>
    rw [Array.back?_eq_getElem?, Array.getElem?_eq_getElem (Nat.sub_lt hpos Nat.one_pos)]
    simpa using hne
  | case3 ws hpos =>
    rw [Array.back?_eq_getElem?, Array.getElem?_eq_none (by omega)]
    exact nofun

theorem back?_erase (h : ws.back? ≠ some 0) (k : Nat) : (erase ws k).back? ≠ some 0 := by
  rw [erase]
  split
  · exact back?_popWhile _
  · exact h

/-- Words that agree reach equally far if neither end in zero. -/
theorem size_le_of_wordAt_eq (hv : vs.back? ≠ some 0) (h : ∀ i, wordAt vs i = wordAt ws i) :
    vs.size ≤ ws.size := by
  refine Nat.le_of_not_lt fun hlt => hv (back?_eq_zero_iff.2 ⟨by omega, ?_⟩)
  rw [h, wordAt, Array.getElem?_eq_none (by omega)]
  rfl

/-- Words that hold the same numbers are equal if neither end in zero. -/
theorem ext_contains (hv : vs.back? ≠ some 0) (hw : ws.back? ≠ some 0)
    (h : ∀ k, contains vs k = contains ws k) : vs = ws := by
  have hword : ∀ i, wordAt vs i = wordAt ws i := by
    intro i
    refine word_ext fun b hb => ?_
    have hk := h (i * 64 + b)
    rwa [contains_eq, contains_eq, show (i * 64 + b) / 64 = i by omega,
      show (i * 64 + b) % 64 = b by omega] at hk
  have hsize := Nat.le_antisymm (size_le_of_wordAt_eq hv hword)
    (size_le_of_wordAt_eq hw fun i => (hword i).symm)
  refine Array.ext hsize fun i hi hi' => ?_
  have hi := hword i
  rwa [wordAt, wordAt, Array.getElem?_eq_getElem, Array.getElem?_eq_getElem] at hi

/-! ## Listing -/

theorem mem_positions : k ∈ positions ws ↔ contains ws k = true := by
  simp only [positions, List.mem_flatMap, List.mem_map, List.mem_filter, List.mem_range,
    List.mem_zipIdx_iff_getElem?, Array.getElem?_toList, Prod.exists]
  constructor
  · rintro ⟨w, i, hw, b, ⟨hb, hmarks⟩, rfl⟩
    rw [contains, show (i * 64 + b) / 64 = i by omega, show (i * 64 + b) % 64 = b by omega, hw]
    exact hmarks
  · intro h
    obtain ⟨w, hw, hmarks⟩ := (Option.any_eq_true ..).1 h
    exact ⟨w, k / 64, hw, k % 64, ⟨Nat.mod_lt k (by decide), hmarks⟩, by omega⟩

theorem pairwise_positions (ws : Array UInt64) : (positions ws).Pairwise (· < ·) := by
  rw [positions, List.pairwise_flatMap]
  constructor
  · rintro ⟨w, i⟩ -
    rw [List.pairwise_map]
    exact (List.pairwise_lt_range.filter _).imp fun h => Nat.add_lt_add_left h _
  · have hindex : (ws.toList.zipIdx.map Prod.snd).Pairwise (· < ·) := by
      rw [List.zipIdx_map_snd]
      exact List.pairwise_lt_range'
    refine (List.pairwise_map.1 hindex).imp ?_
    rintro ⟨v, i⟩ ⟨w, j⟩ hij x hx y hy
    obtain ⟨b, hb, rfl⟩ := List.mem_map.1 hx
    obtain ⟨c, -, rfl⟩ := List.mem_map.1 hy
    have hb := List.mem_range.1 (List.mem_filter.1 hb).1
    have hij : i < j := hij
    omega

/-- As many numbers are held as bits are set. -/
theorem length_positions (ws : Array UInt64) : (positions ws).length = count ws := by
  have hones : (fun p : UInt64 × Nat =>
      (((List.range 64).filter (marks p.1)).map (p.2 * 64 + ·)).length) = ones ∘ Prod.fst := by
    funext p
    rw [List.length_map, Function.comp_apply, ones_eq]
  rw [positions, List.length_flatMap, hones, ← List.map_map, List.zipIdx_map_fst,
    ← Array.toList_map, Array.sum_toList, Array.sum_eq_foldl, Array.foldl_map, count]

end BitWords

end CacheCoherence
