import CacheCoherence.Address

/-!
# Counts by line — how many requests address a line

Whether any parked request addresses a line is asked for every new request, so the
answer is kept at hand: a count for each line that some request addresses. The
count goes up when a request is parked and down when it is woken, and a line whose
count is used up is listed no longer.
-/

namespace CacheCoherence

/-- Counts of lines. A line that is not listed counts for nothing. -/
abbrev LineCounts := List (Addr × Nat)

namespace LineCounts

/-- The count of `line`. -/
def count (line : Addr) : LineCounts → Nat
  | [] => 0
  | (l, n) :: rest => if l = line then n else count line rest

/-- Whether `line` is listed. -/
def lists (c : LineCounts) (line : Addr) : Bool := c.any (·.1 == line)

/-- Counts `line` once more. -/
def increment (line : Addr) : LineCounts → LineCounts
  | [] => [(line, 1)]
  | (l, n) :: rest => if l = line then (l, n + 1) :: rest else (l, n) :: increment line rest

/-- Counts `line` once less. -/
def decrement (line : Addr) : LineCounts → LineCounts
  | [] => []
  | (l, n) :: rest =>
      if l = line then
        if n - 1 = 0 then rest else (l, n - 1) :: rest
      else (l, n) :: decrement line rest

/-- Counts each of `lines` once less, one after another. -/
def forget (lines : List Addr) (c : LineCounts) : LineCounts :=
  lines.foldl (fun c line => c.decrement line) c

/-! ## One count changes, the others stay -/

theorem count_eq_zero {c : LineCounts} {line : Addr} (h : ∀ p ∈ c, p.1 ≠ line) :
    c.count line = 0 := by
  induction c with
  | nil => rfl
  | cons head rest ih =>
    obtain ⟨hl, hrest⟩ := List.forall_mem_cons.1 h
    rw [count, if_neg hl]
    exact ih hrest

theorem count_increment (c : LineCounts) (line l : Addr) :
    (c.increment line).count l = c.count l + if line = l then 1 else 0 := by
  induction c with
  | nil => simp [increment, count]
  | cons head rest ih =>
    obtain ⟨l', n⟩ := head
    unfold increment
    by_cases hl : l' = line
    · subst hl
      by_cases hl' : l' = l <;> simp [count, hl']
    · by_cases hl' : l' = l
      · subst hl'
        simp [count, hl, Ne.symm hl]
      · simp [count, hl, hl', ih]

theorem count_decrement {c : LineCounts} (hd : c.Pairwise fun p q => p.1 ≠ q.1)
    (line l : Addr) : (c.decrement line).count l = c.count l - if line = l then 1 else 0 := by
  induction c with
  | nil => simp [decrement, count]
  | cons head rest ih =>
    obtain ⟨l', n⟩ := head
    obtain ⟨hne, hrest⟩ := List.pairwise_cons.1 hd
    unfold decrement
    by_cases hl : l' = line
    · subst hl
      by_cases hl' : l' = l
      · -- the line itself: its count goes down by one, or it is listed no longer
        subst hl'
        have hgone : count l' rest = 0 := count_eq_zero fun p hp => Ne.symm (hne p hp)
        by_cases hn : n - 1 = 0 <;> simp [count, hn, hgone]
      · by_cases hn : n - 1 = 0 <;> simp [count, hl', hn]
    · by_cases hl' : l' = l
      · subst hl'
        simp [count, hl, Ne.symm hl]
      · simp [count, hl, hl', ih hrest]

/-! ## Every line is listed once, and only with a count -/

theorem fst_of_mem_increment {c : LineCounts} {line : Addr} {p : Addr × Nat}
    (h : p ∈ c.increment line) : p.1 = line ∨ ∃ q ∈ c, q.1 = p.1 := by
  induction c with
  | nil => exact .inl (by rw [List.mem_singleton.1 h])
  | cons head rest ih =>
    obtain ⟨l, n⟩ := head
    unfold increment at h
    split at h
    · next hl =>
      rcases List.mem_cons.1 h with rfl | h
      · exact .inl hl
      · exact .inr ⟨p, List.mem_cons_of_mem _ h, rfl⟩
    · rcases List.mem_cons.1 h with rfl | h
      · exact .inr ⟨(l, n), List.mem_cons_self, rfl⟩
      · exact (ih h).imp_right fun ⟨q, hq, heq⟩ => ⟨q, List.mem_cons_of_mem _ hq, heq⟩

theorem fst_of_mem_decrement {c : LineCounts} {line : Addr} {p : Addr × Nat}
    (h : p ∈ c.decrement line) : ∃ q ∈ c, q.1 = p.1 := by
  induction c with
  | nil => cases h
  | cons head rest ih =>
    obtain ⟨l, n⟩ := head
    unfold decrement at h
    split at h
    · split at h
      · exact ⟨p, List.mem_cons_of_mem _ h, rfl⟩
      · rcases List.mem_cons.1 h with rfl | h
        · exact ⟨(l, n), List.mem_cons_self, rfl⟩
        · exact ⟨p, List.mem_cons_of_mem _ h, rfl⟩
    · rcases List.mem_cons.1 h with rfl | h
      · exact ⟨(l, n), List.mem_cons_self, rfl⟩
      · obtain ⟨q, hq, heq⟩ := ih h
        exact ⟨q, List.mem_cons_of_mem _ hq, heq⟩

/-- Every line is listed at most once, and none without a count. -/
structure Proper (c : LineCounts) : Prop where
  distinct : c.Pairwise fun p q => p.1 ≠ q.1
  positive : ∀ p ∈ c, 0 < p.2

namespace Proper

variable {c : LineCounts} {p : Addr × Nat}

theorem nil : Proper [] := ⟨.nil, nofun⟩

theorem cons (h : c.Proper) (hp : 0 < p.2) (hne : ∀ q ∈ c, p.1 ≠ q.1) : Proper (p :: c) :=
  ⟨List.pairwise_cons.2 ⟨hne, h.distinct⟩, List.forall_mem_cons.2 ⟨hp, h.positive⟩⟩

theorem of_cons (h : Proper (p :: c)) : c.Proper ∧ 0 < p.2 ∧ ∀ q ∈ c, p.1 ≠ q.1 :=
  have hd := List.pairwise_cons.1 h.distinct
  have hp := List.forall_mem_cons.1 h.positive
  ⟨⟨hd.2, hp.2⟩, hp.1, hd.1⟩

theorem increment (h : c.Proper) (line : Addr) : (c.increment line).Proper := by
  induction c with
  | nil => exact Proper.nil.cons Nat.one_pos nofun
  | cons head rest ih =>
    obtain ⟨l, n⟩ := head
    obtain ⟨hrest, hn, hne⟩ := h.of_cons
    unfold LineCounts.increment
    split
    · exact hrest.cons (Nat.succ_pos n) hne
    · next hl =>
      refine (ih hrest).cons hn fun q hq => ?_
      rcases fst_of_mem_increment hq with heq | ⟨r, hr, heq⟩
      · rw [heq]
        exact hl
      · rw [← heq]
        exact hne r hr

theorem decrement (h : c.Proper) (line : Addr) : (c.decrement line).Proper := by
  induction c with
  | nil => exact h
  | cons head rest ih =>
    obtain ⟨l, n⟩ := head
    obtain ⟨hrest, hn, hne⟩ := h.of_cons
    unfold LineCounts.decrement
    split
    · split
      · exact hrest
      · next hn => exact hrest.cons (Nat.pos_of_ne_zero hn) hne
    · refine (ih hrest).cons hn fun q hq => ?_
      obtain ⟨r, hr, heq⟩ := fst_of_mem_decrement hq
      rw [← heq]
      exact hne r hr

/-- A line is listed exactly if it has a count. -/
theorem lists_iff (h : c.Proper) (line : Addr) : c.lists line = true ↔ 0 < c.count line := by
  induction c with
  | nil => simp [lists, count]
  | cons head rest ih =>
    obtain ⟨l, n⟩ := head
    obtain ⟨hrest, hn, -⟩ := h.of_cons
    by_cases hl : l = line
    · simpa [lists, count, hl] using hn
    · simpa [lists, count, hl] using ih hrest

end Proper

/-! ## Counts that are right -/

/-- The counts are those of `lines`: each of them is listed, with the number of times that it
is among them, and no other line is. -/
structure Tallies (c : LineCounts) (lines : List Addr) : Prop extends c.Proper where
  count_eq : ∀ line, c.count line = lines.count line

namespace Tallies

variable {c : LineCounts} {lines rest : List Addr} {line : Addr}

theorem nil : Tallies [] [] := ⟨.nil, fun _ => rfl⟩

/-- It does not matter in which order the lines come. -/
theorem perm (h : c.Tallies lines) (hp : lines.Perm rest) : c.Tallies rest :=
  { h with count_eq := fun line => (h.count_eq line).trans (hp.count_eq line) }

theorem increment (h : c.Tallies lines) (line : Addr) :
    (c.increment line).Tallies (line :: lines) where
  toProper := h.toProper.increment line
  count_eq l := by
    rw [count_increment, h.count_eq, List.count_cons]
    simp

theorem decrement (h : c.Tallies (line :: rest)) : (c.decrement line).Tallies rest where
  toProper := h.toProper.decrement line
  count_eq l := by
    rw [count_decrement h.distinct, h.count_eq, List.count_cons]
    simp

theorem forget (h : c.Tallies (lines ++ rest)) : (c.forget lines).Tallies rest := by
  induction lines generalizing c with
  | nil => exact h
  | cons line lines ih => exact ih h.decrement

/-- What is listed is what is counted. -/
theorem lists_iff (h : c.Tallies lines) : c.lists line = true ↔ line ∈ lines := by
  rw [h.toProper.lists_iff, h.count_eq, List.count_pos_iff]

end Tallies

end LineCounts

end CacheCoherence
