import CacheCoherence.Proofs.Table.Calls
import Mathlib.Data.List.Find

/-!
# Least recent — the way that was used longest ago

A table that replaces the least recently used way keeps an order of the ways of each set beside
the slots, and knows nothing of its past. Still the order is that of the last uses: whatever has
been done to the table, the way that it names when a set is full is the one whose last use is the
longest ago, and nothing that was done to another set has a say in it.
-/

namespace CacheCoherence.LineTable

variable {γ : Type} {t u : LineTable γ} {calls : List (TableCall γ)} {c : TableCall γ}
  {n m i j set : Nat}

/-! ## The last use of a way -/

/-- The call number `n` of a run on `t` counts the way `i` as used. -/
def Uses (t : LineTable γ) (calls : List (TableCall γ)) (n i : Nat) : Prop :=
  ∃ u c, (record apply t calls)[n]? = some (u, c) ∧ u.used? c = some i

/-- No later call of the run uses the way `i`. -/
structure LastUse (t : LineTable γ) (calls : List (TableCall γ)) (n i : Nat) : Prop where
  uses : t.Uses calls n i
  last : ∀ m, t.Uses calls m i → m ≤ n

theorem Uses.lt (h : t.Uses calls n i) : n < calls.length := by
  obtain ⟨u, c, hrec, -⟩ := h
  obtain ⟨hlt, -⟩ := List.getElem?_eq_some_iff.1 hrec
  rwa [length_record] at hlt

theorem uses_concat : t.Uses (calls ++ [c]) n i ↔
    t.Uses calls n i ∨ n = calls.length ∧ (t.after calls).used? c = some i := by
  unfold Uses
  rw [record_concat]
  rcases Nat.lt_trichotomy n calls.length with hlt | heq | hgt
  · rw [List.getElem?_append_left (by rwa [length_record])]
    exact ⟨.inl, fun h => h.resolve_right fun ⟨hn, _⟩ => Nat.ne_of_lt hlt hn⟩
  · have hlen : (record apply t calls).length = n := by rw [length_record, heq]
    rw [← hlen, List.getElem?_concat_length, List.getElem?_eq_none (Nat.le_refl _)]
    constructor
    · rintro ⟨u, c', hrec, hused⟩
      cases hrec
      exact .inr ⟨hlen.trans heq, hused⟩
    · rintro (⟨u, c', hrec, -⟩ | ⟨-, hused⟩)
      · cases hrec
      · exact ⟨_, _, rfl, hused⟩
  · rw [List.getElem?_eq_none (by simp [length_record]; omega),
      List.getElem?_eq_none (by rw [length_record]; omega)]
    exact ⟨.inl, fun h => h.resolve_right fun ⟨hn, _⟩ => by omega⟩

/-- A way that is used now is used last. -/
theorem lastUse_concat_self (h : (t.after calls).used? c = some i) :
    t.LastUse (calls ++ [c]) calls.length i where
  uses := uses_concat.2 (.inr ⟨rfl, h⟩)
  last m hm := by
    have := hm.lt
    rw [List.length_append, List.length_singleton] at this
    omega

theorem lastUse_concat_ne (h : (t.after calls).used? c ≠ some i) :
    t.LastUse (calls ++ [c]) n i ↔ t.LastUse calls n i := by
  have huses : ∀ m, t.Uses (calls ++ [c]) m i ↔ t.Uses calls m i := fun m =>
    uses_concat.trans (or_iff_left fun ⟨_, hused⟩ => h hused)
  exact ⟨fun ⟨hu, hl⟩ => ⟨(huses n).1 hu, fun m hm => hl m ((huses m).2 hm)⟩,
    fun ⟨hu, hl⟩ => ⟨(huses n).2 hu, fun m hm => hl m ((huses m).1 hm)⟩⟩

/-! ## The order of a set -/

/-- Of two ways of a set, the first has been used after the last use of the second. -/
def Fresher (t : LineTable γ) (calls : List (TableCall γ)) (set w v : Nat) : Prop :=
  ∀ n, t.LastUse calls n (set * t.slots.ways + v) →
    ∃ m, t.LastUse calls m (set * t.slots.ways + w) ∧ n < m

/-- After a run on the empty table `t` the orders of use are `r`. -/
structure Ordered (t : LineTable γ) (calls : List (TableCall γ)) (r : Recency) : Prop where
  replacement : (t.after calls).replacement = .leastRecent r
  size : r.orders.size = t.layout.sets
  perm : ∀ set < t.layout.sets, (r.order set).Perm (List.range t.slots.ways)
  sorted : ∀ set < t.layout.sets, (r.order set).Pairwise (t.Fresher calls set)

namespace Ordered

variable {r : Recency}

/-- A call that uses no way leaves the orders. -/
theorem unused (h : t.Ordered calls r) (hr : (t.after (calls ++ [c])).replacement
    = (t.after calls).replacement) (hu : (t.after calls).used? c = none) :
    t.Ordered (calls ++ [c]) r where
  replacement := hr.trans h.replacement
  size := h.size
  perm := h.perm
  sorted set hset := (h.sorted set hset).imp fun hfresh n hn => by
    have hne : ∀ j, (t.after calls).used? c ≠ some j := by simp [hu]
    obtain ⟨m, hm, hlt⟩ := hfresh n ((lastUse_concat_ne (hne _)).1 hn)
    exact ⟨m, (lastUse_concat_ne (hne _)).2 hm, hlt⟩

/-- Where no way of the set is used, its order stays right. -/
theorem sorted_elsewhere (h : t.Ordered calls r) (hw : 0 < t.slots.ways)
    (hu : (t.after calls).used? c = some i) (hset : set < t.layout.sets)
    (hi : i / t.slots.ways ≠ set) : (r.order set).Pairwise (t.Fresher (calls ++ [c]) set) := by
  refine (h.sorted set hset).imp_of_mem fun {w v} hwmem hvmem hfresh n hn => ?_
  have hne : ∀ v ∈ r.order set, (t.after calls).used? c ≠ some (set * t.slots.ways + v) := by
    intro v hv hused
    have hlt : v < t.slots.ways := List.mem_range.1 ((h.perm set hset).mem_iff.1 hv)
    rw [hu, Option.some.injEq] at hused
    rw [hused, Nat.mul_comm, Nat.mul_add_div hw, Nat.div_eq_of_lt hlt] at hi
    exact hi rfl
  obtain ⟨m, hm, hlt⟩ := hfresh n ((lastUse_concat_ne (hne v hvmem)).1 hn)
  exact ⟨m, (lastUse_concat_ne (hne w hwmem)).2 hm, hlt⟩

/-- The way that is used comes first, and the others keep their order. -/
theorem sorted_used (h : t.Ordered calls r) (hu : (t.after calls).used? c = some i)
    (hset : i / t.slots.ways < t.layout.sets) :
    (i % t.slots.ways :: (r.order (i / t.slots.ways)).erase (i % t.slots.ways)).Pairwise
      (t.Fresher (calls ++ [c]) (i / t.slots.ways)) := by
  have hdiv : i / t.slots.ways * t.slots.ways + i % t.slots.ways = i := by
    rw [Nat.mul_comm, Nat.div_add_mod]
  have hnodup : (r.order (i / t.slots.ways)).Nodup :=
    (h.perm _ hset).nodup_iff.2 List.nodup_range
  -- no other way is used
  have hne : ∀ v ∈ (r.order (i / t.slots.ways)).erase (i % t.slots.ways),
      (t.after calls).used? c ≠ some (i / t.slots.ways * t.slots.ways + v) := by
    intro v hv hused
    rw [hu, Option.some.injEq] at hused
    exact (hnodup.mem_erase_iff.1 hv).1 (by omega)
  refine List.pairwise_cons.2 ⟨fun v hv n hn => ?_, ?_⟩
  · have hold := (lastUse_concat_ne (hne v hv)).1 hn
    exact ⟨calls.length, hdiv.symm ▸ lastUse_concat_self hu, hold.uses.lt⟩
  · refine ((h.sorted _ hset).sublist List.erase_sublist).imp_of_mem
      fun {w v} hwmem hvmem hfresh n hn => ?_
    obtain ⟨m, hm, hlt⟩ := hfresh n ((lastUse_concat_ne (hne v hvmem)).1 hn)
    exact ⟨m, (lastUse_concat_ne (hne w hwmem)).2 hm, hlt⟩

/-- A call that uses a way puts it in front. -/
theorem used (h : t.Ordered calls r) (hw : 0 < t.slots.ways)
    (hr : (t.after (calls ++ [c])).replacement = (t.after calls).replacement.touch
      (i / t.slots.ways) (i % t.slots.ways))
    (hu : (t.after calls).used? c = some i) :
    t.Ordered (calls ++ [c]) (r.touch (i / t.slots.ways) (i % t.slots.ways)) where
  replacement := by rw [hr, h.replacement]; rfl
  size := by
    rw [Recency.touch, Array.size_modify]
    exact h.size
  perm set hset := by
    by_cases hi : i / t.slots.ways = set
    · subst hi
      rw [Recency.order_touch_self r _ (by rwa [h.size])]
      have hmem : i % t.slots.ways ∈ r.order (i / t.slots.ways) :=
        (h.perm _ hset).mem_iff.2 (List.mem_range.2 (Nat.mod_lt _ hw))
      exact (List.perm_cons_erase hmem).symm.trans (h.perm _ hset)
    · rw [Recency.order_touch_ne r _ hi]
      exact h.perm set hset
  sorted set hset := by
    by_cases hi : i / t.slots.ways = set
    · subst hi
      rw [Recency.order_touch_self r _ (by rwa [h.size])]
      exact h.sorted_used hu hset
    · rw [Recency.order_touch_ne r _ hi]
      exact h.sorted_elsewhere hw hu hset hi

end Ordered

/-- An empty table whose orders of use are new. -/
structure Fresh (t : LineTable γ) : Prop extends t.Shaped where
  replacement : t.replacement = .leastRecent (Recency.initial t.layout.sets t.slots.ways)
  free : ∀ i, t.slots.contentAt i = .free

/-- At first no way has been used. -/
theorem Fresh.ordered_nil (h : t.Fresh) :
    t.Ordered [] (Recency.initial t.layout.sets t.slots.ways) := by
  have horder : ∀ set < t.layout.sets,
      (Recency.initial t.layout.sets t.slots.ways).order set = List.range t.slots.ways := by
    intro set hset
    simp [Recency.order, Recency.initial, hset]
  have hunused : ∀ n i, ¬t.LastUse [] n i := fun n i hn => Nat.not_lt_zero n hn.uses.lt
  refine ⟨h.replacement, by simp [Recency.initial], fun set hset => ?_, fun set hset => ?_⟩
  · rw [horder set hset]
  · rw [horder set hset]
    exact List.Pairwise.imp (R := fun _ _ => True) (fun _ n hn => absurd hn (hunused n _))
      (List.pairwise_of_forall fun _ _ => trivial)

/-- In every run the orders of use are those of the last uses. -/
theorem Fresh.ordered (h : t.Fresh) (calls : List (TableCall γ)) : ∃ r, t.Ordered calls r := by
  induction calls using List.reverseRecOn with
  | nil => exact ⟨_, h.ordered_nil⟩
  | append_singleton calls c ih =>
    obtain ⟨r, hr⟩ := ih
    obtain ⟨-, hways, -⟩ := h.shape_after calls
    obtain ⟨i, -, heffect⟩ := effect_apply (h.toShaped.after calls) c
    have hrepl := heffect.replacement
    rw [← after_concat, hways] at hrepl
    cases hu : (t.after calls).used? c with
    | none =>
      rw [hu] at hrepl
      exact ⟨r, hr.unused hrepl hu⟩
    | some i =>
      rw [hu] at hrepl
      exact ⟨_, hr.used h.ways_pos hrepl hu⟩

/-- A way that is not free has been used. -/
theorem Fresh.lastUse (h : t.Fresh) (calls : List (TableCall γ)) :
    ∀ i, (t.after calls).slots.contentAt i ≠ .free → ∃ n, t.LastUse calls n i := by
  induction calls using List.reverseRecOn with
  | nil => exact fun i hi => absurd (h.free i) hi
  | append_singleton calls c ih =>
    intro i hi
    rw [after_concat] at hi
    obtain ⟨_, -, heffect⟩ := effect_apply (h.toShaped.after calls) c
    by_cases hu : (t.after calls).used? c = some i
    · exact ⟨_, lastUse_concat_self hu⟩
    · obtain ⟨n, hn⟩ := ih i ((heffect.taken i hi).resolve_right hu)
      exact ⟨n, (lastUse_concat_ne hu).2 hn⟩

/-! ## The victim -/

/-- Of the ways of a set, `i` is the one whose last use is the longest ago. -/
structure Oldest (t : LineTable γ) (calls : List (TableCall γ)) (set i : Nat) : Prop where
  mem : i ∈ t.slots.setIndices set
  used : ∃ n, t.LastUse calls n i ∧
    ∀ j ∈ t.slots.setIndices set, j ≠ i → ∃ m, t.LastUse calls m j ∧ n < m

/-- Where no way of a set is free, its oldest way is the victim. -/
theorem Fresh.victim_oldest (h : t.Fresh) (hset : set < t.layout.sets)
    (hfull : ∀ i ∈ t.slots.setIndices set, (t.after calls).slots.contentAt i ≠ .free) :
    t.Oldest calls set ((t.after calls).victimIndex set) := by
  obtain ⟨r, hr⟩ := h.ordered calls
  obtain ⟨-, hways, -⟩ := h.shape_after calls
  have hperm := hr.perm set hset
  have hmem : ∀ w, w ∈ r.order set ↔ set * t.slots.ways + w ∈ t.slots.setIndices set := by
    intro w
    rw [hperm.mem_iff, List.mem_range, SlotTable.mem_setIndices]
    omega
  have hne : r.order set ≠ [] := by
    have hlen := hperm.length_eq
    have := h.ways_pos
    rw [List.length_range] at hlen
    exact List.ne_nil_of_length_pos (by omega)
  obtain ⟨init, last, horder⟩ : ∃ init last, r.order set = init ++ [last] :=
    ⟨_, _, (List.dropLast_concat_getLast hne).symm⟩
  have hvictim : (t.after calls).victimIndex set = set * t.slots.ways + last := by
    rw [victimIndex, hways, hr.replacement, Replacement.victim, Recency.victim, horder,
      List.getLast?_concat, Option.getD_some]
  have hlast : set * t.slots.ways + last ∈ t.slots.setIndices set :=
    (hmem last).1 (by rw [horder]; exact List.mem_concat_self)
  rw [hvictim]
  obtain ⟨n, hn⟩ := h.lastUse calls _ (hfull _ hlast)
  refine ⟨hlast, n, hn, fun j hj hji => ?_⟩
  -- the others come before it, so they have been used since
  obtain ⟨w, rfl⟩ : ∃ w, j = set * t.slots.ways + w :=
    ⟨_, (Nat.add_sub_of_le (SlotTable.mem_setIndices.1 hj).1).symm⟩
  have hw : w ∈ init := by
    have hw := (hmem w).2 hj
    rw [horder, List.mem_append, List.mem_singleton] at hw
    exact hw.resolve_right fun hw => hji (by rw [hw])
  have hsorted := hr.sorted set hset
  rw [horder, List.pairwise_append] at hsorted
  exact hsorted.2.2 w hw last (List.mem_singleton_self last) n hn

/-! ## Sets apart -/

/-- In the set `set` the tables `t` and `u` are the same. -/
structure Alike (t u : LineTable γ) (set : Nat) : Prop where
  layout : u.layout = t.layout
  ways : u.slots.ways = t.slots.ways
  capacity : u.slots.capacity = t.slots.capacity
  slots : ∀ i ∈ t.slots.setIndices set, u.slots.slots[i]? = t.slots.slots[i]?
  recency : ∃ r s, t.replacement = .leastRecent r ∧ u.replacement = .leastRecent s ∧
    s.orders.size = r.orders.size ∧ s.order set = r.order set

namespace Alike

theorem contentAt (h : t.Alike u set) (hi : i ∈ t.slots.setIndices set) :
    u.slots.contentAt i = t.slots.contentAt i := by
  rw [SlotTable.contentAt, h.slots i hi]
  rfl

theorem handleAt (h : t.Alike u set) (hi : i ∈ t.slots.setIndices set) :
    u.slots.handleAt i = t.slots.handleAt i := by
  rw [SlotTable.handleAt, h.slots i hi]
  rfl

theorem behind? (h : t.Alike u set) {way : Handle} (hi : way.index ∈ t.slots.setIndices set) :
    u.slots.behind? way = t.slots.behind? way := by
  rw [SlotTable.behind?, SlotTable.live?, h.slots _ hi]
  rfl

theorem setOf (h : t.Alike u set) (a : Addr) : u.setOf a = t.setOf a := by
  rw [LineTable.setOf, lineAddr, h.layout]
  rfl

theorem lineAddr (h : t.Alike u set) (a : Addr) : u.lineAddr a = t.lineAddr a := by
  rw [LineTable.lineAddr, h.layout]
  rfl

theorem freeIndex? (h : t.Alike u set) : u.slots.freeIndex? set = t.slots.freeIndex? set := by
  have hset : u.slots.setIndices set = t.slots.setIndices set := by
    rw [SlotTable.setIndices, h.ways]
    rfl
  rw [SlotTable.freeIndex?, SlotTable.findIndex?, hset]
  exact List.find?_congr fun i hi => by rw [h.contentAt hi]

theorem victimIndex (h : t.Alike u set) : u.victimIndex set = t.victimIndex set := by
  obtain ⟨r, s, hr, hs, -, horder⟩ := h.recency
  rw [LineTable.victimIndex, LineTable.victimIndex, h.ways, hr, hs]
  simp only [Replacement.victim, Recency.victim, horder]

/-- A slot of the set is changed in both tables alike. -/
theorem modifySlots (h : t.Alike u set) {t' u' : LineTable γ} {f : Slot (LineEntry γ) → Slot (LineEntry γ)}
    (ht : t' = { t with slots := { t.slots with slots := t.slots.slots.modify i f } })
    (hu : u' = { u with slots := { u.slots with slots := u.slots.slots.modify i f } }) :
    t'.Alike u' set := by
  subst ht hu
  refine ⟨h.layout, h.ways, ?_, fun j hj => ?_, h.recency⟩
  · have := h.capacity
    simpa [SlotTable.capacity] using this
  · show (u.slots.slots.modify i f)[j]? = (t.slots.slots.modify i f)[j]?
    rw [Array.getElem?_modify, Array.getElem?_modify, h.slots j hj]

theorem write (h : t.Alike u set) (i : Nat) (c : SlotContent (LineEntry γ)) :
    Alike { t with slots := t.slots.write i c } { u with slots := u.slots.write i c } set :=
  h.modifySlots rfl rfl

theorem retire (h : t.Alike u set) (i : Nat) (c : SlotContent (LineEntry γ)) :
    Alike { t with slots := t.slots.retire i c } { u with slots := u.slots.retire i c } set :=
  h.modifySlots rfl rfl

/-- A way of the set counts as used in both tables. -/
theorem touchIndex (h : t.Alike u set) (hi : i / t.slots.ways = set) :
    (t.touchIndex i).Alike (u.touchIndex i) set := by
  refine ⟨h.layout, h.ways, h.capacity, h.slots, ?_⟩
  obtain ⟨r, s, hr, hs, hsize, horder⟩ := h.recency
  refine ⟨r.touch set (i % t.slots.ways), s.touch set (i % t.slots.ways), ?_, ?_, ?_, ?_⟩
  · rw [LineTable.touchIndex, hi, hr]
    rfl
  · show u.replacement.touch (i / u.slots.ways) (i % u.slots.ways) = _
    rw [h.ways, hi, hs]
    rfl
  · simpa [Recency.touch] using hsize
  · by_cases hset : set < r.orders.size
    · rw [Recency.order_touch_self r _ hset, Recency.order_touch_self s _ (by rwa [hsize]), horder]
    · have hnone : ∀ q : Recency, ¬set < q.orders.size →
          (q.touch set (i % t.slots.ways)).order set = q.order set := by
        intro q hq
        simp [Recency.order, Recency.touch, hq]
      rw [hnone r hset, hnone s (by rwa [hsize]), horder]

theorem touch (h : t.Alike u set) {way : Handle} (hw : way.index / t.slots.ways = set)
    (hb : u.slots.behind? way = t.slots.behind? way) : (t.touch way).Alike (u.touch way) set := by
  have hline : u.lineOf? way = t.lineOf? way := by
    rw [lineOf?, SlotTable.lineOf?, hb]
    rfl
  rw [LineTable.touch, LineTable.touch, hline]
  split
  · exact h.touchIndex hw
  · exact h

/-- What is done to another set does not matter. -/
theorem elsewhere (h : t.Alike u set) {t' : LineTable γ} {retired? used? : Option Nat}
    (ht : t.Effect i t' retired? used?) (hi : i / t.slots.ways ≠ set) (hs : t.Shaped) :
    t'.Alike u set where
  layout := h.layout.trans ht.layout.symm
  ways := h.ways.trans ht.slots.ways.symm
  capacity := h.capacity.trans ht.slots.capacity.symm
  slots j hj := by
    rw [SlotTable.setIndices, ht.slots.ways] at hj
    have hji : j ≠ i := by
      rintro rfl
      exact hi ((mem_setIndices_iff hs).1 hj)
    rw [h.slots j hj, ht.slots.elsewhere hji]
  recency := by
    obtain ⟨r, s, hr, hs, hsize, horder⟩ := h.recency
    rcases ht.used with hused | hused
    · exact ⟨r, s, by rw [ht.replacement, hused]; exact hr, hs, hsize, horder⟩
    · refine ⟨r.touch (i / t.slots.ways) (i % t.slots.ways), s, ?_, hs, ?_, ?_⟩
      · rw [ht.replacement, hused, hr]
        rfl
      · rw [hsize, Recency.touch, Array.size_modify]
      · rw [horder, Recency.order_touch_ne r _ hi]

/-- Asked for a way of the set, both tables give the same answer, ... -/
theorem reserve (h : t.Alike u set) (ht : t.Shaped) (a : Addr) (ha : t.setOf a = set) :
    (u.reserve a).1 = (t.reserve a).1 ∧ (t.reserve a).2.Alike (u.reserve a).2 set := by
  have hua : u.setOf a = set := (h.setOf a).trans ha
  have hfree : u.slots.freeIndex? (u.setOf a) = t.slots.freeIndex? (t.setOf a) := by
    rw [ha, hua, h.freeIndex?]
  cases hf : t.slots.freeIndex? (t.setOf a) with
  | some i =>
    obtain ⟨hmem, -⟩ := SlotTable.of_findIndex? hf
    have hi := ht.lt_capacity (show t.InSet i (t.lineAddr a) from hmem)
    rw [ha] at hmem
    rw [reserve_of_free hf hi, reserve_of_free (hfree.trans hf) (by rwa [h.capacity]),
      h.lineAddr, h.handleAt hmem]
    exact ⟨rfl, (h.write i _).touchIndex ((mem_setIndices_iff ht).1 hmem)⟩
  | none =>
    have hmem := victimIndex_inSet ht a
    rw [InSet, ← setOf_eq, ha] at hmem
    rw [reserve_of_full hf, reserve_of_full (hfree.trans hf), ha, hua, h.victimIndex,
      h.contentAt hmem, h.handleAt hmem]
    exact ⟨rfl, h⟩

section Calls

variable {way : Handle} (h : t.Alike u set) (ht : t.Shaped) (hw : way.index / t.slots.ways = set)

include h ht hw

/-- A handle of the set resolves to the same in both tables. -/
theorem resolves : u.slots.behind? way = t.slots.behind? way :=
  h.behind? ((mem_setIndices_iff ht).2 hw)

theorem install (e : LineEntry γ) :
    (t.apply (.install way e)).Alike (u.apply (.install way e)) set := by
  simp only [LineTable.apply, install?, SlotTable.fill?, h.resolves ht hw]
  cases hb : t.slots.behind? way with
  | none => exact h
  | some c =>
    cases c with
    | reserved line =>
      have hi := (SlotTable.of_behind? hb).2.2
      have hwrite := h.write way.index (.filled line e)
      exact hwrite.touch hw (hwrite.resolves ((writes_slots hi _).shaped ht) hw)
    | free | filled => exact h

theorem replace (a : Addr) : (t.apply (.replace way a)).Alike (u.apply (.replace way a)) set := by
  simp only [LineTable.apply, replace?, SlotTable.repurpose?, h.resolves ht hw, h.lineAddr]
  cases hb : t.slots.behind? way with
  | none => exact h
  | some c =>
    cases c with
    | filled line e =>
      have hi := (SlotTable.of_behind? hb).2.2
      have hretire := h.retire way.index (.reserved (t.lineAddr a))
      have hshaped := (retires_slots hi (SlotContent.reserved (t.lineAddr a))).shaped ht
      have hfresh := hretire.handleAt ((mem_setIndices_iff hshaped).2 hw)
      simp only [Option.map_some, Option.getD_some]
      rw [hfresh]
      exact hretire.touch hw (hretire.resolves hshaped hw)
    | free | reserved => exact h

theorem release : (t.apply (.release way)).Alike (u.apply (.release way)) set := by
  simp only [LineTable.apply, LineTable.release, SlotTable.vacate, h.resolves ht hw]
  cases t.slots.behind? way with
  | none => exact h
  | some c => exact h.retire way.index .free

theorem modify (f : LineEntry γ → LineEntry γ) :
    (t.apply (.modify way f)).Alike (u.apply (.modify way f)) set := by
  simp only [LineTable.apply, LineTable.modify, SlotTable.modify, h.resolves ht hw]
  cases t.slots.behind? way with
  | none => exact h
  | some c =>
    cases c with
    | filled line e => exact h.write way.index (.filled line (f e))
    | free | reserved => exact h

end Calls

/-- ... and any call about the set leaves them alike. -/
theorem apply (h : t.Alike u set) (ht : t.Shaped) (c : TableCall γ) (hc : t.set? c = some set) :
    (t.apply c).Alike (u.apply c) set := by
  cases c with
  | reserve a => exact (h.reserve ht a (Option.some.inj hc)).2
  | install way e => exact h.install ht (Option.some.inj hc) e
  | touch way =>
    have hw := Option.some.inj hc
    exact h.touch hw (h.resolves ht hw)
  | replace way a => exact h.replace ht (Option.some.inj hc) a
  | release way => exact h.release ht (Option.some.inj hc)
  | modify way f => exact h.modify ht (Option.some.inj hc) f
  | lookup | reservationFor | entries => exact h

end Alike

/-- A run and its part that is about one set make the same of the set. -/
theorem Fresh.alike (h : t.Fresh) (set : Nat) (calls : List (TableCall γ)) :
    (t.after calls).Alike (t.after (calls.filter fun c => t.set? c = some set)) set := by
  induction calls using List.reverseRecOn with
  | nil => exact ⟨rfl, rfl, rfl, fun _ _ => rfl, _, _, h.replacement, h.replacement, rfl, rfl⟩
  | append_singleton calls c ih =>
    have hs := h.toShaped.after calls
    obtain ⟨hlayout, hways, -⟩ := h.shape_after calls
    have hset : (t.after calls).set? c = t.set? c := by
      cases c <;> simp [set?, LineTable.setOf, lineAddr, hlayout, hways]
    rw [after_concat, List.filter_append, List.filter_singleton]
    by_cases hc : t.set? c = some set
    · simp only [hc, decide_true, cond_true]
      rw [after_concat]
      exact ih.apply hs c (hset.trans hc)
    · simp only [hc, decide_false, cond_false, List.append_nil]
      obtain ⟨i, hi, heffect⟩ := effect_apply hs c
      cases hother : (t.after calls).set? c with
      | none =>
        have hstay : (t.after calls).apply c = t.after calls := by
          cases c <;> first | rfl | cases hother
        rwa [hstay]
      | some other =>
        refine ih.elsewhere heffect (fun hi' => ?_) hs
        rw [hi other hother] at hi'
        exact hc (by rw [← hset, hother, hi'])

/-! ## The choice -/

/-- The answer of a table that has no free way, where the way to replace is `i`. -/
def Names (t : LineTable γ) (i : Nat) (answer : Reservation) : Prop :=
  match t.slots.contentAt i with
  | .free => False
  | .reserved pendingLine => answer = .busy pendingLine
  | .filled _ e =>
      answer = .victim (t.slots.handleAt i) ∧ t.entry? (t.slots.handleAt i) = some e

section Full

variable {a : Addr} (hf : t.slots.freeIndex? (t.setOf a) = none)

include hf

theorem reserve_ne_free (way : Handle) : (t.reserve a).1 ≠ .free way := by
  rw [reserve_of_full hf]
  cases t.slots.contentAt (t.victimIndex (t.setOf a)) <;> exact Reservation.noConfusion

theorem names_of_full (hne : t.slots.contentAt (t.victimIndex (t.setOf a)) ≠ .free) :
    t.Names (t.victimIndex (t.setOf a)) (t.reserve a).1 := by
  rw [reserve_of_full hf, Names, LineTable.entry?, SlotTable.get?_handleAt]
  cases hc : t.slots.contentAt (t.victimIndex (t.setOf a)) with
  | free => exact absurd hc hne
  | reserved pendingLine => rfl
  | filled line e => exact ⟨rfl, rfl⟩

end Full

/-- What comes of asking for a way for the line of `a`, after a run on the empty table `t`. -/
structure Chooses (t : LineTable γ) (calls : List (TableCall γ)) (a : Addr) : Prop where
  /-- There is a way at once exactly if one of the line's set is free, ... -/
  free_iff : (∃ way, ((t.after calls).reserve a).1 = .free way) ↔
    ∃ i ∈ t.slots.setIndices (t.setOf a), (t.after calls).slots.contentAt i = .free
  /-- ... and then one such way, and nothing else, is reserved for the line. -/
  reserved : ∀ way, ((t.after calls).reserve a).1 = .free way →
    ∃ i ∈ t.slots.setIndices (t.setOf a), (t.after calls).slots.contentAt i = .free ∧
      way = (t.after calls).slots.handleAt i ∧
      (t.after calls).Writes ((t.after calls).reserve a).2 i (.reserved (t.lineAddr a))
  /-- Otherwise nothing changes, and the way that was used longest ago is named. -/
  full : (∀ i ∈ t.slots.setIndices (t.setOf a), (t.after calls).slots.contentAt i ≠ .free) →
    ((t.after calls).reserve a).2 = t.after calls ∧
      ∃ i, t.Oldest calls (t.setOf a) i ∧
        (t.after calls).Names i ((t.after calls).reserve a).1
  /-- The answer is as if nothing had been done to other sets. -/
  apart : ((t.after calls).reserve a).1
    = ((t.after (calls.filter fun c => t.set? c = some (t.setOf a))).reserve a).1

theorem Fresh.chooses (h : t.Fresh) (calls : List (TableCall γ)) (a : Addr) :
    t.Chooses calls a := by
  have hs := h.toShaped.after calls
  obtain ⟨hlayout, hways, -⟩ := h.shape_after calls
  have hset : (t.after calls).setOf a = t.setOf a := by rw [setOf, lineAddr, hlayout]; rfl
  have hline : (t.after calls).lineAddr a = t.lineAddr a := by rw [lineAddr, hlayout]; rfl
  have hindices : (t.after calls).slots.setIndices (t.setOf a)
      = t.slots.setIndices (t.setOf a) := by
    rw [SlotTable.setIndices, hways]
    rfl
  have hapart : ((t.after calls).reserve a).1
      = ((t.after (calls.filter fun c => t.set? c = some (t.setOf a))).reserve a).1 :=
    ((h.alike (t.setOf a) calls).reserve hs a hset).1.symm
  cases hf : (t.after calls).slots.freeIndex? ((t.after calls).setOf a) with
  | some i =>
    obtain ⟨hmem, hfree⟩ := SlotTable.of_findIndex? hf
    have hfree := SlotTable.isFree_iff.1 hfree
    have hi := hs.lt_capacity (show (t.after calls).InSet i ((t.after calls).lineAddr a) from hmem)
    rw [hset, hindices] at hmem
    have heq := reserve_of_free hf hi
    rw [hline] at heq
    refine ⟨iff_of_true ⟨_, congrArg Prod.fst heq⟩ ⟨i, hmem, hfree⟩, fun way hway => ?_,
      fun hfull => absurd hfree (hfull i hmem), hapart⟩
    rw [heq] at hway ⊢
    cases hway
    exact ⟨i, hmem, hfree, rfl, (writes_slots hi _).touch (touchIndex_touches ..)⟩
  | none =>
    have hfull : ∀ i ∈ t.slots.setIndices (t.setOf a),
        (t.after calls).slots.contentAt i ≠ .free := by
      intro i hi hfree
      rw [← hindices, ← hset] at hi
      have := SlotTable.findIndex?_eq_none.1 hf i hi
      rw [hfree] at this
      cases this
    have holdest := h.victim_oldest (t.layout.setIndex_lt _) hfull
    have hnames := names_of_full hf (by rw [hset]; exact hfull _ holdest.mem)
    rw [hset] at hnames
    have hnot := reserve_ne_free hf
    have hnone : ¬ ∃ i ∈ t.slots.setIndices (t.setOf a),
        (t.after calls).slots.contentAt i = .free := by
      rintro ⟨i, hi, hfree⟩
      exact hfull i hi hfree
    refine ⟨iff_of_false (not_exists.2 hnot) hnone, fun way hway => absurd hway (hnot way),
      fun _ => ⟨?_, _, holdest, hnames⟩, hapart⟩
    rw [reserve_of_full hf]

theorem fresh_leastRecent? {g : CacheGeometry} (ht : leastRecent? g = .ok t) : t.Fresh := by
  obtain ⟨hs, hfree, -⟩ := leastRecent?_shaped ht
  obtain ⟨l, hl, ht⟩ := bind_eq_ok.1 ht
  cases ht
  obtain ⟨-, hsets, -⟩ := layout?_eq_ok hl
  exact ⟨hs, by rw [hsets]; rfl, hfree⟩

/-- However a table has been used, a new line gets a free way of its set if there is one, and takes
the place of the line that was used longest ago otherwise. -/
theorem reserve_chooses {g : CacheGeometry} (hg : g.validate = .ok ()) :
    ∃ t : LineTable γ, leastRecent? g = .ok t ∧ ∀ calls a, t.Chooses calls a := by
  obtain ⟨t, ht⟩ := exists_leastRecent? (γ := γ) hg
  exact ⟨t, ht, (fresh_leastRecent? ht).chooses⟩

/-- Two sets of two ways. -/
def twoByTwo : CacheGeometry := { sizeBytes := 128, lineBytes := 32, ways := 2 }

/-- Lines 0 and 64 are filed in one set, and line 32 in the other. Then line 0 is touched. -/
def filedThenTouched : List (TableCall Unit) :=
  [.reserve 0, .install ⟨0, 0⟩ (.filled ()), .reserve 64, .install ⟨1, 0⟩ (.filled ()),
    .reserve 32, .install ⟨2, 0⟩ (.filled ()), .touch ⟨0, 0⟩]

/-- So line 64 has to go when line 128 comes, and the way of line 32 stays out of it. -/
theorem reserve_chooses_touched : twoByTwo.validate = .ok () ∧
    ∃ t : LineTable Unit, leastRecent? twoByTwo = .ok t ∧
      ((t.after filedThenTouched).reserve 128).1 = .victim ⟨1, 0⟩ ∧
      t.Chooses filedThenTouched 128 := by
  have hvalid : twoByTwo.validate = .ok () := by decide
  obtain ⟨t, ht, hchooses⟩ := reserve_chooses (γ := Unit) hvalid
  have hanswer : (leastRecent? twoByTwo).map (fun t : LineTable Unit =>
      ((t.after filedThenTouched).reserve 128).1) = .ok (.victim ⟨1, 0⟩) := rfl
  rw [ht] at hanswer
  exact ⟨hvalid, t, ht, Except.ok.inj hanswer, hchooses filedThenTouched 128⟩

end CacheCoherence.LineTable
