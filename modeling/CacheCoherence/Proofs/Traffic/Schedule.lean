import CacheCoherence.Proofs.Traffic.Metering

/-!
# Schedule — everything arrives when its time has come

All packets travel for the same number of cycles. So what is on its way is what was sent in the
last cycles, cycle by cycle, and what arrives in a cycle is what was sent that many cycles ago,
all of it and nothing else.
-/

namespace CacheCoherence

namespace DelayLine

variable {α : Type}

/-- The items of several cycles, of which those of the first are ready at `ready`. -/
def stamped (ready : Nat) : List (List α) → List (Nat × α)
  | [] => []
  | xs :: rest => xs.map (ready, ·) ++ stamped (ready + 1) rest

theorem stamped_concat (ready : Nat) (xss : List (List α)) (xs : List α) :
    stamped ready (xss ++ [xs]) = stamped ready xss ++ xs.map (ready + xss.length, ·) := by
  induction xss generalizing ready with
  | nil => simp [stamped]
  | cons ys rest ih =>
    simp only [List.cons_append, stamped, ih, List.length_cons, List.append_assoc]
    rw [show ready + 1 + rest.length = ready + (rest.length + 1) by omega]

theorem map_stamped (ready : Nat) (xss : List (List α)) :
    (stamped ready xss).map (·.2) = xss.flatten := by
  induction xss generalizing ready with
  | nil => rfl
  | cons xs rest ih => simp [stamped, ih, Function.comp_def]

/-- Nothing is ready early. -/
theorem le_of_mem_stamped {ready : Nat} {xss : List (List α)} {i : Nat × α}
    (hi : i ∈ stamped ready xss) : ready ≤ i.1 := by
  induction xss generalizing ready with
  | nil => cases hi
  | cons xs rest ih =>
    rcases List.mem_append.1 hi with hi | hi
    · obtain ⟨x, -, rfl⟩ := List.mem_map.1 hi
      exact Nat.le_refl ready
    · have := ih hi
      omega

variable {d : DelayLine α} {now ready : Nat} {xs : List α} {xss : List (List α)}

/-- Before the first items are ready nothing arrives. -/
theorem arrived_early (hd : d.items = stamped ready xss) (hlt : now < ready) :
    d.arrived now = [] ∧ (d.remaining now).items = stamped ready xss := by
  have hlate : ∀ i ∈ stamped ready xss, ¬ i.1 ≤ now := by
    intro i hi
    have := le_of_mem_stamped hi
    omega
  unfold arrived remaining
  rw [hd]
  cases hs : stamped ready xss with
  | nil => simp
  | cons i rest =>
    have hi := hlate i (hs ▸ List.mem_cons_self)
    simp [hi]

/-- When the first items are ready they arrive, and the others stay. -/
theorem arrived_due (hd : d.items = stamped now (xs :: xss)) :
    d.arrived now = xs ∧ (d.remaining now).items = stamped (now + 1) xss := by
  have hdue : ∀ i ∈ xs.map (now, ·), decide (i.1 ≤ now) = true := by
    intro i hi
    obtain ⟨x, -, rfl⟩ := List.mem_map.1 hi
    simp
  obtain ⟨hnone, hrest⟩ := arrived_early (d := { d with items := stamped (now + 1) xss }) rfl
    (Nat.lt_succ_self now)
  simp only [arrived, remaining] at hnone hrest ⊢
  rw [hd, stamped, List.takeWhile_append_of_pos hdue, List.dropWhile_append_of_pos hdue,
    List.map_append, hnone]
  exact ⟨by simp [Function.comp_def], hrest⟩

end DelayLine

namespace Interconnect

open DelayLine (stamped)

/-- On its way is what was sent in the last `latency` of the cycles `sends`. -/
structure Carries (n : Interconnect) (latency : Nat) (sends : List (List Packet)) : Prop where
  travel : n.inFlight.latency = latency
  items : n.inFlight.items
    = stamped (sends.length - latency + latency + 1) (sends.drop (sends.length - latency))

variable {n : Interconnect} {latency : Nat} {sends : List (List Packet)}

theorem carries_nil (h : n.inFlight.items = []) : n.Carries n.inFlight.latency [] where
  travel := rfl
  items := by rw [h, List.drop_nil, stamped]

/-- On its way is what nobody has received yet. -/
theorem Carries.inFlight (h : n.Carries latency sends) :
    n.inFlight.toList = (sends.drop (sends.length - latency)).flatten := by
  rw [DelayLine.toList, h.items, DelayLine.map_stamped]

theorem sendAll_eq (n : Interconnect) (ps : List Packet) :
    (n.sendAll ps).inFlight = { n.inFlight with
      items := n.inFlight.items ++ ps.map (n.now + n.inFlight.latency, ·) } := by
  induction ps generalizing n with
  | nil => simp
  | cons p rest ih =>
    show ((n.send p).sendAll rest).inFlight = _
    rw [ih]
    simp [send, DelayLine.push]

/-- What arrives in a cycle was sent `latency` cycles ago. -/
theorem Carries.arrived (h : n.Carries latency sends) (hpos : 0 < latency) :
    n.arrived (sends.length + 1)
      = if hle : latency ≤ sends.length then sends[sends.length - latency] else [] := by
  split
  · next hle =>
    have hitems := h.items
    rw [Nat.sub_add_cancel hle, List.drop_eq_getElem_cons (by omega)] at hitems
    exact (DelayLine.arrived_due hitems).1
  · exact (DelayLine.arrived_early h.items (by omega)).1

/-- A cycle in which `ps` are sent. -/
theorem Carries.cycle (h : n.Carries latency sends) (hpos : 0 < latency) (ps : List Packet) :
    ((({ n with now := sends.length + 1 } : Interconnect).remaining (sends.length + 1)).sendAll
      ps).Carries latency (sends ++ [ps]) := by
  constructor
  · rw [sendAll_eq]
    exact h.travel
  · rw [sendAll_eq, List.length_append, List.length_singleton]
    show (n.inFlight.remaining _).items ++ ps.map (sends.length + 1 + n.inFlight.latency, ·) = _
    rw [h.travel]
    by_cases hle : latency ≤ sends.length
    · -- the oldest cycle has arrived, and the new one takes its place
      have hitems := h.items
      rw [Nat.sub_add_cancel hle, List.drop_eq_getElem_cons (by omega)] at hitems
      rw [(DelayLine.arrived_due hitems).2, Nat.sub_add_cancel (by omega),
        show sends.length + 1 - latency = sends.length - latency + 1 by omega,
        List.drop_append_of_le_length (by omega), DelayLine.stamped_concat, List.length_drop]
      congr 3
      funext p
      congr 1
      omega
    · rw [(DelayLine.arrived_early h.items (by omega)).2,
        show sends.length - latency = 0 by omega, show sends.length + 1 - latency = 0 by omega,
        List.drop_zero, List.drop_zero, DelayLine.stamped_concat]
      congr 3
      funext p
      congr 1
      omega

end Interconnect

end CacheCoherence
