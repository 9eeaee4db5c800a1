import CacheCoherence.PrivateCache.Tick
import CacheCoherence.SharedBank.Tick
import Mathlib.Algebra.BigOperators.Intervals

/-!
# Retries — working the backlog off comes to an end

The queue of woken requests grows while it is worked off, so its length says nothing about how
long that takes. But a request that is tried again is either parked, which wakes none, or it
leaves the backlog for good. Between two requests that leave no more can be tried than the
backlog holds, and it holds fewer each time.
-/

namespace CacheCoherence

/-! ## Loops -/

namespace Work

variable {σ : Type} {turn : σ → Option (Work σ)} {s : σ} {w : Work σ} {n : Nat}

/-- Work that is done turn by turn, where `turn` says what is done in the next one, if there is
anything left to do. From `s` on it comes to its end `w` in `n` turns. -/
inductive Loops (turn : σ → Option (Work σ)) : σ → Nat → Work σ → Prop
  | ended {s : σ} (h : turn s = none) : Loops turn s 0 (done s)
  | stopped {s : σ} {w : Work σ} (h : turn s = some w) (hf : w.fault ≠ none) : Loops turn s 1 w
  | goesOn {s : σ} {w v : Work σ} {n : Nat} (h : turn s = some w) (hf : w.fault = none)
      (hv : Loops turn w.node n v) : Loops turn s (n + 1) (w.andThen fun _ => v)

/-- Unless a fault has stopped it, nothing is left to do. -/
theorem Loops.turn_eq_none (h : Loops turn s n w) (hf : w.fault = none) : turn w.node = none := by
  induction h with
  | ended h => exact h
  | stopped _ hstop => exact absurd hf hstop
  | goesOn _ hw _ ih =>
    rw [andThen_node hw]
    exact ih (andThen_fault_eq_none.1 hf).2

/-- A measure that falls from turn to turn bounds their number. -/
theorem Loops.exists_le {loop : σ → Work σ} {μ : σ → Nat}
    (hend : ∀ s, turn s = none → loop s = done s)
    (hturn : ∀ s w, turn s = some w → loop s = w.andThen loop)
    (hpos : ∀ s w, turn s = some w → 0 < μ s)
    (hlt : ∀ s w, turn s = some w → w.fault = none → μ w.node < μ s) (s : σ) :
    ∃ n ≤ μ s, Loops turn s n (loop s) := by
  induction hμ : μ s using Nat.strong_induction_on generalizing s with
  | _ m ih =>
    subst hμ
    cases ht : turn s with
    | none =>
      rw [hend s ht]
      exact ⟨0, Nat.zero_le _, .ended ht⟩
    | some w =>
      rw [hturn s w ht]
      cases hf : w.fault with
      | some f =>
        have hstop : w.andThen loop = w := by simp [andThen, hf]
        rw [hstop]
        exact ⟨1, hpos s w ht, .stopped ht (by simp [hf])⟩
      | none =>
        obtain ⟨n, hn, hv⟩ := ih (μ w.node) (hlt s w ht hf) w.node rfl
        have hgo : w.andThen loop = w.andThen fun _ => loop w.node := by simp [andThen, hf]
        rw [hgo]
        exact ⟨n + 1, Nat.lt_of_le_of_lt hn (hlt s w ht hf), .goesOn ht hf hv⟩

end Work

/-! ## How many turns there can be -/

namespace Backlog

variable {α : Type} {b b' : Backlog α}

/-- How many turns it takes at most to work the backlog off: those that are queued, and after each
request that leaves as many as there are others. -/
def turns (b : Backlog α) : Nat := b.retries.length + b.load * (b.load - 1) / 2

theorem turns_pos (hq : b.retries ≠ []) : 0 < b.turns :=
  Nat.add_pos_left (List.length_pos_iff.2 hq) _

/-- With every turn fewer remain. -/
theorem turns_lt (hq : b.retries ≠ []) (h : Prod.Lex (· < ·) (· < ·)
    (b'.load, b'.retries.length) (b.load, b.retries.length)) : b'.turns < b.turns := by
  rcases Prod.lex_def.1 h with hload | ⟨hload, hlen⟩
  · -- a request has left: all that is held back may be queued again
    have hqueued : b'.retries.length ≤ b'.load := Nat.le_add_left ..
    calc b'.turns
      _ ≤ b'.load * (b'.load - 1) / 2 + b'.load := by
          rw [turns, Nat.add_comm]
          exact Nat.add_le_add_left hqueued _
      _ = (b'.load + 1) * b'.load / 2 := (Nat.triangle_succ b'.load).symm
      _ ≤ b.load * (b.load - 1) / 2 :=
          Nat.div_le_div_right (Nat.mul_le_mul hload (Nat.le_sub_one_of_lt hload))
      _ < b.turns := Nat.lt_add_of_pos_left (List.length_pos_iff.2 hq)
  · -- it is parked again
    dsimp only at hload hlen
    unfold turns
    rw [hload]
    exact Nat.add_lt_add_right hlen _

end Backlog

/-! ## Retries -/

section

variable {σ α : Type} {backlog : σ → Backlog α} {retrying : σ → List (Parked α) → σ}
  {again : σ → α → Except Fault σ} {drain : σ → Work σ} {s : σ} {w : Work σ}

/-- The first of the woken requests of a node is tried again, if there is one: with the others left
in the queue (`retrying`) it is handled once more (`again`). -/
def Backlog.retrial? (backlog : σ → Backlog α) (retrying : σ → List (Parked α) → σ)
    (again : σ → α → Except Fault σ) (s : σ) : Option (Work σ) :=
  match (backlog s).retries with
  | [] => none
  | e :: rest => some (.ofExcept (retrying s rest) (again (retrying s rest) e.item))

namespace Backlog

theorem retrial?_eq_none : retrial? backlog retrying again s = none ↔ (backlog s).retries = [] := by
  unfold retrial?
  cases (backlog s).retries <;> simp

theorem exists_of_retrial? (h : retrial? backlog retrying again s = some w) :
    ∃ e rest, (backlog s).retries = e :: rest ∧
      w = .ofExcept (retrying s rest) (again (retrying s rest) e.item) := by
  unfold retrial? at h
  split at h
  · cases h
  · next e rest hq =>
    cases h
    exact ⟨e, rest, hq, rfl⟩

/-- A node that drains its backlog by retries, each of which lowers the load or shortens the queue,
is done with it in time. -/
theorem loops_of_decreases
    (hnil : ∀ s, (backlog s).retries = [] → drain s = .done s)
    (hcons : ∀ s e rest, (backlog s).retries = e :: rest →
      drain s = (Work.ofExcept (retrying s rest) (again (retrying s rest) e.item)).andThen drain)
    (hlt : ∀ s d e rest, (backlog s).retries = e :: rest →
      again (retrying s rest) e.item = .ok d →
      Prod.Lex (· < ·) (· < ·) ((backlog d).load, (backlog d).retries.length)
        ((backlog s).load, (backlog s).retries.length)) (s : σ) :
    ∃ n ≤ (backlog s).turns, Work.Loops (retrial? backlog retrying again) s n (drain s) ∧
      ((drain s).fault ≠ none ∨ (backlog (drain s).node).retries = []) := by
  have hpos (s : σ) (w : Work σ) (h : retrial? backlog retrying again s = some w) :
      0 < (backlog s).turns :=
    turns_pos fun hq => by
      rw [retrial?_eq_none.2 hq] at h
      cases h
  have hfalls (s : σ) (w : Work σ) (h : retrial? backlog retrying again s = some w)
      (hf : w.fault = none) : (backlog w.node).turns < (backlog s).turns := by
    obtain ⟨e, rest, hq, rfl⟩ := exists_of_retrial? h
    cases hp : again (retrying s rest) e.item with
    | error f =>
      rw [hp] at hf
      cases hf
    | ok d => exact turns_lt (by rw [hq]; nofun) (hlt s d e rest hq hp)
  have hloop (s : σ) (w : Work σ) (h : retrial? backlog retrying again s = some w) :
      drain s = w.andThen drain := by
    obtain ⟨e, rest, hq, rfl⟩ := exists_of_retrial? h
    exact hcons s e rest hq
  obtain ⟨n, hn, hl⟩ := Work.Loops.exists_le (fun s h => hnil s (retrial?_eq_none.1 h)) hloop hpos
    hfalls s
  refine ⟨n, hn, hl, or_iff_not_imp_left.2 fun hf => ?_⟩
  exact retrial?_eq_none.1 (hl.turn_eq_none (not_not.1 hf))

end Backlog

end

/-- A cache tries a woken request again. -/
def PrivateCache.retrial? : PrivateCache → Option (Work PrivateCache) :=
  Backlog.retrial? backlog retrying fun c r => c.process r false

/-- A bank tries a woken request again. -/
def SharedBank.retrial? : SharedBank → Option (Work SharedBank) :=
  Backlog.retrial? backlog retrying fun c msg => c.process msg false

/-- Whatever state an event has left a cache or a bank in, the woken requests are tried again only
so often: then a fault has stopped it, or none is left. -/
theorem drain_terminates :
    (∀ c : PrivateCache, ∃ n ≤ c.backlog.turns, Work.Loops PrivateCache.retrial? c n c.drain ∧
      (c.drain.fault ≠ none ∨ c.drain.node.backlog.retries = [])) ∧
    (∀ c : SharedBank, ∃ n ≤ c.backlog.turns, Work.Loops SharedBank.retrial? c n c.drain ∧
      (c.drain.fault ≠ none ∨ c.drain.node.backlog.retries = [])) :=
  ⟨Backlog.loops_of_decreases (fun _ => PrivateCache.drain_nil)
      (fun _ _ _ => PrivateCache.drain_cons) fun _ _ _ _ => PrivateCache.retry_decreases,
    Backlog.loops_of_decreases (fun _ => SharedBank.drain_nil)
      (fun _ _ _ => SharedBank.drain_cons) fun _ _ _ _ => SharedBank.retry_decreases⟩

end CacheCoherence
