import CacheCoherence.Proofs.Hierarchy.Blueprint

/-!
# Reached — the states that a hierarchy runs through

A hierarchy is built from a configuration, loaded with a trace, and then goes from cycle to
cycle. As long as no cycle ends with an error, it is pictured by a sound scene.
-/

namespace CacheCoherence.Hierarchy

/-- `h` comes from the configuration `c` and the trace `t` by cycles that end without an
error. -/
inductive Reached (c : Config) (t : Trace) : Hierarchy → Prop
  | load {h : Hierarchy} (hc : create? c = .ok h) (ht : (h.load t).2 = none) :
      Reached c t (h.load t).1
  | step {h h' : Hierarchy} (hr : Reached c t h) (hs : h.step = { hierarchy := h' }) :
      Reached c t h'

namespace Reached

variable {c : Config} {t : Trace} {h h' : Hierarchy}

/-- Cycles that end without an error lead on. -/
theorem steps {n : Nat} (hr : Reached c t h) (hs : h.steps n = { hierarchy := h' }) :
    Reached c t h' := by
  induction n generalizing h with
  | zero =>
    cases hs
    exact hr
  | succ n ih =>
    rw [Hierarchy.steps] at hs
    split at hs
    · next next hstep => exact ih (hr.step hstep) hs
    · next hne => exact absurd hs (hne _)

/-- So does a run. -/
theorem drainWithin {n : Nat} (hr : Reached c t h) (hs : h.drainWithin n = { hierarchy := h' }) :
    Reached c t h' := by
  induction n generalizing h with
  | zero =>
    cases hs
    exact hr
  | succ n ih =>
    rw [Hierarchy.drainWithin] at hs
    split at hs
    · cases hs
      exact hr
    · split at hs
      · next next hstep => exact ih (hr.step hstep) hs
      · next hne => exact absurd hs (hne _)

/-- A hierarchy that has got here is pictured by a sound scene. -/
theorem depicts (hr : Reached c t h) (hn : c.nodes ≤ 2 ^ 32) :
    ∃ P s, s.Sound P ∧ h.Depicts P s 0 := by
  induction hr with
  | load hc =>
    obtain ⟨P, hd⟩ := create?_depicts hc hn
    exact ⟨P, .idle P, Scene.sound_idle P, hd.load t⟩
  | step _ hs ih =>
    obtain ⟨P, s, hsound, hd⟩ := ih
    rcases hd.step hsound with ⟨-, s', hsound', hd'⟩ | ⟨f, s', herr, -⟩
    · rw [hs] at hd'
      exact ⟨P, s', hsound', hd'⟩
    · rw [hs] at herr
      cases herr

/-- The only error that a cycle can end with is that of a client that holds the only copy of a
line, does not give it up, and is told that its eviction is accepted. -/
theorem error_eq (hr : Reached c t h) (hn : c.nodes ≤ 2 ^ 32) {e : RunError}
    (he : h.step.error = some e) : ∃ n X st src, (st = .E ∨ st = .M) ∧
      e = .fault (.clientViolation n X { state := st, event := .message .grantI src none }) := by
  obtain ⟨P, s, hs, hd⟩ := hr.depicts hn
  rcases hd.step hs with ⟨hnone, -⟩ | ⟨f, s', herr, -, p, m, st, -, -, -, -, hst, rfl⟩
  · rw [hnone] at he
    cases he
  · rw [herr] at he
    cases he
    exact ⟨_, _, st, _, hst, rfl⟩

end Reached

/-- The hierarchy of `c` with the accesses of `t` after `n` cycles, if none of them ends with an
error. -/
def after? (c : Config) (t : Trace) (n : Nat) : Option Hierarchy :=
  match create? c with
  | .error _ => none
  | .ok h =>
      match h.load t with
      | (h, none) =>
          match h.steps n with
          | { hierarchy, error := none } => some hierarchy
          | _ => none
      | _ => none

theorem reached_of_after? {c : Config} {t : Trace} {n : Nat} {h : Hierarchy}
    (ha : after? c t n = some h) : Reached c t h := by
  unfold after? at ha
  split at ha
  · cases ha
  · next h₀ hc =>
    split at ha
    · next h₁ hl =>
      have hload : Reached c t h₁ := by
        have hr := Reached.load (t := t) hc (by rw [hl])
        rwa [hl] at hr
      split at ha
      · next hs =>
        cases ha
        exact hload.steps hs
      · cases ha
    · cases ha

theorem exists_reached {c : Config} {t : Trace} {n : Nat} {α : Type} {f : Hierarchy → α} {x : α}
    (hx : (after? c t n).map f = some x) : ∃ h, Reached c t h ∧ f h = x := by
  obtain ⟨h, ha, rfl⟩ := Option.map_eq_some_iff.1 hx
  exact ⟨h, reached_of_after? ha, rfl⟩

/-- Two cores with little room, where nothing takes time but the clock. -/
def twoCores : Config :=
  let cache : CacheGeometry :=
    { sizeBytes := 64, lineBytes := 32, ways := 1, hitTime := 0, lookupTime := 0 }
  { topology := { cores := 2, linkLatency := 0 }, l1 := { cache }, l2 := { cache },
    memory := { latency := 0 } }

/-- One of the cores writes to a line. -/
def oneWrite : Trace := { entries := [{ core := 0, access := .write, addr := 0 }] }

end CacheCoherence.Hierarchy
