import CacheCoherence.Fault

/-!
# Work — what a node does in one go

A node reacts to an event by changing and by putting packets on the
interconnect; a fault stops it. What it changed and sent before the fault stays
done, so the outcome of a piece of work always holds the node and the packets,
and the fault beside them.
-/

namespace CacheCoherence

/-- The outcome of a piece of work of a node of type `σ`. -/
structure Work (σ : Type) where
  /-- The node afterwards. -/
  node : σ
  /-- The packets put on the interconnect, in order. -/
  sent : List Packet := []
  /-- What stopped the work, if anything did. -/
  fault : Option Fault := none

namespace Work

variable {σ ε : Type}

/-- Work that came to its end. -/
def done (node : σ) (sent : List Packet := []) : Work σ := { node, sent }

/-- Work that was stopped. -/
def faulted (node : σ) (fault : Fault) : Work σ := { node, fault := some fault }

/-- A change of the node alone, or the node as it was and the fault that
prevented the change. -/
def ofExcept (node : σ) : Except Fault σ → Work σ
  | .ok node => done node
  | .error fault => faulted node fault

/-- Goes on with `next`, unless a fault stopped the work. -/
def andThen (w : Work σ) (next : σ → Work σ) : Work σ :=
  match w.fault with
  | some _ => w
  | none =>
      let v := next w.node
      { v with sent := w.sent ++ v.sent }

/-- Handles queued events in order until one faults. While an event is handled,
the node's queue (set by `setQueue`) holds the events behind it. -/
def through (setQueue : σ → List ε → σ) (handle : σ → ε → Work σ) (node : σ) :
    List ε → Work σ
  | [] => done node
  | e :: rest =>
      (handle (setQueue node rest) e).andThen fun node => through setQueue handle node rest

/-- Lets nodes work one after another until one faults. -/
def forEach (work : σ → Work σ) : List σ → Work (List σ)
  | [] => done []
  | n :: rest =>
      let w := work n
      match w.fault with
      | some _ => { w with node := w.node :: rest }
      | none =>
          let v := forEach work rest
          { v with node := w.node :: v.node, sent := w.sent ++ v.sent }

@[simp] theorem andThen_done (node : σ) (next : σ → Work σ) :
    (done node).andThen next = next node := by
  simp [andThen, done]

@[simp] theorem andThen_faulted (node : σ) (fault : Fault) (next : σ → Work σ) :
    (faulted node fault).andThen next = faulted node fault := rfl

/-- Work in two parts succeeds exactly when both parts do. -/
theorem andThen_fault_eq_none {w : Work σ} {next : σ → Work σ} :
    (w.andThen next).fault = none ↔ w.fault = none ∧ (next w.node).fault = none := by
  cases hw : w.fault <;> simp [andThen, hw]

/-- The node is then what the second part makes of it. -/
theorem andThen_node {w : Work σ} {next : σ → Work σ} (h : w.fault = none) :
    (w.andThen next).node = (next w.node).node := by
  simp [andThen, h]

/-- And what the second part sends follows what the first has sent. -/
theorem andThen_sent {w : Work σ} {next : σ → Work σ} (h : w.fault = none) :
    (w.andThen next).sent = w.sent ++ (next w.node).sent := by
  simp [andThen, h]

/-- A change that succeeds once packets have been sent. -/
theorem andThen_ofExcept_ok {n d : σ} {ps : List Packet} {next : σ → Except Fault σ}
    (h : next n = .ok d) :
    ((done n ps).andThen fun n => ofExcept n (next n)) = done d ps := by
  simp only [andThen, done, h, ofExcept, List.append_nil]

/-- A change that fails once packets have been sent. -/
theorem andThen_ofExcept_error {n : σ} {ps : List Packet} {next : σ → Except Fault σ} {f : Fault}
    (h : next n = .error f) :
    ((done n ps).andThen fun n => ofExcept n (next n)).fault = some f := by
  simp only [andThen, done, h, ofExcept, faulted]

/-- What each event preserves holds of the node once it has handled all of them. The
property may depend on the events that are left. -/
theorem through_induction {setQueue : σ → List ε → σ} {handle : σ → ε → Work σ}
    {Q : List ε → σ → Prop}
    (hstep : ∀ n e rest, Q (e :: rest) n → (handle (setQueue n rest) e).fault = none →
      Q rest (handle (setQueue n rest) e).node)
    {n : σ} {events : List ε} (hn : Q events n)
    (hf : (through setQueue handle n events).fault = none) :
    Q [] (through setQueue handle n events).node := by
  induction events generalizing n with
  | nil => exact hn
  | cons e rest ih =>
    obtain ⟨he, hrest⟩ := andThen_fault_eq_none.1 hf
    rw [through, andThen_node he]
    exact ih (hstep n e rest hn he) hrest

/-- The other nodes go on once the first has come to the end of its work. -/
theorem forEach_cons {work : σ → Work σ} {n : σ} {rest : List σ} (h : (work n).fault = none) :
    forEach work (n :: rest) = { forEach work rest with
      node := (work n).node :: (forEach work rest).node
      sent := (work n).sent ++ (forEach work rest).sent } := by
  rw [forEach, h]

/-- Nodes that all come to the end of their work do it side by side. -/
theorem forEach_node {work : σ → Work σ} {ns : List σ} (hf : (forEach work ns).fault = none) :
    (forEach work ns).node = ns.map (fun n => (work n).node) ∧
      ∀ n ∈ ns, (work n).fault = none := by
  induction ns with
  | nil => exact ⟨rfl, nofun⟩
  | cons n rest ih =>
    unfold forEach at hf ⊢
    dsimp only at hf ⊢
    split at hf
    · next f hn =>
      rw [hn] at hf
      cases hf
    · next hn =>
      obtain ⟨hnode, hall⟩ := ih hf
      exact ⟨congrArg _ hnode, List.forall_mem_cons.2 ⟨hn, hall⟩⟩

/-! ## Work that loses no way -/

/-- The work ends with a node of which `Q` holds or with a fault, which is not that a way is gone
that a transaction had. -/
structure Secure (Q : σ → Prop) (w : Work σ) : Prop where
  node : w.fault = none → Q w.node
  fault : ∀ f, w.fault = some f → f.losesWay = false

variable {Q R : σ → Prop} {n : σ}

theorem Secure.done (h : Q n) (sent : List Packet) : Secure Q (done n sent) :=
  ⟨fun _ => h, fun _ hf => absurd hf (Option.some_ne_none _).symm⟩

theorem Secure.of_fault {w : Work σ} {f : Fault} (hw : w.fault = some f)
    (h : f.losesWay = false) : Secure Q w where
  node hnone := by
    rw [hw] at hnone
    cases hnone
  fault f' hf := by
    rw [hw] at hf
    cases hf
    exact h

theorem Secure.faulted {f : Fault} (h : f.losesWay = false) : Secure Q (faulted n f) :=
  .of_fault rfl h

theorem Secure.andThen {w : Work σ} {next : σ → Work σ} (h : Secure Q w)
    (hnext : ∀ n, Q n → Secure R (next n)) : Secure R (w.andThen next) := by
  cases hf : w.fault with
  | some f =>
    have hw : w.andThen next = w := by simp [Work.andThen, hf]
    rw [hw]
    exact .of_fault hf (h.fault f hf)
  | none =>
    have hrest := hnext w.node (h.node hf)
    constructor
    · intro hnone
      rw [andThen_node hf]
      exact hrest.node (andThen_fault_eq_none.1 hnone).2
    · intro f hsome
      simp only [Work.andThen, hf] at hsome
      exact hrest.fault f hsome

/-- Events that are secure one by one are so in their order. -/
theorem Secure.through {setQueue : σ → List ε → σ} {handle : σ → ε → Work σ}
    (hset : ∀ n queue, Q n → Q (setQueue n queue)) (hstep : ∀ n e, Q n → Secure Q (handle n e))
    (hn : Q n) (events : List ε) : Secure Q (through setQueue handle n events) := by
  induction events generalizing n with
  | nil => exact .done hn []
  | cons e rest ih => exact (hstep _ e (hset n rest hn)).andThen fun n hn => ih hn

end Work

end CacheCoherence
