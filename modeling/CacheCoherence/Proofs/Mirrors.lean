import CacheCoherence.Work

/-!
# Mirrors — the same work on another node

A node may be replaced by another one that differs in what does not matter. Work on it is mirrored
if the other node does the same: the same packets leave, the same fault stops it, and the
nodes still differ in the same way.
-/

namespace CacheCoherence

variable {σ ε : Type} {f : σ → σ} {I : σ → Prop}

/-- A result and its mirror image under `f`. In a success, `I` holds of the value. -/
inductive Mirrored (f : σ → σ) (I : σ → Prop) : Except Fault σ → Except Fault σ → Prop
  | ok {d : σ} (h : I d) : Mirrored f I (.ok d) (.ok (f d))
  | error (e : Fault) : Mirrored f I (.error e) (.error e)

namespace Mirrored

/-- Both results are looked up first, and found alike. -/
theorem bind {α : Type} {x : Except Fault α} {next next' : α → Except Fault σ}
    (h : ∀ a, Mirrored f I (next a) (next' a)) : Mirrored f I (x >>= next) (x >>= next') := by
  cases x with
  | error e => exact .error e
  | ok a => exact h a

/-- A further change that is mirrored, too. -/
theorem map {x x' : Except Fault σ} {k : σ → σ} (h : Mirrored f I x x')
    (hk : ∀ d, I d → k (f d) = f (k d) ∧ I (k d)) :
    Mirrored f I (x >>= fun d => pure (k d)) (x' >>= fun d => pure (k d)) := by
  cases h with
  | error e => exact .error e
  | @ok d hd =>
    obtain ⟨heq, hI⟩ := hk d hd
    show Mirrored f I (.ok (k d)) (.ok (k (f d)))
    rw [heq]
    exact .ok hI

end Mirrored

namespace Work

/-- The work `w'` is the mirror image of `w`. As long as no fault stops it, `I` holds. -/
structure Mirrors (f : σ → σ) (I : σ → Prop) (w w' : Work σ) : Prop where
  node : w'.node = f w.node
  sent : w'.sent = w.sent
  fault : w'.fault = w.fault
  holds : w.fault = none → I w.node

namespace Mirrors

variable {n : σ} {w w' : Work σ}

theorem done (h : I n) (sent : List Packet) : Mirrors f I (done n sent) (done (f n) sent) :=
  ⟨rfl, rfl, rfl, fun _ => h⟩

theorem faulted (n : σ) (e : Fault) : Mirrors f I (faulted n e) (faulted (f n) e) :=
  ⟨rfl, rfl, rfl, nofun⟩

theorem ofExcept {x x' : Except Fault σ} (h : Mirrored f I x x') :
    Mirrors f I (ofExcept n x) (ofExcept (f n) x') := by
  cases h with
  | ok h => exact .done h []
  | error e => exact .faulted n e

theorem andThen {next next' : σ → Work σ} (h : Mirrors f I w w')
    (hnext : ∀ n, I n → Mirrors f I (next n) (next' (f n))) :
    Mirrors f I (w.andThen next) (w'.andThen next') := by
  cases hw : w.fault with
  | some e =>
    have hstop : w.andThen next = w := by simp [Work.andThen, hw]
    have hstop' : w'.andThen next' = w' := by simp [Work.andThen, h.fault, hw]
    rw [hstop, hstop']
    exact h
  | none =>
    have hw' : w'.fault = none := h.fault.trans hw
    have hrest := hnext w.node (h.holds hw)
    rw [← h.node] at hrest
    simp only [Work.andThen, hw, hw', h.sent]
    exact ⟨hrest.node, congrArg (w.sent ++ ·) hrest.sent, hrest.fault, hrest.holds⟩

/-- Events are mirrored one by one. -/
theorem through {setQueue : σ → List ε → σ} {handle : σ → ε → Work σ} {g : ε → ε}
    (hset : ∀ n queue, setQueue (f n) (queue.map g) = f (setQueue n queue))
    (hI : ∀ n queue, I n → I (setQueue n queue))
    (hhandle : ∀ n e, I n → Mirrors f I (handle n e) (handle (f n) (g e)))
    (hn : I n) (events : List ε) :
    Mirrors f I (through setQueue handle n events) (through setQueue handle (f n) (events.map g)) := by
  induction events generalizing n with
  | nil => exact .done hn []
  | cons e rest ih =>
    have hhead := hhandle _ e (hI n rest hn)
    rw [← hset] at hhead
    exact hhead.andThen fun n hn => ih hn

/-- Nodes that work side by side are mirrored one by one. -/
theorem forEach {work : σ → Work σ} (hwork : ∀ n, I n → Mirrors f I (work n) (work (f n)))
    {ns : List σ} (hns : ∀ n ∈ ns, I n) :
    Mirrors (List.map f) (∀ n ∈ ·, I n) (forEach work ns) (forEach work (ns.map f)) := by
  induction ns with
  | nil => exact .done hns []
  | cons n rest ih =>
    obtain ⟨hn, hrest⟩ := List.forall_mem_cons.1 hns
    have hhead := hwork n hn
    have htail := ih hrest
    rw [List.map_cons, Work.forEach, Work.forEach]
    cases hw : (work n).fault with
    | some e =>
      simp only [hhead.fault, hw]
      refine ⟨?_, hhead.sent, rfl, fun he => ?_⟩
      · rw [hhead.node]
        rfl
      · cases he
    | none =>
      simp only [hhead.fault, hw]
      refine ⟨?_, ?_, htail.fault, fun hf => ?_⟩
      · rw [hhead.node, htail.node]
        rfl
      · rw [hhead.sent, htail.sent]
      · exact List.forall_mem_cons.2 ⟨hhead.holds hw, htail.holds hf⟩

end Mirrors

end Work

end CacheCoherence
