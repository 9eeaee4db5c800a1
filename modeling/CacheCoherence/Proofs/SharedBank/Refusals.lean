import CacheCoherence.Proofs.SharedBank.Lifecycle

/-!
# Refusals — replies of memory that come unasked

A bank refuses a reply of memory only if it does not wait for one on the line. Nothing else that
it does ends with this fault, whatever other faults it meets.
-/

namespace CacheCoherence

/-- The fault is a reply of memory that came unasked. -/
def Fault.blamesMemory : Fault → Bool
  | .unexpectedMemoryReply .. => true
  | _ => false

/-- The computation does not end with a reply of memory that came unasked. -/
structure Blameless {α : Type} (x : Except Fault α) : Prop where
  fault : ∀ f, x = .error f → f.blamesMemory = false

namespace Blameless

variable {α β : Type}

theorem ok (a : α) : Blameless (.ok a) := by
  constructor
  rintro f ⟨⟩

theorem error {f : Fault} (h : f.blamesMemory = false) :
    Blameless (.error f : Except Fault α) := by
  constructor
  rintro _ ⟨⟩
  exact h

theorem bind {x : Except Fault α} {f : α → Except Fault β} (hx : Blameless x)
    (hf : ∀ a, Blameless (f a)) : Blameless (x >>= f) := by
  cases x with
  | ok a => exact hf a
  | error e => exact .error (hx.fault e rfl)

end Blameless

namespace Work

variable {σ ε : Type} {w : Work σ}

/-- The work is not stopped by a reply of memory that came unasked. -/
structure Blameless (w : Work σ) : Prop where
  fault : ∀ f, w.fault = some f → f.blamesMemory = false

theorem Blameless.done (n : σ) (sent : List Packet) : (done n sent).Blameless := by
  constructor
  rintro f ⟨⟩

theorem Blameless.faulted {n : σ} {f : Fault} (h : f.blamesMemory = false) :
    (faulted n f).Blameless := by
  constructor
  rintro _ ⟨⟩
  exact h

theorem Blameless.ofExcept {n : σ} {x : Except Fault σ} (h : CacheCoherence.Blameless x) :
    (ofExcept n x).Blameless := by
  cases x with
  | ok d => exact .done d []
  | error f => exact .faulted (h.fault f rfl)

theorem Blameless.andThen {next : σ → Work σ} (h : w.Blameless)
    (hnext : w.fault = none → (next w.node).Blameless) : (w.andThen next).Blameless := by
  constructor
  intro f hf
  cases hw : w.fault with
  | some f' =>
    rw [Work.andThen, hw] at hf
    exact h.fault f hf
  | none =>
    rw [Work.andThen, hw] at hf
    exact (hnext hw).fault f hf

/-- Events that are handled without this fault, one after another, are so all together. What is
known of the node may depend on the events that are left. -/
theorem Blameless.through {setQueue : σ → List ε → σ} {handle : σ → ε → Work σ}
    {Q : List ε → σ → Prop}
    (hstep : ∀ n e rest, Q (e :: rest) n → (handle (setQueue n rest) e).Blameless ∧
      ((handle (setQueue n rest) e).fault = none → Q rest (handle (setQueue n rest) e).node))
    {n : σ} {events : List ε} (hn : Q events n) :
    (through setQueue handle n events).Blameless := by
  induction events generalizing n with
  | nil => exact .done n []
  | cons e rest ih =>
    obtain ⟨he, hkept⟩ := hstep n e rest hn
    exact he.andThen fun hf => ih (hkept hf)

end Work

namespace SharedBank

variable {c : SharedBank} {line : Addr} {register way : Handle} {m : ManagerMiss}
  {event : ManagerEvent}

theorem blameless_step (c : SharedBank) (line : Addr) (l : ManagerLine) (event : ManagerEvent) :
    Blameless (c.step line l event) := by
  constructor
  intro f hf
  obtain ⟨r, rfl⟩ := mapError_eq_error hf
  rfl

theorem blameless_finishEviction (c : SharedBank) (victim : Handle) (victimLine : Addr) :
    Blameless (c.finishEviction victim victimLine) := by
  unfold finishEviction
  split
  · exact .ok _
  · split
    · exact .error rfl
    · exact .ok _

theorem blameless_startEviction (c : SharedBank) (victim : Handle) (victimLine : Addr)
    (e : LineEntry ManagerLine) : Blameless (c.startEviction victim victimLine e) := by
  refine (c.blameless_step ..).bind fun t => ?_
  dsimp only
  split
  · exact blameless_finishEviction ..
  · exact .ok _

theorem blameless_admission (c : SharedBank) (msg : CoherenceMessage) (fresh : Bool) :
    Blameless (c.admission msg fresh) := by
  unfold admission
  dsimp only
  split
  · exact .ok _
  · split
    · unfold admissionResident
      split
      · exact .ok _
      · refine (c.blameless_step ..).bind fun t => ?_
        split
        · exact .ok _
        · split <;> exact .ok _
    · exact .ok _

/-- A request, new or parked before. -/
theorem blameless_process (c : SharedBank) (msg : CoherenceMessage) (fresh : Bool) :
    Blameless (c.process msg fresh) := by
  rw [process_eq]
  refine (c.blameless_admission msg fresh).bind fun a => ?_
  cases a with
  | replace register victim victimLine e => exact blameless_startEviction ..
  | _ => exact .ok _

theorem blameless_drain (c : SharedBank) : c.drain.Blameless := by
  induction c using drain.induct with
  | case1 c hq =>
    rw [drain_nil hq]
    exact .done c []
  | case2 c x rest hq fault hp =>
    rw [drain_cons hq]
    exact (Work.Blameless.ofExcept (blameless_process ..)).andThen fun hf => by
      rw [hp] at hf
      cases hf
  | case3 c x rest hq d hp hdec ih =>
    rw [drain_cons hq, hp]
    exact (Work.andThen_done d drain).symm ▸ ih

theorem blameless_advanceMiss (c : SharedBank) (register : Handle) (line : Addr)
    (m : ManagerMiss) (event : ManagerEvent) : Blameless (c.advanceMiss register line m event) := by
  refine (c.blameless_step ..).bind fun t => ?_
  dsimp only
  split
  · unfold completeFill
    dsimp only
    split
    · exact .ok _
    · exact .error rfl
  · exact .ok _

/-- A reply of a client. -/
theorem blameless_handleReply (c : SharedBank) (msg : CoherenceMessage) :
    Blameless (c.handleReply msg) := by
  unfold handleReply
  dsimp only
  split
  · split
    · exact blameless_advanceMiss ..
    · exact .error rfl
  · unfold advanceResident
    split
    · exact .error rfl
    · refine (c.blameless_step ..).bind fun t => ?_
      dsimp only
      split <;> exact .ok _
  · split
    · refine (c.blameless_step ..).bind fun t => ?_
      dsimp only
      split
      · exact blameless_finishEviction ..
      · exact .ok _
    · exact .error rfl

/-- The bank waits for memory's reply on the line of `a`. -/
def awaitsMemory (c : SharedBank) (a : Addr) : Bool :=
  (c.stage (c.table.lineAddr a)).awaits .awaitingMemory

/-- A reply of memory that the bank waits for. -/
theorem blameless_handleMemory {msg : MemoryMessage} (h : c.awaitsMemory msg.addr = true) :
    Blameless (c.handleMemory msg) := by
  unfold awaitsMemory stage fetching? at h
  unfold handleMemory
  dsimp only
  cases hout : c.mshr.outstanding? (c.table.lineAddr msg.addr) with
  | none =>
    rw [hout] at h
    dsimp only [Option.bind_none] at h
    split at h <;> cases h
  | some x =>
    obtain ⟨register, v⟩ := x
    cases v with
    | resident way =>
      rw [hout] at h
      dsimp only [Option.bind_some, ManagerTransaction.miss?_resident] at h
      split at h <;> cases h
    | miss m =>
      rw [hout] at h
      have hst : m.stage = .awaitingMemory := by simpa [LineStage.awaits] using h
      dsimp only
      rw [if_pos hst]
      exact blameless_advanceMiss ..

theorem blameless_refuse (c : SharedBank) (p : Packet) :
    (Work.faulted c (c.tags.refuse c.id p)).Blameless := by
  refine .faulted ?_
  unfold MessageTags.refuse
  split <;> rfl

/-- A packet that brings no reply of memory but one that the bank waits for. -/
theorem blameless_dispatch {p : Packet}
    (h : ∀ msg, p.supply? = some msg → c.awaitsMemory msg.addr = true) :
    (c.dispatch p).Blameless := by
  unfold dispatch
  split
  · split
    · unfold takeCredit
      dsimp only
      split
      · exact .done _ _
      · exact .faulted rfl
    · exact blameless_refuse ..
  · next msg hp =>
    split
    · refine (Work.Blameless.done _ _).andThen fun _ => .ofExcept ?_
      unfold handle
      split
      · exact blameless_process ..
      · exact blameless_handleReply ..
    · exact blameless_refuse ..
  · next msg hp =>
    split
    · next htag =>
      refine (Work.Blameless.done _ _).andThen fun _ => .ofExcept ?_
      exact blameless_handleMemory (h msg (Packet.brings_supply hp htag.2).2.2)
    · exact blameless_refuse ..

end SharedBank

end CacheCoherence
