import CacheCoherence.Proofs.Traffic.Metering
import CacheCoherence.Work

/-!
# Passage — packets on their way through a node

To the interconnect a cache, a bank and a memory node are the same: an id, packets that wait to
be handled, and a way out. While a node handles packets it posts packets of its own, and packets
leave it as credits come back; in the end those that are ready are offered to the link. None of
this lets a packet overtake another.
-/

namespace CacheCoherence

/-- A node as the interconnect sees it. -/
structure Port where
  id : NodeId
  /-- Packets that wait to be handled, oldest first. -/
  inbound : List Packet
  outlet : Outlet

namespace Port

/-- The packet is one of the node's own, and takes a credit to leave. -/
def Issues (n : Port) (p : Packet) : Prop := p.src = n.id ∧ p.isCredit = false

/-- Whatever is about to leave the node is the node's own. -/
def Proper (n : Port) : Prop := ∀ p ∈ n.outlet.toList, n.Issues p

/-- The node `n'` is `n` once it has posted packets of its own. -/
structure Posts (n n' : Port) : Prop where
  id : n'.id = n.id
  inbound : n'.inbound = n.inbound
  link : n'.outlet.link = n.outlet.link
  posted : ∃ ps, n'.outlet.delay.toList = n.outlet.delay.toList ++ ps ∧ ∀ p ∈ ps, n.Issues p

/-- The node `n'` is `n` once it has posted packets of its own and `sent` has left its link. -/
structure Passes (n n' : Port) (sent : List Packet) : Prop where
  id : n'.id = n.id
  inbound : n'.inbound = n.inbound
  order : sent.filter (!·.isCredit) ++ n'.outlet.link.buffer = n.outlet.link.buffer
  posted : ∃ ps, n'.outlet.delay.toList = n.outlet.delay.toList ++ ps ∧ ∀ p ∈ ps, n.Issues p

variable {n n' n'' : Port} {sent sent' : List Packet}

/-- No credit is among the packets that a node issues. -/
theorem filter_issued {ps : List Packet} (h : ∀ p ∈ ps, n.Issues p) :
    ps.filter (!·.isCredit) = ps := by
  refine List.filter_eq_self.2 fun p hp => ?_
  rw [(h p hp).2]
  rfl

namespace Posts

theorem refl (n : Port) : n.Posts n := ⟨rfl, rfl, rfl, [], (List.append_nil _).symm, List.forall_mem_nil _⟩

theorem trans (h : n.Posts n') (h' : n'.Posts n'') : n.Posts n'' := by
  obtain ⟨ps, hps, hown⟩ := h.posted
  obtain ⟨qs, hqs, hown'⟩ := h'.posted
  refine ⟨h'.id.trans h.id, h'.inbound.trans h.inbound, h'.link.trans h.link, ps ++ qs, ?_, ?_⟩
  · rw [hqs, hps, List.append_assoc]
  · intro p hp
    rcases List.mem_append.1 hp with hp | hp
    · exact hown p hp
    · exact ⟨(hown' p hp).1.trans h.id, (hown' p hp).2⟩

/-- A packet of the node is posted. -/
theorem post {p : Packet} (now : Nat) (hp : n.Issues p) :
    n.Posts { n with outlet := n.outlet.post now p } :=
  ⟨rfl, rfl, rfl, [p], DelayLine.toList_push .., fun _ hq => List.mem_singleton.1 hq ▸ hp⟩

theorem passes (h : n.Posts n') : n.Passes n' [] :=
  ⟨h.id, h.inbound, by rw [h.link]; rfl, h.posted⟩

end Posts

namespace Passes

theorem trans (h : n.Passes n' sent) (h' : n'.Passes n'' sent') :
    n.Passes n'' (sent ++ sent') := by
  obtain ⟨ps, hps, hown⟩ := h.posted
  obtain ⟨qs, hqs, hown'⟩ := h'.posted
  refine ⟨h'.id.trans h.id, h'.inbound.trans h.inbound, ?_, ps ++ qs, ?_, ?_⟩
  · rw [List.filter_append, List.append_assoc, h'.order, h.order]
  · rw [hqs, hps, List.append_assoc]
  · intro p hp
    rcases List.mem_append.1 hp with hp | hp
    · exact hown p hp
    · exact ⟨(hown' p hp).1.trans h.id, (hown' p hp).2⟩

theorem proper (h : n.Passes n' sent) (hn : n.Proper) : n'.Proper := by
  obtain ⟨ps, hps, hown⟩ := h.posted
  intro p hp
  rw [Issues, h.id]
  rcases List.mem_append.1 hp with hp | hp
  · exact hn p (List.mem_append_left _ (h.order ▸ List.mem_append_right _ hp))
  · rw [hps] at hp
    rcases List.mem_append.1 hp with hp | hp
    · exact hn p (List.mem_append_right _ hp)
    · exact hown p hp

/-- A credit is returned. -/
theorem returnCredit (n : Port) (peer : NodeId) (tag : Tag) :
    n.Passes { n with outlet := { n.outlet with link := (n.outlet.link.returnCredit peer tag).1 } }
      [(n.outlet.link.returnCredit peer tag).2] :=
  ⟨rfl, rfl, rfl, [], (List.append_nil _).symm, List.forall_mem_nil _⟩

/-- A credit comes back, and packets leave. -/
theorem creditArrived {link : CreditLink} (hn : n.Proper)
    (h : n.outlet.link.creditArrived? = some (link, sent)) :
    n.Passes { n with outlet := { n.outlet with link } } sent := by
  unfold CreditLink.creditArrived? at h
  split at h
  · simp only [Option.some.injEq] at h
    have horder := CreditLink.pump_order { n.outlet.link with
      credits := n.outlet.link.credits + 1
      creditsReceived := n.outlet.link.creditsReceived + 1 }
    rw [h] at horder
    change sent ++ link.buffer = n.outlet.link.buffer at horder
    refine ⟨rfl, rfl, ?_, [], (List.append_nil _).symm, List.forall_mem_nil _⟩
    -- what was buffered is the node's own, so all that leaves is metered
    rw [filter_issued fun p hp =>
      hn p (List.mem_append_left _ (horder ▸ List.mem_append_left _ hp))]
    exact horder
  · cases h

end Passes

end Port

/-! ## A turn -/

/-- A node in one cycle. -/
structure Round where
  /-- The node when its turn comes. -/
  before : Port
  /-- The node once all packets that waited are handled. -/
  handled : Port
  /-- What it has put on the interconnect in the end. -/
  sent : List Packet
  after : Port

namespace Round

/-- The packets that the node produced while it handled those that waited. -/
def made (r : Round) : List Packet :=
  r.handled.outlet.delay.toList.drop r.before.outlet.delay.toList.length

/-- In its turn a node handles all that waits, and what it produces leaves behind what was there
before. -/
structure Orderly (r : Round) : Prop where
  id : r.after.id = r.before.id
  handled : r.handled.inbound = []
  inbound : r.after.inbound = []
  posted : r.handled.outlet.delay.toList = r.before.outlet.delay.toList ++ r.made
  order : r.sent.filter (!·.isCredit) ++ r.after.outlet.toList = r.before.outlet.toList ++ r.made
  issued : ∀ p ∈ r.before.outlet.toList ++ r.made, r.before.Issues p

/-- A turn ends when what is ready has been offered to the link. -/
theorem orderly_of_passes {n m : Port} {sent : List Packet} (hn : n.Proper)
    (h : ({ n with inbound := [] } : Port).Passes m sent) (now : Nat) :
    Orderly { before := n, handled := m, sent := sent ++ (m.outlet.flush now).2
              after := { m with outlet := (m.outlet.flush now).1 } } := by
  obtain ⟨ps, hps, hown⟩ := h.posted
  have hmade : m.outlet.delay.toList.drop n.outlet.delay.toList.length = ps := by
    rw [hps]
    exact List.drop_left
  have hissued : ∀ p ∈ n.outlet.toList ++ ps, n.Issues p := fun p hp =>
    (List.mem_append.1 hp).elim (hn p) (hown p)
  have hflush := m.outlet.flush_order now
  refine { id := h.id, handled := h.inbound, inbound := h.inbound, posted := ?_, order := ?_,
           issued := ?_ }
  · show _ = _ ++ m.outlet.delay.toList.drop n.outlet.delay.toList.length
    rw [hmade, hps]
  · show (sent ++ (m.outlet.flush now).2).filter (!·.isCredit) ++ (m.outlet.flush now).1.toList
      = n.outlet.toList ++ m.outlet.delay.toList.drop n.outlet.delay.toList.length
    have hmetered : (m.outlet.flush now).2.filter (!·.isCredit) = (m.outlet.flush now).2 :=
      Port.filter_issued fun p hp => h.proper hn p (hflush ▸ List.mem_append_left _ hp)
    rw [hmade, List.filter_append, hmetered, List.append_assoc, hflush, Outlet.toList,
      ← List.append_assoc, h.order, hps, Outlet.toList, List.append_assoc]
  · show ∀ p ∈ n.outlet.toList ++ m.outlet.delay.toList.drop n.outlet.delay.toList.length,
      n.Issues p
    rw [hmade]
    exact hissued

end Round

namespace Work

variable {σ ε : Type} {port : σ → Port}
  {setQueue : σ → List ε → σ} {handle : σ → ε → Work σ} {n : σ} {es : List ε}

/-- What a packet asks for is done once a credit has been returned for it. -/
theorem passes_answer {next : σ → Except Fault σ} {sent : List Packet} {n₁ : σ}
    (hgive : (port n).Passes (port n₁) sent)
    (hnext : ∀ d, next n₁ = .ok d → (port n₁).Posts (port d))
    (hf : ((done n₁ sent).andThen fun n => ofExcept n (next n)).fault = none) :
    (port n).Passes (port ((done n₁ sent).andThen fun n => ofExcept n (next n)).node)
      ((done n₁ sent).andThen fun n => ofExcept n (next n)).sent := by
  cases hd : next n₁ with
  | error f =>
    rw [andThen_ofExcept_error hd] at hf
    cases hf
  | ok d =>
    rw [andThen_ofExcept_ok hd]
    have hall := hgive.trans (hnext d hd).passes
    rwa [List.append_nil] at hall

/-- All queued events are handled in one passage. -/
theorem through_passes (port : σ → Port) (packet? : ε → Option Packet)
    (hset : ∀ n q, port (setQueue n q) = { port n with inbound := q.filterMap packet? })
    (hhandle : ∀ n e, (port n).Proper → (handle n e).fault = none →
      (port n).Passes (port (handle n e).node) (handle n e).sent)
    (hn : (port n).Proper) (hes : (port n).inbound = es.filterMap packet?)
    (hf : (through setQueue handle n es).fault = none) :
    ({ port n with inbound := [] } : Port).Passes (port (through setQueue handle n es).node)
      (through setQueue handle n es).sent := by
  induction es generalizing n with
  | nil =>
    exact ⟨rfl, hes, rfl, [], (List.append_nil _).symm, List.forall_mem_nil _⟩
  | cons e rest ih =>
    obtain ⟨he, hrest⟩ := andThen_fault_eq_none.1 hf
    have hn' : (port (setQueue n rest)).Proper := by
      rw [hset]
      exact hn
    have hhead := hhandle (setQueue n rest) e hn' he
    have htail := ih (hhead.proper hn') (hhead.inbound.trans (by rw [hset])) hrest
    rw [through, andThen_node he, andThen_sent he]
    -- the queue is only put aside while its head is handled
    have hhead' : ({ port n with inbound := [] } : Port).Passes
        { port (handle (setQueue n rest) e).node with inbound := [] }
        (handle (setQueue n rest) e).sent := by
      rw [hset] at hhead
      exact ⟨hhead.id, rfl, hhead.order, hhead.posted⟩
    exact hhead'.trans htail

end Work

end CacheCoherence
