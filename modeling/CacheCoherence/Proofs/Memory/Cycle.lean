import CacheCoherence.Memory.Node
import CacheCoherence.Proofs.Scene.Station

/-!
# Cycle — what a memory node does in one cycle

In a sound scene a memory node is asked for lines of its own or gets them back, and
answers the bank that asked. Nothing that reaches it is refused.
-/

namespace CacheCoherence.MemoryNode

/-- How a memory node is seen in a scene: its way out is all there is to see. -/
def station (P : Plan) : Station MemoryNode Packet where
  role := .memory
  id m := m.id
  outlet m := m.outlet
  inbound m := m.inbound
  packet? p := some p
  Shows m _ := m.tags = P.tags

variable {P : Plan} {m : MemoryNode} {s : Scene} {R T : Multiset Packet}

/-- What is queued at a memory node is not seen. -/
theorem alike_inbound (m : MemoryNode) (queue : List Packet) :
    (station P).Alike m { m with inbound := queue } :=
  ⟨rfl, rfl, fun _ ht => ht⟩

theorem alike_receive (m : MemoryNode) (p : Packet) : (station P).Alike m (m.receive p) :=
  alike_inbound m (m.inbound ++ [p])

/-- A credit that comes back. -/
theorem takeCredit_works {p : Packet} (hm : p.payload = .credit) (hd : p.dst = m.id) :
    (station P).Works P m {p} m.takeCredit m.inbound := by
  intro s R T hs hst
  obtain ⟨link, sent, harr, hpays⟩ :=
    Outlet.creditArrived_pays (Station.credits_lt hs hst hm hd)
  change m.outlet.link.creditArrived? = some (link, sent) at harr
  have htake : m.takeCredit = .done { m with outlet := { m.outlet with link } } sent := by
    unfold takeCredit
    rw [harr]
  rw [htake]
  have hworks : (station P).Works P m {p} (.done { m with outlet := { m.outlet with link } } sent)
      m.inbound := .refund hm hd hpays rfl fun _ _ ht => ht
  exact hworks s R T hs hst

/-- The reply about a line of the node. -/
theorem replyTo_eq (ht : m.tags = P.tags) {X : Addr} (hid : m.id = P.store X) :
    m.replyTo X (P.home X) = P.suppliedPacket X := by
  rw [replyTo, ht, hid]
  rfl

/-- The packets that serving a message posts: memory answers a read. -/
def replies (P : Plan) (q : MemoryMessage) : List Packet :=
  if q.op = .read then [P.suppliedPacket q.addr] else []

/-- Memory answers for itself. -/
theorem src_of_replies {q : MemoryMessage} {r : Packet} (hr : r ∈ replies P q) :
    r.src = P.store q.addr ∧ r.isCredit = false := by
  rw [replies] at hr
  split at hr
  · rw [List.mem_singleton.1 hr]
    exact ⟨rfl, rfl⟩
  · cases hr

/-- A message that asks for a line or hands one back is taken, and memory posts its replies. -/
theorem step_served {p : Packet} {q : MemoryMessage} (hrole : P.role p.dst = some .memory)
    (htransit : s.transit = p ::ₘ T) (hm : p.payload = .memory q) (hop : q.op ≠ .reply) :
    Scene.Step P .memory s { s.consume P p T with
      outgoing := s.outgoing + (replies P q : Multiset Packet) } := by
  cases hq : q.op with
  | read =>
    have hstep : Scene.Step P .memory s _ := .read hrole htransit hm hq
    have hreplies : (replies P q : Multiset Packet) = {P.suppliedPacket q.addr} := by
      rw [replies, if_pos hq, Multiset.coe_singleton]
    rwa [← hreplies] at hstep
  | write =>
    have hstep : Scene.Step P .memory s _ := .write hrole htransit hm hq
    have hreplies : ({ s.consume P p T with
        outgoing := s.outgoing + (replies P q : Multiset Packet) } : Scene) = s.consume P p T := by
      simp [replies, hq, Scene.consume]
    rwa [hreplies]
  | reply => exact absurd hq hop

/-- Serving a message that asks for a line or hands one back changes the way out alone. -/
theorem serve_eq {q : MemoryMessage} (ht : m.tags = P.tags) (hop : q.op ≠ .reply)
    (hsrc : q.src = P.home q.addr) (hid : m.id = P.store q.addr) :
    ∃ d, m.serve q = .ok d ∧ d.id = m.id ∧ d.tags = m.tags ∧ d.inbound = m.inbound ∧
      d.outlet.link = m.outlet.link ∧ d.outlet.toList = m.outlet.toList ++ replies P q := by
  obtain ⟨op, addr, src⟩ := q
  cases op with
  | read =>
    refine ⟨_, rfl, rfl, rfl, rfl, rfl, ?_⟩
    show (m.outlet.post _ (m.replyTo addr src)).toList = _
    rw [Outlet.toList_post, show src = P.home addr from hsrc, replyTo_eq ht hid]
    rfl
  | write => exact ⟨_, rfl, rfl, rfl, rfl, rfl, (List.append_nil _).symm⟩
  | reply => exact absurd rfl hop

/-- A message that asks for a line or hands one back. -/
theorem served_works {p : Packet} {q : MemoryMessage} (hm : p.payload = .memory q)
    (hd : p.dst = m.id) : (station P).Works P m {p} (m.dispatch p) m.inbound := by
  intro s R T hs hst
  have hplays := hst.plays
  have htags : m.tags = P.tags := hplays.shows
  have howner : m.outlet.link.owner = m.id := hplays.owner
  have htransit : s.transit = p ::ₘ T := by rw [hst.transit, Multiset.singleton_add]
  have hrole : P.role p.dst = some .memory := by rw [hd]; exact hplays.role
  obtain ⟨hp, -, hop⟩ := Scene.ask_fits (hs.fits_taken htransit) hrole hm
  -- the message tells which bank asked and which memory it asked: this one
  have hstore : m.id = P.store q.addr := by
    rw [← hd, hp]
    rfl
  have hsrc : q.src = P.home q.addr := by
    have hq : p.payload = (P.memoryPacket (P.home q.addr) q.op q.addr).payload :=
      congrArg Packet.payload hp
    rw [hm] at hq
    exact congrArg MemoryMessage.src (Payload.memory.inj hq)
  -- `m₁` is the node once it has returned the credit
  let m₁ : MemoryNode := (m.giveCredit p.src).node
  have hgive : m.giveCredit p.src = .done m₁ [P.creditTo p.dst p.src] := by
    rw [hd, ← P.returnCredit_eq howner p.src, ← htags]
    rfl
  obtain ⟨d, hserve, hid, htags', hin, hlink, hout⟩ :=
    serve_eq (m := m₁) htags hop hsrc hstore
  have hdispatch : m.dispatch p = .done d [P.creditTo p.dst p.src] := by
    have htag : p.tag = m.tags.memory := by
      rw [hp, htags]
      rfl
    unfold dispatch
    rw [hm]
    dsimp only
    rw [if_pos htag, hgive, Work.andThen_ofExcept_ok hserve]
  rw [hdispatch]
  refine .inl ⟨rfl, _, {
    run := .single (step_served hrole htransit hm hop)
    others := fun _ _ => rfl
    id := hid
    inbound := hin
    stands := { plays := ?_, outgoing := ?_, transit := ?_ } }⟩
  · show (station P).Plays P d (s.node d.id)
    rw [hid]
    have hmax : d.outlet.link.maxCredits = m.outlet.link.maxCredits := by rw [hlink]; rfl
    have howner' : d.outlet.link.owner = m.outlet.link.owner := by rw [hlink]; rfl
    refine hplays.keep hid (htags'.trans htags) ?_ hmax howner' fun r hr => ?_
    · show _ = d.outlet.link.credits
      rw [hlink]
      exact hplays.credits
    · have hr : r ∈ d.outlet.toList := hr
      rw [hout] at hr
      rcases List.mem_append.1 hr with hr | hr
      · exact hplays.senders r hr
      · exact (src_of_replies hr).imp_left fun hsrc => hsrc.trans hstore.symm
  · show s.outgoing + _ = R + ((d.outlet.toList : List Packet) : Multiset Packet)
    rw [hst.outgoing, hout, ← Multiset.coe_add, ← Multiset.add_assoc]
    rfl
  · show P.creditTo p.dst p.src ::ₘ T = T + _
    rw [Work.done, Multiset.coe_singleton, Multiset.add_comm, Multiset.singleton_add]

/-- A packet that may be on its way to a memory node. -/
theorem dispatch_works {p : Packet} (hd : p.dst = m.id) :
    (station P).Works P m {p} (m.dispatch p) m.inbound := by
  intro s R T hs hst
  have htransit : s.transit = p ::ₘ T := by rw [hst.transit, Multiset.singleton_add]
  have hrole : P.role p.dst = some .memory := by rw [hd]; exact hst.plays.role
  have hfit := hs.fits_taken htransit
  cases hm : p.payload with
  | memory q => exact served_works hm hd s R T hs hst
  | credit =>
    have hdispatch : m.dispatch p = m.takeCredit := by
      have htag : p.tag = m.tags.credit := by
        rw [show m.tags = P.tags from hst.plays.shows]
        cases hfit <;> first | rfl | cases hm
      unfold dispatch
      rw [hm]
      dsimp only
      rw [if_pos htag]
    rw [hdispatch]
    exact takeCredit_works hm hd s R T hs hst
  | coherence q =>
    exfalso
    cases hfit with
    | request h => simp [Wiring.letter, ← h.home, P.role_home] at hrole
    | answer => simp [Wiring.letter, P.role_home] at hrole
    | order _ hdst => simp [Wiring.letter, hdst] at hrole
    | _ => cases hm

/-! ## A cycle -/

theorem release_works : (station P).Works P m 0 m.release m.inbound :=
  .leave (Outlet.flush_pays m.outlet m.cycle) rfl fun _ _ ht => ht

/-- A cycle of a memory node. -/
theorem tick_works (hd : ∀ e ∈ m.inbound, ∀ p, (station P).packet? e = some p → p.dst = m.id) :
    (station P).Works P m ((station P).packets m.inbound) m.tick [] := by
  let m₀ : MemoryNode := { m with cycle := m.cycle + 1 }
  let setQueue (m : MemoryNode) (queue : List Packet) := { m with inbound := queue }
  have hset : ∀ m q, (station P).Alike m (setQueue m q) ∧ (station P).inbound (setQueue m q) = q :=
    fun m q => ⟨alike_inbound m q, rfl⟩
  have hevents : (station P).Works P m₀ ((station P).packets m.inbound)
      (Work.through setQueue dispatch m₀ m.inbound) [] :=
    .through hset (fun m p he => dispatch_works (he p rfl)) m.inbound m₀ rfl hd
  exact (hevents.followed fun _ => release_works).congr ⟨rfl, rfl, fun _ ht => ht⟩

end CacheCoherence.MemoryNode
