import CacheCoherence.Proofs.Scene.Sound
import CacheCoherence.Proofs.Traffic.Metering
import CacheCoherence.Work

/-!
# Stations — nodes at work in a scene

A station tells how a kind of node is seen in a scene. A piece of work of a node is a run
of steps of the scene, whatever the other nodes do, or it ends in a refusal: a client that
holds a line for good is told that its eviction is accepted.
-/

namespace CacheCoherence

open Function (update update_self update_of_ne)

/-- The credit that a link returns is that of its owner. -/
theorem Plan.returnCredit_eq (P : Plan) {l : CreditLink} {me : NodeId} (h : l.owner = me)
    (peer : NodeId) : (l.returnCredit peer P.tags.credit).2 = P.creditTo me peer := by
  subst h
  rfl

namespace Scene

/-- The fault `f` is a client's refusal of a packet on its way: the client holds the only
copy of a line, does not give it up, and is told that its eviction is accepted. -/
def Refuses (P : Plan) (s : Scene) (f : Fault) : Prop :=
  ∃ (p : Packet) (m : CoherenceMessage) (st : ClientState),
    p ∈ s.transit ∧ p.payload = .coherence m ∧ m.op = .grantI ∧
    (s.node p.dst).state (P.lineOf m.addr) = st ∧ (st = .E ∨ st = .M) ∧
    f = .clientViolation p.dst (P.lineOf m.addr)
      { state := st, event := .message .grantI m.src none }

variable {P : Plan} {s : Scene} {n : NodeId} {r : Role}

theorem setCredits_setCredits (k k' : Nat) :
    (s.setCredits n k).setCredits n k' = s.setCredits n k' := by
  simp [setCredits]

theorem setCredits_self {k : Nat} (h : (s.node n).credits = k) : s.setCredits n k = s := by
  subst h
  simp [setCredits]

/-- Packets leave their node one after another. -/
theorem run_leave (hr : P.role n = some r) {ps : List Packet}
    (hps : ∀ p ∈ ps, p.src = n ∧ p.isCredit = false) {R : Multiset Packet} {k : Nat}
    (ho : s.outgoing = (ps : Multiset Packet) + R) (hk : (s.node n).credits = k + ps.length) :
    s.Run P r { s.setCredits n k with outgoing := R, transit := s.transit + ps } := by
  induction ps generalizing s with
  | nil =>
    rw [List.length_nil, Nat.add_zero] at hk
    have hs : ({ s.setCredits n k with outgoing := R, transit := s.transit + ([] : List Packet) }
        : Scene) = s := by
      rw [setCredits_self hk, Multiset.coe_nil, Multiset.add_zero]
      rw [Multiset.coe_nil, Multiset.zero_add] at ho
      rw [← ho]
    rw [hs]
    exact .refl
  | cons p ps ih =>
    obtain ⟨hsrc, hc⟩ := hps p List.mem_cons_self
    subst hsrc
    rw [← Multiset.cons_coe, Multiset.cons_add] at ho
    have hstep : Step P r s _ := .leave hr ho hc hk
    have hrun := ih (s := { s.setCredits p.src (k + ps.length) with
      outgoing := (ps : Multiset Packet) + R
      transit := p ::ₘ s.transit }) (fun q hq => hps q (List.mem_cons_of_mem p hq)) rfl
      (credits_setCredits _)
    have hend : s.transit + ((p :: ps : List Packet) : Multiset Packet)
        = p ::ₘ s.transit + (ps : Multiset Packet) := by
      rw [← Multiset.cons_coe, Multiset.add_cons, Multiset.cons_add]
    rw [hend, ← setCredits_setCredits (k + ps.length) k]
    exact .head hstep hrun

end Scene

/-- How a kind of node is seen in a scene. -/
structure Station (σ ε : Type) where
  role : Role
  id : σ → NodeId
  outlet : σ → Outlet
  inbound : σ → List ε
  /-- The packet that an event brings. -/
  packet? : ε → Option Packet
  /-- The node's lines are what is seen of them. -/
  Shows : σ → NodeView → Prop

namespace Station

open Scene (run_leave setCredits_self credits_setCredits)

variable {σ ε : Type} (S : Station σ ε) (P : Plan)

/-- The packets that events bring. -/
def packets (es : List ε) : Multiset Packet :=
  ((es.filterMap S.packet? : List Packet) : Multiset Packet)

/-- The packets that are about to leave a node. -/
def out (n : σ) : Multiset Packet := ((S.outlet n).toList : Multiset Packet)

/-- The node plays its part, and is seen as `v`. -/
structure Plays (n : σ) (v : NodeView) : Prop where
  shows : S.Shows n v
  role : P.role (S.id n) = some S.role
  credits : v.credits = (S.outlet n).link.credits
  quota : (S.outlet n).link.maxCredits = P.quota (S.id n)
  owner : (S.outlet n).link.owner = S.id n
  senders : ∀ p ∈ (S.outlet n).toList, p.src = S.id n ∧ p.isCredit = false

/-- The node `n'` differs from `n` in nothing that is seen. -/
structure Alike (n n' : σ) : Prop where
  id : S.id n' = S.id n
  outlet : S.outlet n' = S.outlet n
  shows : ∀ v, S.Shows n v → S.Shows n' v

/-- The node `n'` is like `n`, and events that bring no packet are queued at it. -/
def Nudged (n n' : σ) : Prop :=
  S.Alike n n' ∧ ∃ es, S.inbound n' = S.inbound n ++ es ∧ ∀ e ∈ es, S.packet? e = none

/-- The node stands in a scene where `R` is about to leave other nodes and `T` is on its
way. -/
structure Stands (s : Scene) (n : σ) (R T : Multiset Packet) : Prop where
  plays : S.Plays P n (s.node (S.id n))
  outgoing : s.outgoing = R + S.out n
  transit : s.transit = T

/-- The work `w` of the node `n` has led from `s` to `s'`; the events `queue` are left to
handle. -/
structure Moved (s : Scene) (n : σ) (w : Work σ) (queue : List ε) (R T : Multiset Packet)
    (s' : Scene) : Prop where
  run : s.Run P S.role s'
  others : ∀ c, c ≠ S.id n → s'.node c = s.node c
  id : S.id w.node = S.id n
  inbound : S.inbound w.node = queue
  stands : S.Stands P s' w.node R (T + (w.sent : Multiset Packet))

/-- In every sound scene the work `w` of the node `n`, which takes the packets `taken`, is
a run of steps or ends in a refusal. -/
def Works (n : σ) (taken : Multiset Packet) (w : Work σ) (queue : List ε) : Prop :=
  ∀ (s : Scene) (R T : Multiset Packet), s.Sound P → S.Stands P s n R (taken + T) →
    (w.fault = none ∧ ∃ s', S.Moved P s n w queue R T s') ∨
      ∃ f s', w.fault = some f ∧ s.Run P S.role s' ∧ s'.Refuses P f

variable {S P} {n n' : σ} {taken taken' : Multiset Packet} {w : Work σ} {queue queue' : List ε}

theorem Plays.alike {v : NodeView} (h : S.Plays P n v) (ha : S.Alike n n') : S.Plays P n' v where
  shows := ha.shows v h.shows
  role := by rw [ha.id, h.role]
  credits := by rw [ha.outlet, h.credits]
  quota := by rw [ha.outlet, ha.id, h.quota]
  owner := by rw [ha.outlet, ha.id, h.owner]
  senders := by
    rw [ha.outlet, ha.id]
    exact h.senders

/-- A node that keeps its id and its link plays on, whatever else becomes of it. -/
theorem Plays.keep {v v' : NodeView} (h : S.Plays P n v) (hid : S.id n' = S.id n)
    (hshows : S.Shows n' v') (hcredits : v'.credits = (S.outlet n').link.credits)
    (hmax : (S.outlet n').link.maxCredits = (S.outlet n).link.maxCredits)
    (howner : (S.outlet n').link.owner = (S.outlet n).link.owner)
    (hsenders : ∀ p ∈ (S.outlet n').toList, p.src = S.id n ∧ p.isCredit = false) :
    S.Plays P n' v' where
  shows := hshows
  role := by rw [hid, h.role]
  credits := hcredits
  quota := by rw [hmax, hid, h.quota]
  owner := by rw [howner, hid, h.owner]
  senders := by rw [hid]; exact hsenders

theorem Alike.out (ha : S.Alike n n') : S.out n' = S.out n := by
  rw [Station.out, ha.outlet, Station.out]

theorem Nudged.refl (n : σ) : S.Nudged n n :=
  ⟨⟨rfl, rfl, fun _ hv => hv⟩, [], (List.append_nil _).symm, nofun⟩

namespace Works

/-- Work that does nothing. -/
theorem idle (n : σ) : S.Works P n 0 (.done n) (S.inbound n) := by
  intro s R T hs hst
  refine .inl ⟨rfl, s, {
    run := .refl
    others := fun c _ => rfl
    id := rfl
    inbound := rfl
    stands := { hst with transit := ?_ } }⟩
  rw [hst.transit, Multiset.zero_add]
  exact (Multiset.add_zero T).symm

/-- Work in two parts. -/
theorem andThen (h : S.Works P n taken w queue) {next : σ → Work σ}
    (hnext : S.id w.node = S.id n → S.inbound w.node = queue →
      S.Works P w.node taken' (next w.node) queue') :
    S.Works P n (taken + taken') (w.andThen next) queue' := by
  intro s R T hs hst
  rw [Multiset.add_assoc] at hst
  -- what the second part takes is on its way while the first is done
  rcases h s R (taken' + T) hs hst with ⟨hf, s', hm⟩ | ⟨f, s', hf, hrun, href⟩
  · have hw : w.andThen next
        = { next w.node with sent := w.sent ++ (next w.node).sent } := by
      rw [Work.andThen, hf]
    have hst' := hm.stands
    rw [Multiset.add_assoc] at hst'
    rw [hw]
    rcases hnext hm.id hm.inbound s' R (T + (w.sent : Multiset Packet)) (hm.run.sound hs) hst'
      with ⟨hf', s'', hm'⟩ | ⟨f, s'', hf', hrun, href⟩
    · refine .inl ⟨hf', s'', {
        run := hm.run.trans hm'.run
        others := fun c hc => (hm'.others c (by rwa [hm.id])).trans (hm.others c hc)
        id := hm'.id.trans hm.id
        inbound := hm'.inbound
        stands := ?_ }⟩
      rw [← Multiset.coe_add, ← Multiset.add_assoc]
      exact hm'.stands
    · exact .inr ⟨f, s'', hf', hm.run.trans hrun, href⟩
  · refine .inr ⟨f, s', ?_, hrun, href⟩
    rw [Work.andThen, hf]
    exact hf

/-- Work that is followed by work that takes no packets. -/
theorem followed (h : S.Works P n taken w queue) {next : σ → Work σ}
    (hnext : ∀ m, S.Works P m 0 (next m) (S.inbound m)) :
    S.Works P n taken (w.andThen next) queue := by
  have hall : S.Works P n (taken + 0) (w.andThen next) queue :=
    h.andThen fun _ hin => hin ▸ hnext w.node
  rwa [Multiset.add_zero] at hall

/-- Work of a node that differs from `n` in nothing that is seen. -/
theorem congr (h : S.Works P n' taken w queue) (ha : S.Alike n n') :
    S.Works P n taken w queue := by
  intro s R T hs hst
  have hst' : S.Stands P s n' R (taken + T) :=
    { plays := by rw [ha.id]; exact hst.plays.alike ha
      outgoing := by rw [ha.out, hst.outgoing]
      transit := hst.transit }
  rcases h s R T hs hst' with ⟨hf, s', hm⟩ | href
  · exact .inl ⟨hf, s', { hm with
      others := fun c hc => hm.others c (by rwa [ha.id])
      id := hm.id.trans ha.id }⟩
  · exact .inr href

end Works

/-! ## Queued events -/

theorem packets_cons (e : ε) (es : List ε) :
    S.packets (e :: es) = S.packets [e] + S.packets es := by
  rw [packets, ← List.singleton_append, List.filterMap_append, ← Multiset.coe_add]
  rfl

/-- Handling all queued events, where handling each is work of the node. -/
theorem Works.through {setQueue : σ → List ε → σ} {handle : σ → ε → Work σ}
    (hset : ∀ n q, S.Alike n (setQueue n q) ∧ S.inbound (setQueue n q) = q)
    (hhandle : ∀ n e, (∀ p, S.packet? e = some p → p.dst = S.id n) →
      S.Works P n (S.packets [e]) (handle n e) (S.inbound n))
    (es : List ε) (n : σ) (hes : S.inbound n = es)
    (hdst : ∀ e ∈ es, ∀ p, S.packet? e = some p → p.dst = S.id n) :
    S.Works P n (S.packets es) (Work.through setQueue handle n es) [] := by
  induction es generalizing n with
  | nil =>
    have hidle := Works.idle (S := S) (P := P) n
    rw [hes] at hidle
    exact hidle
  | cons e rest ih =>
    obtain ⟨ha, hin⟩ := hset n rest
    have hhead := hhandle (setQueue n rest) e (by rw [ha.id]; exact hdst e List.mem_cons_self)
    rw [hin] at hhead
    rw [packets_cons]
    refine Works.congr (Works.andThen hhead fun hid' hin' => ?_) ha
    refine ih _ hin' fun e' he' => ?_
    rw [hid', ha.id]
    exact hdst e' (List.mem_cons_of_mem e he')

/-! ## Packets that leave -/

/-- Once a scene is reached in which the outlet of the node is `o`, packets leave it. -/
theorem Moved.of_pays {s s₁ : Scene} {n n' : σ} {o : Outlet} {sent : List Packet}
    {R T : Multiset Packet} (hst : S.Stands P s n R (taken + T)) (hrun : s.Run P S.role s₁)
    (hnode : s₁ = { s.setCredits (S.id n) o.link.credits with transit := T })
    (ho : o.toList = (S.outlet n).toList ∧ o.link.owner = (S.outlet n).link.owner ∧
      o.link.maxCredits = (S.outlet n).link.maxCredits)
    (hpays : o.Pays (S.outlet n') sent) (hid : S.id n' = S.id n)
    (hshows : ∀ v k, S.Shows n v → S.Shows n' { v with credits := k }) :
    ∃ s', S.Moved P s n (.done n' sent) (S.inbound n') R T s' := by
  obtain ⟨hlist, howner, hmax⟩ := ho
  have hplays := hst.plays
  -- what was in the outlet has been sent, or is in it still
  have hout : S.out n = (sent : Multiset Packet) + S.out n' := by
    rw [out, out, Multiset.coe_add, hpays.order, hlist]
  have hsenders : ∀ p ∈ sent ++ (S.outlet n').toList, p.src = S.id n ∧ p.isCredit = false := by
    rw [hpays.order, hlist]
    exact hplays.senders
  have hcredits : (s₁.node (S.id n)).credits = o.link.credits := by
    rw [hnode]
    exact credits_setCredits _
  have hleave := run_leave (s := s₁) hplays.role
    (fun p hp => hsenders p (List.mem_append_left _ hp)) (R := R + S.out n')
    (k := (S.outlet n').link.credits)
    (by
      rw [hnode]
      show s.outgoing = _
      rw [hst.outgoing, hout, ← Multiset.add_assoc, Multiset.add_comm R, Multiset.add_assoc])
    (by rw [hcredits, ← hpays.credits])
  refine ⟨_, {
    run := hrun.trans hleave
    others := fun c hc => ?_
    id := hid
    inbound := rfl
    stands := { plays := ?_, outgoing := rfl, transit := ?_ } }⟩
  · rw [hnode]
    simp only [Scene.setCredits, update_of_ne hc]
  · have hview : ((s₁.setCredits (S.id n) (S.outlet n').link.credits).node (S.id n'))
        = { s.node (S.id n) with credits := (S.outlet n').link.credits } := by
      rw [hnode, hid]
      simp [Scene.setCredits]
    show S.Plays P n' ((s₁.setCredits (S.id n) (S.outlet n').link.credits).node (S.id n'))
    rw [hview]
    exact hplays.keep hid (hshows _ _ hplays.shows) rfl (hpays.maxCredits.trans hmax)
      (hpays.owner.trans howner) fun p hp => hsenders p (List.mem_append_right _ hp)
  · rw [hnode]
    rfl

/-- Packets leave for the credits that there are. -/
theorem Works.leave {n n' : σ} {sent : List Packet}
    (hpays : (S.outlet n).Pays (S.outlet n') sent) (hid : S.id n' = S.id n)
    (hshows : ∀ v k, S.Shows n v → S.Shows n' { v with credits := k }) :
    S.Works P n 0 (.done n' sent) (S.inbound n') := by
  intro s R T hs hst
  refine .inl ⟨rfl, Moved.of_pays hst .refl ?_ ⟨rfl, rfl, rfl⟩ hpays hid hshows⟩
  rw [setCredits_self hst.plays.credits]
  rw [← (show s.transit = T by rw [hst.transit, Multiset.zero_add])]

/-- A node that gets a credit back holds fewer than it may hold. -/
theorem credits_lt {s : Scene} {n : σ} {R T : Multiset Packet} {p : Packet} (hs : s.Sound P)
    (hst : S.Stands P s n R ({p} + T)) (hm : p.payload = .credit) (hd : p.dst = S.id n) :
    (S.outlet n).link.credits < (S.outlet n).link.maxCredits := by
  have hstands : p.standsFor (S.id n) = true := by
    simp [Packet.standsFor, Packet.isCredit, hm, hd]
  have hcredit := hs.credit (S.id n)
  rw [hst.transit, Multiset.singleton_add, Packet.tally_cons, hstands, hst.plays.credits,
    ← hst.plays.quota, Bool.toNat_true] at hcredit
  omega

/-- A credit comes back, and packets leave for it. -/
theorem Works.refund {n n' : σ} {p : Packet} {sent : List Packet} (hm : p.payload = .credit)
    (hd : p.dst = S.id n) (hpays : (S.outlet n).refunded.Pays (S.outlet n') sent)
    (hid : S.id n' = S.id n) (hshows : ∀ v k, S.Shows n v → S.Shows n' { v with credits := k }) :
    S.Works P n {p} (.done n' sent) (S.inbound n') := by
  intro s R T hs hst
  have hrole : P.role p.dst = some S.role := by rw [hd]; exact hst.plays.role
  have hstep : Scene.Step P S.role s _ := .refund hrole
    (by rw [hst.transit, Multiset.singleton_add]) hm
  refine .inl ⟨rfl, Moved.of_pays (o := (S.outlet n).refunded) hst (.single hstep) ?_
    ⟨rfl, rfl, rfl⟩ hpays hid hshows⟩
  rw [hd, hst.plays.credits]
  rfl

/-! ## Nodes within nodes -/

/-- A node that is seen by another in it. -/
def comap {τ : Type} (S : Station σ ε) (f : τ → σ) : Station τ ε where
  role := S.role
  id t := S.id (f t)
  outlet t := S.outlet (f t)
  inbound t := S.inbound (f t)
  packet? := S.packet?
  Shows t v := S.Shows (f t) v

theorem Alike.comap {τ : Type} {f : τ → σ} {t t' : τ} (h : S.Alike (f t) (f t')) :
    (S.comap f).Alike t t' :=
  ⟨h.id, h.outlet, h.shows⟩

/-- A node stands in a scene as the node within does. -/
theorem stands_comap {τ : Type} {f : τ → σ} {t : τ} {s : Scene} {R T : Multiset Packet} :
    (S.comap f).Stands P s t R T ↔ S.Stands P s (f t) R T := by
  constructor
  · rintro ⟨⟨hshows, hrole, hcredits, hquota, howner, hsenders⟩, hout, htransit⟩
    exact ⟨⟨hshows, hrole, hcredits, hquota, howner, hsenders⟩, hout, htransit⟩
  · rintro ⟨⟨hshows, hrole, hcredits, hquota, howner, hsenders⟩, hout, htransit⟩
    exact ⟨⟨hshows, hrole, hcredits, hquota, howner, hsenders⟩, hout, htransit⟩

/-- Work of the node within is work of the node. -/
theorem Works.comap {τ : Type} {f : τ → σ} {t : τ} {w' : Work τ}
    (h : S.Works P (f t) taken w queue) (hnode : f w'.node = w.node) (hsent : w'.sent = w.sent)
    (hfault : w'.fault = w.fault) : (S.comap f).Works P t taken w' queue := by
  intro s R T hs hst
  rw [hfault]
  rcases h s R T hs (stands_comap.1 hst) with ⟨hf, s', hm⟩ | href
  · have hid : S.id (f w'.node) = S.id (f t) := by rw [hnode, hm.id]
    refine .inl ⟨hf, s', {
      run := hm.run
      others := hm.others
      id := hid
      inbound := by
        show S.inbound (f w'.node) = queue
        rw [hnode, hm.inbound]
      stands := stands_comap.2 (by rw [hnode, hsent]; exact hm.stands) }⟩
  · exact .inr href

/-! ## Nodes side by side -/

/-- The packets that are about to leave any of the nodes. -/
def outs (S : Station σ ε) (ns : List σ) : Multiset Packet := (ns.map S.out).sum

/-- The packets that are queued at any of the nodes. -/
def queues (S : Station σ ε) (ns : List σ) : Multiset Packet :=
  (ns.map fun n => S.packets (S.inbound n)).sum

/-- Nodes of one kind play their parts, and what is queued at a node is for it. -/
structure Attends (S : Station σ ε) (P : Plan) (s : Scene) (ns : List σ) : Prop where
  plays : ∀ n ∈ ns, S.Plays P n (s.node (S.id n))
  addressed : ∀ n ∈ ns, ∀ e ∈ S.inbound n, ∀ p, S.packet? e = some p → p.dst = S.id n

/-- Nodes of one kind stand side by side in a scene where `R` is about to leave other
nodes and `T` is on its way to them. -/
structure Company (S : Station σ ε) (P : Plan) (s : Scene) (ns : List σ) (R T : Multiset Packet) :
    Prop extends S.Attends P s ns where
  nodup : (ns.map S.id).Nodup
  outgoing : s.outgoing = R + S.outs ns
  transit : s.transit = T + S.queues ns

theorem outs_cons (n : σ) (ns : List σ) : S.outs (n :: ns) = S.out n + S.outs ns := List.sum_cons

theorem queues_cons (n : σ) (ns : List σ) :
    S.queues (n :: ns) = S.packets (S.inbound n) + S.queues ns := List.sum_cons

theorem outs_eq_zero (h : ∀ n ∈ ns, (S.outlet n).toList = []) : S.outs ns = 0 := by
  refine List.sum_eq_zero fun x hx => ?_
  obtain ⟨n, hn, rfl⟩ := List.mem_map.1 hx
  rw [out, h n hn]
  rfl

theorem queues_eq_zero (h : ∀ n ∈ ns, S.inbound n = []) : S.queues ns = 0 := by
  refine List.sum_eq_zero fun x hx => ?_
  obtain ⟨n, hn, rfl⟩ := List.mem_map.1 hx
  rw [h n hn]
  rfl

/-- The work `w` of the nodes `ns`, one after another, has led from `s` to `s'`. -/
structure Advanced (S : Station σ ε) (P : Plan) (s : Scene) (ns : List σ) (w : Work (List σ))
    (R T : Multiset Packet) (s' : Scene) : Prop where
  run : s.Run P S.role s'
  others : ∀ c, c ∉ ns.map S.id → s'.node c = s.node c
  ids : w.node.map S.id = ns.map S.id
  inbound : ∀ n ∈ w.node, S.inbound n = []
  company : S.Company P s' w.node R (T + (w.sent : Multiset Packet))

section InTurn

variable {s s' s'' : Scene} {ns rest : List σ} {R T : Multiset Packet}

/-- The first of several nodes stands where they all do. -/
theorem Company.head (hc : S.Company P s (n :: rest) R T) :
    S.Stands P s n (R + S.outs rest) (S.packets (S.inbound n) + (T + S.queues rest)) where
  plays := hc.plays n List.mem_cons_self
  outgoing := by rw [hc.outgoing, outs_cons, Multiset.add_assoc, Multiset.add_comm (S.out n)]
  transit := by
    rw [hc.transit, queues_cons]
    exact add_left_comm _ _ _

/-- The first node has done its work, and the others stand as before. -/
theorem Company.tail (hc : S.Company P s (n :: rest) R T)
    (hm : S.Moved P s n w queue (R + S.outs rest) (T + S.queues rest) s') :
    S.Company P s' rest (R + S.out w.node) (T + (w.sent : Multiset Packet)) := by
  have hnodup := hc.nodup
  rw [List.map_cons, List.nodup_cons] at hnodup
  refine {
    plays := fun m hmem => ?_
    nodup := hnodup.2
    addressed := fun m hmem => hc.addressed m (List.mem_cons_of_mem n hmem)
    outgoing := ?_
    transit := ?_ }
  · rw [hm.others]
    · exact hc.plays m (List.mem_cons_of_mem n hmem)
    · intro hid
      exact hnodup.1 (hid ▸ List.mem_map_of_mem hmem)
  · rw [hm.stands.outgoing, Multiset.add_assoc, Multiset.add_comm (S.outs rest),
      Multiset.add_assoc]
  · rw [hm.stands.transit, Multiset.add_assoc, Multiset.add_assoc,
      Multiset.add_comm (S.queues rest)]

/-- The others have done their work after the first node. -/
theorem Moved.cons {w' : Work (List σ)} (hnodup : ((n :: rest).map S.id).Nodup)
    (hm : S.Moved P s n w [] (R + S.outs rest) (T + S.queues rest) s')
    (ha : S.Advanced P s' rest w' (R + S.out w.node) (T + (w.sent : Multiset Packet)) s'') :
    S.Advanced P s (n :: rest) { w' with node := w.node :: w'.node, sent := w.sent ++ w'.sent }
      R T s'' := by
  rw [List.map_cons, List.nodup_cons] at hnodup
  have hempty : ∀ m ∈ w.node :: w'.node, S.inbound m = [] := by
    intro m hmem
    rcases List.mem_cons.1 hmem with rfl | hmem
    · exact hm.inbound
    · exact ha.inbound m hmem
  refine {
    run := hm.run.trans ha.run
    others := fun c hcn => ?_
    ids := by rw [List.map_cons, List.map_cons, hm.id, ha.ids]
    inbound := hempty
    company := {
      plays := fun m hmem => ?_
      addressed := fun m hmem e he => ?_
      nodup := ?_
      outgoing := by rw [ha.company.outgoing, outs_cons, Multiset.add_assoc]
      transit := ?_ } }
  · rw [List.map_cons, List.mem_cons, not_or] at hcn
    rw [ha.others c hcn.2, hm.others c hcn.1]
  · -- the first node is not among the others, so they leave its view alone
    rcases List.mem_cons.1 hmem with rfl | hmem
    · rw [hm.id, ha.others _ hnodup.1, ← hm.id]
      exact hm.stands.plays
    · exact ha.company.plays m hmem
  · rw [hempty m hmem] at he
    cases he
  · rw [List.map_cons, hm.id, ha.ids]
    exact List.nodup_cons.2 hnodup
  · rw [ha.company.transit, queues_cons, hm.inbound, ← Multiset.coe_add]
    show _ = T + (_ + _) + (0 + _)
    rw [Multiset.zero_add, Multiset.add_assoc T]

/-- Where there are no nodes nothing is done. -/
theorem Company.done (hc : S.Company P s [] R T) : S.Advanced P s [] (.done []) R T s where
  run := .refl
  others _ _ := rfl
  ids := rfl
  inbound := nofun
  company := { hc with
    transit := by
      rw [hc.transit]
      exact (Multiset.add_zero _).symm }

/-- Nodes at work one after another. -/
theorem Company.forEach {work : σ → Work σ}
    (hwork : ∀ n, (∀ e ∈ S.inbound n, ∀ p, S.packet? e = some p → p.dst = S.id n) →
      S.Works P n (S.packets (S.inbound n)) (work n) [])
    (hc : S.Company P s ns R T) (hs : s.Sound P) :
    ((Work.forEach work ns).fault = none ∧
      ∃ s', S.Advanced P s ns (Work.forEach work ns) R T s') ∨
    ∃ f s', (Work.forEach work ns).fault = some f ∧ s.Run P S.role s' ∧ s'.Refuses P f := by
  induction ns generalizing s R T with
  | nil => exact .inl ⟨rfl, s, hc.done⟩
  | cons n rest ih =>
    rcases hwork n (hc.addressed n List.mem_cons_self) s _ _ hs hc.head with
      ⟨hf, s', hm⟩ | ⟨f, s', hf, hrun, href⟩
    · -- the first node has done its work; the others start where it has led
      rw [Work.forEach_cons hf]
      rcases ih (hc.tail hm) (hm.run.sound hs) with ⟨hf', s'', ha⟩ | ⟨f, s'', hf', hrun, href⟩
      · exact .inl ⟨hf', s'', hm.cons hc.nodup ha⟩
      · exact .inr ⟨f, s'', hf', hm.run.trans hrun, href⟩
    · refine .inr ⟨f, s', ?_, hrun, href⟩
      rw [Work.forEach, hf]

/-- Work that is not stopped keeps `Q`, for the node and for all others. -/
def Keeps (S : Station σ ε) (P : Plan) (Q : Scene → σ → Prop) (work : σ → Work σ) : Prop :=
  ∀ s n R T, s.Sound P → S.Stands P s n R (S.packets (S.inbound n) + T) →
    (∀ e ∈ S.inbound n, ∀ p, S.packet? e = some p → p.dst = S.id n) → Q s n →
    (work n).fault = none → ∃ s', S.Moved P s n (work n) [] R T s' ∧ Q s' (work n).node ∧
      ∀ m, S.id m ≠ S.id n → Q s m → Q s' m

/-- What each node at work keeps holds of every node when its turn comes, and of all in the end. -/
theorem Company.keeps {Q : Scene → σ → Prop} {work : σ → Work σ} (hwork : S.Keeps P Q work)
    (hc : S.Company P s ns R T) (hs : s.Sound P) (hQ : ∀ n ∈ ns, Q s n)
    (hf : (Work.forEach work ns).fault = none) :
    (∃ s', S.Advanced P s ns (Work.forEach work ns) R T s' ∧
      (∀ n ∈ (Work.forEach work ns).node, Q s' n) ∧ ∀ m, S.id m ∉ ns.map S.id → Q s m → Q s' m) ∧
    ∀ n ∈ ns, ∃ s' R' T', s'.Sound P ∧ S.Stands P s' n R' (S.packets (S.inbound n) + T') ∧
      Q s' n := by
  induction ns generalizing s R T with
  | nil => exact ⟨⟨s, hc.done, nofun, fun m _ hm => hm⟩, nofun⟩
  | cons n rest ih =>
    have hall := (Work.forEach_node hf).2
    have hn := hall n List.mem_cons_self
    rw [Work.forEach_cons hn] at hf ⊢
    have hnodup := hc.nodup
    rw [List.map_cons, List.nodup_cons] at hnodup
    obtain ⟨s₁, hm, hself, hothers⟩ := hwork s n _ _ hs hc.head (hc.addressed n List.mem_cons_self)
      (hQ n List.mem_cons_self) hn
    have hrest : ∀ m ∈ rest, Q s₁ m := fun m hmem => by
      refine hothers m (fun hid => hnodup.1 ?_) (hQ m (List.mem_cons_of_mem n hmem))
      rw [← hid]
      exact List.mem_map_of_mem hmem
    obtain ⟨⟨s₂, ha, hnodes, hkept⟩, hturns⟩ := ih (hc.tail hm) (hm.run.sound hs) hrest hf
    refine ⟨⟨s₂, hm.cons hc.nodup ha, fun m hmem => ?_, fun m hnot hm₀ => ?_⟩, fun m hmem => ?_⟩
    · rcases List.mem_cons.1 hmem with rfl | hmem
      · exact hkept _ (by rw [hm.id]; exact hnodup.1) hself
      · exact hnodes m hmem
    · rw [List.map_cons, List.mem_cons, not_or] at hnot
      exact hkept m hnot.2 (hothers m hnot.1 hm₀)
    · rcases List.mem_cons.1 hmem with rfl | hmem
      · exact ⟨s, _, _, hs, hc.head, hQ m List.mem_cons_self⟩
      · exact hturns m hmem

end InTurn

end Station

end CacheCoherence
