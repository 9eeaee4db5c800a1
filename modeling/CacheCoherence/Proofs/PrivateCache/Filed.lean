import CacheCoherence.PrivateCache.Tick
import CacheCoherence.Proofs.Protocol.ClientSteps
import CacheCoherence.Proofs.Scene.Wiring
import CacheCoherence.Proofs.Backlog.Guarded
import Mathlib.Logic.Relation

/-!
# Filed — the lines of a private cache, each in one state

A private cache keeps its lines in a table and its misses in registers. Seen from
outside there is one client state for every line: that of the controller in the table,
or that of the miss. What a cache does to its lines on behalf of its processor is a run
of accesses, one line at a time.
-/

namespace CacheCoherence

open Function (update update_self update_of_ne)

/-- The way that a transaction of a private cache lays claim to. -/
def ClientTransaction.claim : ClientTransaction → Claim
  | miss m => if m.awaitsVictim then .awaits m.way else .reserved m.way
  | upgrade way _ => .resident way

/-- The states of all lines at a client, and what is about to leave its node. -/
abbrev ClientView := (Addr → ClientState) × Multiset Packet

/-- One line of the client `me` is accessed or evicted. -/
inductive ClientView.Access (P : Wiring) (me : NodeId) : ClientView → ClientView → Prop
  | mk {v : Addr → ClientState} {out : Multiset Packet} {X : Addr} {op : ProcessorOp}
      {t : ClientTransition} (hX : P.lineOf X = X) (ht : (v X).onProcessor op = some t) :
      Access P me (v, out) (update v X t.next, out + P.clientPosts me X t.actions)

namespace ClientState

/-- An access that is done at once sends nothing. -/
theorem actions_of_onProcessor {s : ClientState} {a : Access} {t : ClientTransition}
    (h : s.onProcessor a.operation = some t) (hs : t.next.isStable = true) : t.actions = [] := by
  cases s <;> cases a <;> simp [onProcessor, Access.operation] at h <;> subst h <;>
    simp [isStable] at hs ⊢

theorem not_stable_of_departs {s : ClientState} (h : s.departs = true) : s.isStable = false := by
  cases s <;> simp_all [departs, isStable]

theorem not_departs_of_stable {s : ClientState} (h : s.isStable = true) : s.departs = false := by
  cases s <;> simp_all [departs, isStable]

/-- No access of the processor makes a line leave. -/
theorem not_departs_of_access {s : ClientState} {a : Access} {t : ClientTransition}
    (h : s.onProcessor a.operation = some t) : t.next.departs = false := by
  cases s <;> cases a <;> simp [onProcessor, Access.operation] at h <;> subst h <;> rfl

/-- A line that starts to leave is gone at once or waits for the word that it may. -/
theorem departs_of_evict {s : ClientState} {t : ClientTransition}
    (h : s.onProcessor .evict = some t) : t.next = .I ∨ t.next.departs = true := by
  cases s <;> simp [onProcessor] at h <;> subst h <;> simp [departs]

end ClientState

namespace PrivateCache

/-- How a private cache reads its transactions and controllers. -/
def discipline : Discipline ClientState ClientTransaction where
  claim := ClientTransaction.claim
  stable := ClientState.isStable

/-- The state of a line in its place. -/
def stateAt : Place ClientState ClientTransaction → ClientState
  | .filed _ e _ => e.controller
  | .reserved _ _ (.miss m) | .waiting _ _ (.miss m) => m.state
  | _ => .I

/-- The states of all lines in their places. -/
def view (place : Addr → Place ClientState ClientTransaction) : Addr → ClientState :=
  fun X => stateAt (place X)

/-- What is about to leave the node. -/
def out (c : PrivateCache) : Multiset Packet := (c.outlet.toList : Multiset Packet)

/-- A line that waits for a way has asked for nothing yet. -/
def Unasked (place : Addr → Place ClientState ClientTransaction) : Prop :=
  ∀ X i r m, place X = .waiting i r (.miss m) → m.state = .I

/-- Table and registers hold what `place` says. -/
structure Filed (c : PrivateCache) (place : Addr → Place ClientState ClientTransaction) : Prop
    extends Ledger discipline c.table c.mshr place where
  unasked : Unasked place

/-- A line is being evicted exactly if it is on its way out, and a line with a way of its own has
been asked for. -/
def Calm : Place ClientState ClientTransaction → Prop
  | .filed _ e _ => e.controller.departs = e.evicting
  | .reserved _ _ (.miss m) => m.state = .IE
  | _ => True

/-- The lines are filed, and no parked request is forgotten. A request for the line `K`, if
there is one, is at hand. -/
structure Guards (P : Wiring) (K : Option Addr) (c : PrivateCache)
    (place : Addr → Place ClientState ClientTransaction) : Prop extends Filed c place where
  guarded : Backlog.Guarded (fun q : Request => P.lineOf q.addr) (.ofPlaces c.mshr place) K
    c.backlog

/-- Besides, whatever the lines are in the way of, they are waiting for word themselves. -/
structure Rests (P : Wiring) (K : Option Addr) (c : PrivateCache)
    (place : Addr → Place ClientState ClientTransaction) : Prop extends Guards P K c place where
  calm : ∀ X, Calm (place X)

/-- The cache is wired as `P` says. -/
structure Follows (P : Wiring) (c : PrivateCache) : Prop where
  tags : c.tags = P.tags
  managers : ∀ X, c.managers.lookup X = P.home X
  lineOf : ∀ a, c.table.lineAddr a = P.lineOf a

/-- `d` is the cache `c` after some work on its lines. -/
structure Kept (c d : PrivateCache) : Prop where
  id : d.id = c.id
  tags : d.tags = c.tags
  managers : d.managers = c.managers
  layout : d.table.layout = c.table.layout
  link : d.outlet.link = c.outlet.link
  inbound : d.inbound = c.inbound

theorem Kept.refl (c : PrivateCache) : Kept c c := ⟨rfl, rfl, rfl, rfl, rfl, rfl⟩

theorem Kept.trans {c d e : PrivateCache} (h : Kept c d) (h' : Kept d e) : Kept c e :=
  ⟨h'.id.trans h.id, h'.tags.trans h.tags, h'.managers.trans h.managers,
    h'.layout.trans h.layout, h'.link.trans h.link, h'.inbound.trans h.inbound⟩

/-- `d` is the cache `c` after work that made the lines and the way out `w` into what
they are now by accesses alone. -/
def Reaches (P : Wiring) (c : PrivateCache) (w : ClientView) (d : PrivateCache) : Prop :=
  Kept c d ∧ ∃ place, Rests P none d place ∧
    Relation.ReflTransGen (ClientView.Access P c.id) w (view place, d.out)

variable {P : Wiring} {K : Option Addr} {c d : PrivateCache}
  {place : Addr → Place ClientState ClientTransaction}
  {X V : Addr} {i r : Nat} {e : LineEntry ClientState} {t : ClientTransition} {m : ClientMiss}

theorem view_update (place : Addr → Place ClientState ClientTransaction) (X : Addr)
    (p : Place ClientState ClientTransaction) :
    view (update place X p) = update (view place) X (stateAt p) := by
  funext Y
  by_cases hY : Y = X
  · rw [hY, view, update_self, update_self]
  · rw [view, update_of_ne hY, update_of_ne hY, view]

/-- A line that keeps its state may change its place. -/
theorem view_update_same {p : Place ClientState ClientTransaction}
    (h : stateAt p = stateAt (place X)) : view (update place X p) = view place := by
  rw [view_update, h]
  exact Function.update_eq_self X (view place)

theorem Unasked.update (h : Unasked place) {p : Place ClientState ClientTransaction}
    (hp : ∀ i r m, p = .waiting i r (.miss m) → m.state = .I) :
    Unasked (Function.update place X p) := by
  intro Y i r m hY
  by_cases hYX : Y = X
  · rw [hYX, update_self] at hY
    exact hp i r m hY
  · rw [update_of_ne hYX] at hY
    exact h Y i r m hY

/-- A line goes on to a calm place. -/
theorem calm_update {p : Place ClientState ClientTransaction} (h : ∀ Y, Y ≠ X → Calm (place Y))
    (hp : Calm p) : ∀ Y, Calm (update place X p Y) := by
  intro Y
  by_cases hY : Y = X
  · rw [hY, update_self]
    exact hp
  · rw [update_of_ne hY]
    exact h Y hY

/-- The other lines stay calm. -/
theorem calm_elsewhere (h : ∀ Y, Calm (place Y)) (X : Addr)
    (p : Place ClientState ClientTransaction) : ∀ Y, Y ≠ X → Calm (update place X p Y) := by
  intro Y hY
  rw [update_of_ne hY]
  exact h Y

theorem calm_of_staying {x : Option (Nat × ClientTransaction)} (hev : e.evicting = false)
    (hstays : e.controller.departs = false) : Calm (.filed i e x) :=
  hstays.trans hev.symm

/-- What happens to the way out does not matter. -/
theorem Rests.congr (h : Rests P K c place) (ht : d.table = c.table) (hm : d.mshr = c.mshr)
    (hb : d.backlog = c.backlog) : Rests P K d place where
  toLedger := by rw [ht, hm]; exact h.toLedger
  unasked := h.unasked
  guarded := by rw [hm, hb]; exact h.guarded
  calm := h.calm

theorem Follows.congr (hf : Follows P c) (htags : d.tags = c.tags)
    (hmanagers : d.managers = c.managers) (hlayout : d.table.layout = c.table.layout) :
    Follows P d where
  tags := htags.trans hf.tags
  managers X := by rw [hmanagers, hf.managers]
  lineOf a := by rw [LineTable.lineAddr, hlayout, ← hf.lineOf a, LineTable.lineAddr]

theorem Follows.kept (hf : Follows P c) (h : Kept c d) : Follows P d :=
  hf.congr h.tags h.managers h.layout

namespace Reaches

/-- A node whose lines are filed as they were reaches itself. -/
theorem of_eq {w : ClientView} (h : Rests P none d place) (hk : Kept c d)
    (hw : w = (view place, d.out)) :
    Reaches P c w d :=
  ⟨hk, place, h, hw ▸ .refl⟩

/-- One access has been made. -/
theorem single {v : Addr → ClientState} {out : Multiset Packet} {op : ProcessorOp}
    (h : Rests P none d place) (hk : Kept c d) (hX : P.lineOf X = X)
    (ht : (v X).onProcessor op = some t)
    (hv : view place = update v X t.next) (ho : d.out = out + P.clientPosts c.id X t.actions) :
    Reaches P c (v, out) d :=
  ⟨hk, place, h, by rw [hv, ho]; exact .single (.mk hX ht)⟩

/-- Work goes on after a run of accesses. -/
theorem after {w : ClientView} {d' : PrivateCache} (hk : Kept c d)
    (hrun : Relation.ReflTransGen (ClientView.Access P c.id) w (view place, d.out))
    (h : Reaches P d (view place, d.out) d') : Reaches P c w d' := by
  obtain ⟨hk', place', hd', hrun'⟩ := h
  rw [hk.id] at hrun'
  exact ⟨hk.trans hk', place', hd', hrun.trans hrun'⟩

/-- Work goes on from where it stands. -/
theorem resume {w : ClientView} {d' : PrivateCache} (hk : Kept c d) (hw : w = (view place, d.out))
    (h : Reaches P d (view place, d.out) d') : Reaches P c w d' :=
  .after hk (hw ▸ .refl) h

end Reaches

/-! ## Small changes -/

theorem step_processor {s : ClientState} {op : ProcessorOp} (h : s.onProcessor op = some t) :
    c.step X s (.processor op) = .ok t := by
  rw [step, ClientState.transition_processor.2 h]
  rfl

theorem step_message {s : ClientState} {op : Opcode} {src : NodeId} {fwd : Option NodeId}
    (h : s.onMessage op fwd = some t) : c.step X s (.message op src fwd) = .ok t := by
  rw [step, ClientState.transition_message.2 h]
  rfl

theorem step_message_refused {s : ClientState} {op : Opcode} {src : NodeId} {fwd : Option NodeId}
    (h : s.onMessage op fwd = none) :
    c.step X s (.message op src fwd)
      = .error (.clientViolation c.id X { state := s, event := .message op src fwd }) := by
  simp [step, ClientState.transition, h, Except.mapError]

/-- Carrying out actions posts their packets, and nothing else of note. -/
theorem perform_eq (hf : Follows P c) (X : Addr) (actions : List ClientAction) :
    ∃ o k, c.perform X actions = { c with outlet := o, counters := k } ∧
      o.link = c.outlet.link ∧
      o.toList = c.outlet.toList ++ actions.map (P.clientPacket c.id X) := by
  induction actions generalizing c with
  | nil => exact ⟨c.outlet, c.counters, rfl, rfl, by simp⟩
  | cons a rest ih =>
    have hact : ∃ k, c.act X a = { c with
        outlet := c.outlet.post c.cycle (P.clientPacket c.id X a), counters := k } := by
      cases a with
      | toManager op =>
        refine ⟨{ c.counters with messagesSent := c.counters.messagesSent + 1 }, ?_⟩
        simp only [act, send, hf.managers, hf.tags]
        rfl
      | toPeer op dest =>
        refine ⟨{ c.counters with messagesSent := c.counters.messagesSent + 1 }, ?_⟩
        simp only [act, send, hf.tags]
        rfl
    obtain ⟨k, hk⟩ := hact
    have hf' : Follows P (c.act X a) := by
      rw [hk]
      exact hf.kept ⟨rfl, rfl, rfl, rfl, rfl, rfl⟩
    obtain ⟨o, k', hp, hl, ho⟩ := ih hf'
    refine ⟨o, k', ?_, ?_, ?_⟩
    · show (c.act X a).perform X rest = _
      rw [hp, hk]
    · rw [hl, hk]
      rfl
    · rw [ho, hk, Outlet.toList_post, List.append_assoc]
      rfl

/-- Actions change the way out alone. -/
theorem perform_kept (hf : Follows P c) (X : Addr) (actions : List ClientAction) :
    ∃ o k, c.perform X actions = { c with outlet := o, counters := k } ∧
      Kept c { c with outlet := o, counters := k } ∧
      (o.toList : Multiset Packet) = c.out + P.clientPosts c.id X actions := by
  obtain ⟨o, k, hp, hl, ho⟩ := perform_eq hf X actions
  refine ⟨o, k, hp, ⟨rfl, rfl, rfl, rfl, hl, rfl⟩, ?_⟩
  rw [ho, ← Multiset.coe_add]
  rfl

/-- The entry of a line that was moved to the state `next`. -/
def committed (e : LineEntry ClientState) (next : ClientState) : LineEntry ClientState :=
  { e with
    controller := next
    dirty := next.isDirty
    haveData := e.haveData && !next.isInvalid }

theorem commit_writes (h : Filed c place) {tx : Option (Nat × ClientTransaction)}
    (hp : place X = .filed i e tx) (next : ClientState) :
    c.table.Writes (c.commit (c.table.slots.handleAt i) next).table i
      (.filled X (committed e next)) :=
  LineTable.modify_writes (h.content_filed hp) _

/-- A transaction on a resident line is no miss. -/
theorem upgrade_of_filed (h : Filed c place) {v : ClientTransaction}
    (hp : place X = .filed i e (some (r, v))) :
    e.evicting = false ∧ ∃ way q, v = .upgrade way q := by
  have hfit : Place.Fits discipline c.table X (.filed i e (some (r, v))) := hp ▸ h.fits X
  obtain ⟨-, hev, -, hc⟩ := hfit
  refine ⟨hev, ?_⟩
  cases v with
  | upgrade way q => exact ⟨way, q, rfl⟩
  | miss m =>
    simp only [discipline, ClientTransaction.claim] at hc
    split at hc <;> cases hc

/-- The transaction on a line that waits for a way is a miss that has asked for
nothing. -/
theorem miss_of_waiting (h : Filed c place) {v : ClientTransaction}
    (hp : place X = .waiting i r v) :
    ∃ m, v = .miss m ∧ m.awaitsVictim = true ∧ m.way = c.table.slots.handleAt i ∧
      m.state = .I := by
  have hfit : Place.Fits discipline c.table X (.waiting i r v) := hp ▸ h.fits X
  obtain ⟨-, hc⟩ := hfit
  cases v with
  | upgrade way q => cases hc
  | miss m =>
    simp only [discipline, ClientTransaction.claim] at hc
    split at hc
    · next haw => exact ⟨m, rfl, haw, Claim.awaits.inj hc, h.unasked X i r m hp⟩
    · cases hc

theorem miss_of_reserved (h : Filed c place) {v : ClientTransaction}
    (hp : place X = .reserved i r v) :
    ∃ m, v = .miss m ∧ m.awaitsVictim = false ∧ m.way = c.table.slots.handleAt i := by
  have hfit : Place.Fits discipline c.table X (.reserved i r v) := hp ▸ h.fits X
  obtain ⟨-, hc⟩ := hfit
  cases v with
  | upgrade way q => cases hc
  | miss m =>
    simp only [discipline, ClientTransaction.claim] at hc
    split at hc
    · cases hc
    · next haw => exact ⟨m, rfl, by simpa using haw, Claim.reserved.inj hc⟩

/-- A cache that has no line in a passing state waits for nothing. -/
theorem Rests.idle (h : Rests P none c place) (hr : c.backlog.retries = [])
    (hs : ∀ X, (view place X).isStable = true) :
    c.mshr.occupancy = 0 ∧ c.backlog.isEmpty = true := by
  have hleave : ∀ V, (place V).leaves? = none := by
    intro V
    have hcalm := h.calm V
    have hstable := hs V
    rw [view] at hstable
    cases hp : place V with
    | filed i e tx =>
      rw [hp] at hcalm hstable
      refine Ledger.leaves?_filed (Bool.eq_false_iff.2 fun hev => ?_)
      rw [stateAt, ClientState.not_stable_of_departs (hcalm.trans hev)] at hstable
      cases hstable
    | _ => rfl
  refine h.guarded.idle h.toFiling hr (fun X => ?_) hleave
  have hstable := hs X
  rw [view] at hstable
  cases hp : place X with
  | absent => rfl
  | filed i e tx =>
    cases tx with
    | none => rfl
    | some rv =>
      have hfit : Place.Fits discipline c.table X (.filed i e (some rv)) := hp ▸ h.fits X
      rw [hp, stateAt] at hstable
      exact absurd hfit.2.2.1 (by simp [discipline, hstable])
  | reserved i r v =>
    obtain ⟨m, rfl, -⟩ := miss_of_reserved h.toFiled hp
    have hcalm := h.calm X
    rw [hp] at hcalm hstable
    rw [stateAt, show m.state = .IE from hcalm] at hstable
    cases hstable
  | waiting i r v => exact absurd hp (h.not_waiting hleave)

/-! ## Looking at a cache -/

/-- What a cache tells of a line is the state of the line in its place. -/
theorem Filed.lineState?_eq (h : Filed c place) (a : Addr) :
    (c.lineState? a).getD .I = view place (c.table.lineAddr a) := by
  have hline : c.table.lineAddr (c.table.lineAddr a) = c.table.lineAddr a :=
    c.table.layout.lineAddr_lineAddr a
  have hfit := h.fits (c.table.lineAddr a)
  rw [lineState?, h.outstanding?_eq, h.resident?_eq, hline, view]
  cases hp : place (c.table.lineAddr a) with
  | absent => rfl
  | filed i e tx =>
    rw [hp] at hfit
    cases tx with
    | none => rfl
    | some rv =>
      obtain ⟨r, v⟩ := rv
      obtain ⟨-, way, q, rfl⟩ := upgrade_of_filed h hp
      rfl
  | reserved i r v | waiting i r v => cases v <;> rfl

/-- A cache that waits for nothing has no line in a passing state. -/
theorem Filed.stable_lineState? (h : Filed c place) (ho : c.mshr.occupancy = 0) {a : Addr}
    {s : ClientState} (hs : c.lineState? a = some s) : s.isStable = true := by
  have hview := h.lineState?_eq a
  rw [hs, view] at hview
  obtain rfl : s = _ := hview
  rcases h.stable_of_occupancy ho (c.table.lineAddr a) with hp | ⟨i, e, hp, he⟩
  · rw [hp]
    rfl
  · rw [hp]
    exact he

end PrivateCache

end CacheCoherence
