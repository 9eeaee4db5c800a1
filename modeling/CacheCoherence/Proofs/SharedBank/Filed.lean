import CacheCoherence.Proofs.Protocol.ManagerSteps
import CacheCoherence.Proofs.Scene.Wiring
import CacheCoherence.Proofs.Backlog.Guarded
import CacheCoherence.SharedBank.Tick
import Mathlib.Logic.Relation

/-!
# Filed — the lines of a shared bank, each with one record

Seen from outside a bank keeps a record of every line that it holds or fetches: the
manager's word on the line, whether its data is newer than memory's, and the request that
waits for the data. What a bank does on behalf of the requests it holds back is a run of
steps, one line at a time.
-/

namespace CacheCoherence

open Function (update update_self update_of_ne)

/-- The way that a transaction of a bank lays claim to. -/
def ManagerTransaction.claim : ManagerTransaction → Claim
  | miss m => if m.stage = .awaitingVictim then .awaits m.way else .reserved m.way
  | resident way => .resident way

/-- What a bank keeps of a line. -/
structure BankLine where
  controller : ManagerLine
  /-- The data is newer than memory's. -/
  dirty : Bool := false
  /-- The request that waits for the line's data. -/
  request : Option CoherenceMessage := none
  /-- Memory has been asked for the data. -/
  asked : Bool := false
deriving DecidableEq, Repr

/-- The records of a bank, the requests it holds back and what is about to leave it. -/
structure BankView where
  line : Addr → Option BankLine
  held : Multiset CoherenceMessage
  out : Multiset Packet

namespace BankView

/-- The record of `X` is now `l`, and `posts` are about to leave. -/
def put (w : BankView) (X : Addr) (l : Option BankLine) (posts : Multiset Packet) : BankView :=
  { w with line := update w.line X l, out := w.out + posts }

@[simp] theorem put_line (w : BankView) (X : Addr) (l : Option BankLine) (posts : Multiset Packet) :
    (w.put X l posts).line X = l :=
  update_self ..

theorem put_line_ne (w : BankView) {X Y : Addr} (h : Y ≠ X) (l : Option BankLine)
    (posts : Multiset Packet) : (w.put X l posts).line Y = w.line Y :=
  update_of_ne h ..

/-- One request more is held back. -/
def hold (w : BankView) (m : CoherenceMessage) : BankView := { w with held := m ::ₘ w.held }

/-- One step of the bank `me`. -/
inductive Step (P : Wiring) (me : NodeId) : BankView → BankView → Prop
  /-- A request is settled or taken up. -/
  | serve {w : BankView} {m : CoherenceMessage} {X : Addr} {l : ManagerLine} {d : Bool}
      {t : ManagerTransition} (hm : P.lineOf m.addr = X) (hX : P.lineOf X = X)
      (hl : w.line X = some { controller := l, dirty := d })
      (ht : l.onRequest m.op m.src = some t) :
      Step P me (w.hold m) (w.put X (some { controller := t.next, dirty := d || t.returnsData })
        (P.managerPosts me X t.actions))
  /-- An eviction notice for a line that is not held is dropped. -/
  | drop {w : BankView} {m : CoherenceMessage} {X : Addr} (hm : P.lineOf m.addr = X)
      (hl : w.line X = none) (hop : m.op.isEviction = true) : Step P me (w.hold m) w
  /-- The line of a request is to be fetched. -/
  | enrol {w : BankView} {m : CoherenceMessage} {X : Addr} (hm : P.lineOf m.addr = X)
      (hl : w.line X = none) (hop : m.op.isEviction = false) :
      Step P me (w.hold m) (w.put X (some { controller := .initial, request := some m }) 0)
  /-- Memory is asked for a line. -/
  | ask {w : BankView} {X : Addr} {l : ManagerLine} {d : Bool} {m : CoherenceMessage}
      (hX : P.lineOf X = X)
      (hl : w.line X = some { controller := l, dirty := d, request := some m }) :
      Step P me w (w.put X
        (some { controller := l, dirty := d, request := some m, asked := true })
        {P.memoryPacket me .read X})
  /-- A line starts to be replaced. -/
  | evict {w : BankView} {X : Addr} {l : ManagerLine} {d : Bool} {t : ManagerTransition}
      (hX : P.lineOf X = X) (hl : w.line X = some { controller := l, dirty := d })
      (ht : l.onEvict = some t) :
      Step P me w (w.put X (some { controller := t.next, dirty := d || t.returnsData })
        (P.managerPosts me X t.actions))
  /-- A line that nobody holds leaves the bank; newer data goes to memory. -/
  | forget {w : BankView} {X : Addr} {l : ManagerLine} {d : Bool} (hX : P.lineOf X = X)
      (hl : w.line X = some { controller := l, dirty := d }) (hI : l.state = .I) :
      Step P me w (w.put X none (if d then {P.memoryPacket me .write X} else 0))

/-- The table of some line has no entry for what the bank is about to do. -/
def Stuck (P : Wiring) (w : BankView) : Prop :=
  (∃ m ∈ w.held, ∃ l d, w.line (P.lineOf m.addr) = some { controller := l, dirty := d } ∧
    l.isStable = true ∧ l.onRequest m.op m.src = none) ∨
  ∃ X l d, w.line X = some { controller := l, dirty := d } ∧ l.isStable = true ∧ l.onEvict = none

end BankView

namespace SharedBank

/-- How a bank reads its transactions and controllers. -/
def discipline : Discipline ManagerLine ManagerTransaction where
  claim := ManagerTransaction.claim
  stable := ManagerLine.isStable

/-- The record of a line in its place. -/
def recordAt : Place ManagerLine ManagerTransaction → Option BankLine
  | .filed _ e _ => some { controller := e.controller, dirty := e.dirty }
  | .reserved _ _ (.miss m) | .waiting _ _ (.miss m) =>
      some {
        controller := m.controller
        dirty := m.dirty
        request := if m.stage = .awaitingClients then none else some m.request
        asked := m.stage = .awaitingMemory }
  | _ => none

/-- The records of all lines in their places. -/
def records (place : Addr → Place ManagerLine ManagerTransaction) : Addr → Option BankLine :=
  fun X => recordAt (place X)

/-- What holds of a line in its place besides: before its data is there nobody has got it,
and an evicted line is given to nobody. -/
def Proper : Place ManagerLine ManagerTransaction → Prop
  | .filed _ e _ => e.evicting = true → e.controller.state = .I ∨ e.controller.state = .EIEvict ∨
      e.controller.state = .SIEvict
  | .reserved _ _ (.miss m) | .waiting _ _ (.miss m) =>
      m.stage ≠ .awaitingClients → m.controller = .initial ∧ m.dirty = false
  | _ => True

/-- Table and registers hold what `place` says. -/
structure Filed (c : SharedBank) (place : Addr → Place ManagerLine ManagerTransaction) : Prop
    extends Ledger discipline c.table c.mshr place where
  proper : ∀ X, Proper (place X)

/-- A line that is being evicted waits for its clients, and so does one whose data is there but
which is not filed. -/
def Calm : Place ManagerLine ManagerTransaction → Prop
  | .filed _ e _ => e.evicting = true → e.controller.isStable = false
  | .reserved _ _ (.miss m) => m.stage = .awaitingClients → m.controller.isStable = false
  | _ => True

/-- The lines are filed, and no parked request is forgotten. A request for the line `K`, if
there is one, is at hand. -/
structure Guards (P : Wiring) (K : Option Addr) (c : SharedBank)
    (place : Addr → Place ManagerLine ManagerTransaction) : Prop extends Filed c place where
  guarded : Backlog.Guarded (fun q : CoherenceMessage => P.lineOf q.addr) (.ofPlaces c.mshr place)
    K c.backlog

/-- Besides, whatever the lines are in the way of, they are waiting for word themselves. -/
structure Rests (P : Wiring) (K : Option Addr) (c : SharedBank)
    (place : Addr → Place ManagerLine ManagerTransaction) : Prop extends Guards P K c place where
  calm : ∀ X, Calm (place X)

/-- The bank as seen from outside. -/
def view (c : SharedBank) (place : Addr → Place ManagerLine ManagerTransaction) : BankView where
  line := records place
  held := c.backlog.items
  out := (c.outlet.toList : Multiset Packet)

/-- The bank is wired as `P` says. -/
structure Follows (P : Wiring) (c : SharedBank) : Prop where
  tags : c.tags = P.tags
  memories : ∀ X, c.memories.lookup X = P.store X
  lineOf : ∀ a, c.table.lineAddr a = P.lineOf a

/-- `d` is the bank `c` after some work on its lines. -/
structure Kept (c d : SharedBank) : Prop where
  id : d.id = c.id
  tags : d.tags = c.tags
  memories : d.memories = c.memories
  layout : d.table.layout = c.table.layout
  link : d.outlet.link = c.outlet.link
  inbound : d.inbound = c.inbound

theorem Kept.refl (c : SharedBank) : Kept c c := ⟨rfl, rfl, rfl, rfl, rfl, rfl⟩

theorem Kept.trans {c d e : SharedBank} (h : Kept c d) (h' : Kept d e) : Kept c e :=
  ⟨h'.id.trans h.id, h'.tags.trans h.tags, h'.memories.trans h.memories,
    h'.layout.trans h.layout, h'.link.trans h.link, h'.inbound.trans h.inbound⟩

/-- `d` is the bank `c` after work that made `w` into what is seen of it now. -/
def Reaches (P : Wiring) (c : SharedBank) (w : BankView) (d : SharedBank) : Prop :=
  Kept c d ∧ ∃ place, Rests P none d place ∧
    Relation.ReflTransGen (BankView.Step P c.id) w (d.view place)

variable {P : Wiring} {K : Option Addr} {c d : SharedBank}
  {place : Addr → Place ManagerLine ManagerTransaction}
  {X V : Addr} {i r : Nat} {e : LineEntry ManagerLine} {t : ManagerTransition} {m : ManagerMiss}

theorem records_update (place : Addr → Place ManagerLine ManagerTransaction) (X : Addr)
    (p : Place ManagerLine ManagerTransaction) :
    records (update place X p) = update (records place) X (recordAt p) := by
  funext Y
  by_cases hY : Y = X
  · rw [hY, records, update_self, update_self]
  · rw [records, update_of_ne hY, update_of_ne hY, records]

theorem proper_update {p : Place ManagerLine ManagerTransaction} (h : ∀ X, Proper (place X))
    (hp : Proper p) : ∀ Y, Proper (update place X p Y) := by
  intro Y
  by_cases hY : Y = X
  · rw [hY, update_self]
    exact hp
  · rw [update_of_ne hY]
    exact h Y

/-- A line goes on to a calm place. -/
theorem calm_update {p : Place ManagerLine ManagerTransaction} (h : ∀ Y, Y ≠ X → Calm (place Y))
    (hp : Calm p) : ∀ Y, Calm (update place X p Y) := by
  intro Y
  by_cases hY : Y = X
  · rw [hY, update_self]
    exact hp
  · rw [update_of_ne hY]
    exact h Y hY

/-- The other lines stay calm. -/
theorem calm_elsewhere (h : ∀ Y, Calm (place Y)) (X : Addr)
    (p : Place ManagerLine ManagerTransaction) : ∀ Y, Y ≠ X → Calm (update place X p Y) := by
  intro Y hY
  rw [update_of_ne hY]
  exact h Y

theorem calm_of_staying {x : Option (Nat × ManagerTransaction)} (hev : e.evicting = false) :
    Calm (.filed i e x) :=
  fun hev' => by simp [hev] at hev'

/-- What happens to the way out does not matter. -/
theorem Rests.congr (h : Rests P K c place) (ht : d.table = c.table) (hm : d.mshr = c.mshr)
    (hb : d.backlog = c.backlog) : Rests P K d place where
  toLedger := by rw [ht, hm]; exact h.toLedger
  proper := h.proper
  guarded := by rw [hm, hb]; exact h.guarded
  calm := h.calm

theorem Follows.congr (hf : Follows P c) (htags : d.tags = c.tags)
    (hmemories : d.memories = c.memories) (hlayout : d.table.layout = c.table.layout) :
    Follows P d where
  tags := htags.trans hf.tags
  memories X := by rw [hmemories, hf.memories]
  lineOf a := by rw [LineTable.lineAddr, hlayout, ← hf.lineOf a, LineTable.lineAddr]

theorem Follows.kept (hf : Follows P c) (h : Kept c d) : Follows P d :=
  hf.congr h.tags h.memories h.layout

namespace Reaches

/-- A bank whose lines are filed as they were reaches itself. -/
theorem of_eq {w : BankView} (h : Rests P none d place) (hk : Kept c d) (hw : w = d.view place) :
    Reaches P c w d :=
  ⟨hk, place, h, hw ▸ .refl⟩

/-- A run of steps has been made. -/
theorem run {w w' : BankView} (h : Rests P none d place) (hk : Kept c d)
    (hrun : Relation.ReflTransGen (BankView.Step P c.id) w w') (hw : d.view place = w') :
    Reaches P c w d :=
  ⟨hk, place, h, hw ▸ hrun⟩

/-- Work goes on after a run of steps. -/
theorem after {w : BankView} {d' : SharedBank} (hk : Kept c d)
    (hrun : Relation.ReflTransGen (BankView.Step P c.id) w (d.view place))
    (h : Reaches P d (d.view place) d') : Reaches P c w d' := by
  obtain ⟨hk', place', hd', hrun'⟩ := h
  rw [hk.id] at hrun'
  exact ⟨hk.trans hk', place', hd', hrun.trans hrun'⟩

end Reaches

/-! ## Small changes -/

theorem step_request {l : ManagerLine} {op : Opcode} {src : NodeId}
    (h : l.onRequest op src = some t) : c.step X l (.request op src) = .ok t := by
  rw [step, ManagerLine.transition_request.2 h]
  rfl

theorem step_reply {l : ManagerLine} {op : Opcode} {src : NodeId}
    (h : l.onReply op src = some t) : c.step X l (.reply op src) = .ok t := by
  rw [step, ManagerLine.transition_reply.2 h]
  rfl

theorem step_evict {l : ManagerLine} (h : l.onEvict = some t) : c.step X l .evict = .ok t := by
  rw [step, ManagerLine.transition_evict.2 h]
  rfl

/-- The entry of a line that took the transition `t`. -/
def committed (e : LineEntry ManagerLine) (t : ManagerTransition) : LineEntry ManagerLine :=
  { e with controller := t.next, dirty := e.dirty || t.returnsData }

/-- The transaction on a resident line is no miss. -/
theorem resident_of_filed (h : Filed c place) {v : ManagerTransaction}
    (hp : place X = .filed i e (some (r, v))) : v = .resident (c.table.slots.handleAt i) := by
  have hfit : Place.Fits discipline c.table X (.filed i e (some (r, v))) := hp ▸ h.fits X
  obtain ⟨-, -, -, hc⟩ := hfit
  cases v with
  | resident way => rw [Claim.resident.inj hc]
  | miss m =>
    simp only [discipline, ManagerTransaction.claim] at hc
    split at hc <;> cases hc

/-- The transaction on a line that waits for a way is a miss whose data nobody has. -/
theorem miss_of_waiting (h : Filed c place) {v : ManagerTransaction}
    (hp : place X = .waiting i r v) :
    ∃ m, v = .miss m ∧ m.stage = .awaitingVictim ∧ m.way = c.table.slots.handleAt i ∧
      m.controller = .initial ∧ m.dirty = false := by
  have hfit : Place.Fits discipline c.table X (.waiting i r v) := hp ▸ h.fits X
  obtain ⟨-, hc⟩ := hfit
  cases v with
  | resident way => cases hc
  | miss m =>
    simp only [discipline, ManagerTransaction.claim] at hc
    split at hc
    · next hst =>
      have hprop : Proper (.waiting i r (.miss m)) := hp ▸ h.proper X
      obtain ⟨h1, h2⟩ := hprop (by rw [hst]; decide)
      exact ⟨m, rfl, hst, Claim.awaits.inj hc, h1, h2⟩
    · cases hc

/-- The transaction on a line with a way of its own is a miss. -/
theorem miss_of_reserved (h : Filed c place) {v : ManagerTransaction}
    (hp : place X = .reserved i r v) :
    ∃ m, v = .miss m ∧ m.stage ≠ .awaitingVictim ∧ m.way = c.table.slots.handleAt i := by
  have hfit : Place.Fits discipline c.table X (.reserved i r v) := hp ▸ h.fits X
  obtain ⟨-, hc⟩ := hfit
  cases v with
  | resident way => cases hc
  | miss m =>
    simp only [discipline, ManagerTransaction.claim] at hc
    split at hc
    · cases hc
    · next hst => exact ⟨m, rfl, hst, Claim.reserved.inj hc⟩

/-- A bank that waits neither for clients nor for memory waits for nothing. -/
theorem Rests.idle (h : Rests P none c place) (hr : c.backlog.retries = [])
    (hs : ∀ X l, records place X = some l → l.controller.isStable = true ∧ l.asked = false) :
    c.mshr.occupancy = 0 ∧ c.backlog.isEmpty = true ∧ ∀ X, (place X).register? = none := by
  have hleave : ∀ V, (place V).leaves? = none := by
    intro V
    have hcalm := h.calm V
    cases hp : place V with
    | filed i e tx =>
      rw [hp] at hcalm
      refine Ledger.leaves?_filed (Bool.eq_false_iff.2 fun hev => ?_)
      have hstable := (hs V _ (by rw [records, hp]; rfl)).1
      rw [hcalm hev] at hstable
      cases hstable
    | _ => rfl
  have hreg : ∀ X, (place X).register? = none := by
    intro X
    cases hp : place X with
    | absent => rfl
    | filed i e tx =>
      cases tx with
      | none => rfl
      | some rv =>
        have hfit : Place.Fits discipline c.table X (.filed i e (some rv)) := hp ▸ h.fits X
        have hstable := (hs X _ (by rw [records, hp]; rfl)).1
        exact absurd hfit.2.2.1 (by simp [discipline, hstable])
    | reserved i r v =>
      obtain ⟨m, rfl, hstage, -⟩ := miss_of_reserved h.toFiled hp
      obtain ⟨hstable, hasked⟩ := hs X _ (by rw [records, hp]; rfl)
      have hcalm := h.calm X
      rw [hp] at hcalm
      cases hm : m.stage with
      | awaitingVictim => exact absurd hm hstage
      | awaitingMemory => simp [hm] at hasked
      | awaitingClients =>
        rw [hcalm hm] at hstable
        cases hstable
    | waiting i r v => exact absurd hp (h.not_waiting hleave)
  obtain ⟨hocc, hempty⟩ := h.guarded.idle h.toFiling hr hreg hleave
  exact ⟨hocc, hempty, hreg⟩

/-! ## Looking at a bank -/

/-- What a bank tells of a line is its record of the line. -/
theorem Filed.line?_eq (h : Filed c place) (a : Addr) :
    c.line? a = (records place (c.table.lineAddr a)).map BankLine.controller := by
  have hfit := h.fits (c.table.lineAddr a)
  rw [line?, entry?, h.outstanding?_eq, h.resident?_eq, records]
  cases hp : place (c.table.lineAddr a) with
  | absent => rfl
  | filed i e tx =>
    rw [hp] at hfit
    cases tx with
    | none => rfl
    | some rv =>
      obtain ⟨r, v⟩ := rv
      obtain rfl := resident_of_filed h hp
      rfl
  | reserved i r v | waiting i r v =>
    rw [hp] at hfit
    cases v with
    | miss m => rfl
    | resident way => cases hfit.2

/-- A bank that waits for nothing has no line in a passing state. -/
theorem Filed.stable_line? (h : Filed c place) (ho : c.mshr.occupancy = 0) {a : Addr}
    {l : ManagerLine} (hl : c.line? a = some l) : l.isStable = true := by
  rw [h.line?_eq, records] at hl
  rcases h.stable_of_occupancy ho (c.table.lineAddr a) with hp | ⟨i, e, hp, he⟩
  · rw [hp] at hl
    cases hl
  · rw [hp] at hl
    cases hl
    exact he

/-- The bank has the data of the line of `a`: in a way of its table, or in a miss whose
requester is yet to acknowledge it. -/
def Keeps (c : SharedBank) (a : Addr) : Prop :=
  (∃ way e, c.table.resident? a = some (way, e)) ∨
    ∃ register m, c.mshr.outstanding? (c.table.lineAddr a) = some (register, .miss m) ∧
      m.stage = .awaitingClients

/-- A bank has the data of a line whose record waits for none. -/
theorem Filed.keeps (h : Filed c place) {a : Addr} {l : BankLine}
    (hl : records place (c.table.lineAddr a) = some l) (hr : l.request = none) : c.Keeps a := by
  rw [records] at hl
  rw [Keeps, h.resident?_eq, h.outstanding?_eq]
  cases hp : place (c.table.lineAddr a) with
  | absent =>
    rw [hp] at hl
    cases hl
  | filed i e tx => exact .inl ⟨_, _, rfl⟩
  | reserved i r v | waiting i r v =>
    rw [hp] at hl
    cases v with
    | resident way => cases hl
    | miss m =>
      refine .inr ⟨_, m, rfl, ?_⟩
      by_contra hne
      simp [recordAt] at hl
      subst hl
      simp [hne] at hr

end SharedBank

end CacheCoherence
