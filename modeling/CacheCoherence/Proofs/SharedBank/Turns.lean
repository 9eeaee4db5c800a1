import CacheCoherence.Proofs.SharedBank.Events
import CacheCoherence.Proofs.SharedBank.Posts

/-!
# Turns — a cycle of a shared bank in small steps

Within one cycle a bank takes turns: it takes the next packet up, or tries one woken request
again. What a turn can do to the lines is said once, as a stroke, and what holds of a bank after
any number of turns follows from what a single one keeps.
-/

namespace CacheCoherence

/-- The request of a client that the packet brings. -/
def Packet.request? (p : Packet) : Option CoherenceMessage :=
  p.coherence?.filter fun msg => msg.kind = .request

/-- The reply of a client that the packet brings. -/
def Packet.reply? (p : Packet) : Option CoherenceMessage :=
  p.coherence?.filter fun msg => msg.kind = .reply

/-- The reply of memory that the packet brings. -/
def Packet.supply? (p : Packet) : Option MemoryMessage :=
  p.memory?.filter fun msg => msg.op = .reply

/-- What is picked out of one member more is the last of all. -/
theorem filterMap_concat {α β : Type} (f : α → Option β) (l : List α) (a : α) :
    (l ++ [a]).filterMap f = l.filterMap f ++ (f a).toList := by
  rw [List.filterMap_append, List.filterMap_cons]
  cases f a <;> rfl

namespace Packet

variable {p : Packet} {q : CoherenceMessage} {msg : MemoryMessage}

/-- A credit brings nothing else. -/
theorem brings_credit (hp : p.payload = .credit) :
    p.request? = none ∧ p.reply? = none ∧ p.supply? = none := by
  simp [request?, reply?, supply?, coherence?, memory?, hp]

theorem brings_request (hp : p.payload = .coherence q) (hk : q.kind = .request) :
    p.request? = some q ∧ p.reply? = none ∧ p.supply? = none := by
  simp [request?, reply?, supply?, coherence?, memory?, hp, hk]

theorem brings_reply (hp : p.payload = .coherence q) (hk : q.kind = .reply) :
    p.request? = none ∧ p.reply? = some q ∧ p.supply? = none := by
  simp [request?, reply?, supply?, coherence?, memory?, hp, hk]

theorem brings_supply (hp : p.payload = .memory msg) (hop : msg.op = .reply) :
    p.request? = none ∧ p.reply? = none ∧ p.supply? = some msg := by
  simp [request?, reply?, supply?, coherence?, memory?, hp, hop]

end Packet

namespace SharedBank

open Function (update update_self update_of_ne)

/-- What a turn of a bank is about. -/
inductive Cause where
  /-- A packet is taken up. -/
  | packet (p : Packet)
  /-- A woken request is tried again. -/
  | retry (q : CoherenceMessage)
deriving DecidableEq, Repr

/-- One turn of a bank. -/
structure Turn where
  cause : Cause
  before : SharedBank
  after : SharedBank
deriving DecidableEq, Repr

namespace Turn

/-- The packet that is taken up. -/
def packet? (t : Turn) : Option Packet :=
  match t.cause with
  | .packet p => some p
  | .retry _ => none

/-- The request of a client that is taken up for the first time. -/
def arrival? (t : Turn) : Option CoherenceMessage := t.packet?.bind (·.request?)

/-- The request that the turn is about, whether it is new or was parked before. -/
def request? (t : Turn) : Option CoherenceMessage :=
  match t.cause with
  | .packet p => p.request?
  | .retry q => some q

/-- The client's reply that the turn is about. -/
def reply? (t : Turn) : Option CoherenceMessage :=
  match t.cause with
  | .packet p => p.reply?
  | .retry _ => none

/-- The reply of memory that the turn is about. -/
def supply? (t : Turn) : Option MemoryMessage :=
  match t.cause with
  | .packet p => p.supply?
  | .retry _ => none

/-- The packets that the turn posts, in order. -/
def posted (t : Turn) : List Packet :=
  t.after.outlet.delay.toList.drop t.before.outlet.delay.toList.length

/-- The bank with the turn's request out of its backlog. -/
def start (t : Turn) : SharedBank :=
  match t.cause with
  | .packet _ => t.before
  | .retry _ => t.before.retrying t.before.backlog.retries.tail

@[simp] theorem start_outlet (t : Turn) : t.start.outlet = t.before.outlet := by
  unfold start
  cases t.cause <;> rfl

@[simp] theorem start_counters (t : Turn) : t.start.counters = t.before.counters := by
  unfold start
  cases t.cause <;> rfl

variable {t : Turn} {p : Packet}

theorem arrival?_of_packet (h : t.cause = .packet p) : t.arrival? = p.request? := by
  rw [arrival?, packet?, h]
  rfl

theorem request?_of_packet (h : t.cause = .packet p) : t.request? = p.request? := by
  rw [request?, h]

theorem reply?_of_packet (h : t.cause = .packet p) : t.reply? = p.reply? := by
  rw [reply?, h]

theorem supply?_of_packet (h : t.cause = .packet p) : t.supply? = p.supply? := by
  rw [supply?, h]

end Turn

/-! ## The turns of a cycle -/

/-- The turns in which woken requests are tried again. -/
def drainTurns (c : SharedBank) : List Turn :=
  match hq : c.backlog.retries with
  | [] => []
  | e :: rest =>
      match hp : (c.retrying rest).process e.item false with
      | .error _ => []
      | .ok d =>
          have := retry_decreases hq hp
          { cause := .retry e.item, before := c, after := d } :: d.drainTurns
termination_by (c.load, c.backlog.retries.length)
decreasing_by exact this

/-- The turns in which packets are taken up, each with those that it causes. -/
def packetTurns (c : SharedBank) : List Packet → List Turn
  | [] => []
  | p :: rest =>
      let c := { c with inbound := rest }
      let d := (c.dispatch p).node
      { cause := .packet p, before := c, after := d } :: (d.drainTurns
        ++ (c.react p).node.packetTurns rest)

/-- The turns of a cycle that meets no fault. -/
def turns (c : SharedBank) : List Turn := c.beginCycle.packetTurns c.beginCycle.inbound

variable {P : Wiring} {c d e : SharedBank} {w : Deed} {X : Addr} {me : NodeId}
  {place place' : Addr → Place ManagerLine ManagerTransaction}

theorem drainTurns_nil (hq : c.backlog.retries = []) : c.drainTurns = [] := by
  unfold drainTurns
  split
  · rfl
  · next hq' => simp [hq] at hq'

/-- A fault ends the turns. -/
theorem drainTurns_refused {x : Parked CoherenceMessage} {rest : List (Parked CoherenceMessage)}
    {f : Fault} (hq : c.backlog.retries = x :: rest)
    (hp : (c.retrying rest).process x.item false = .error f) : c.drainTurns = [] := by
  unfold drainTurns
  split
  · rfl
  · next x' rest' hq' =>
    rw [hq] at hq'
    cases hq'
    split
    · rfl
    · next hp' =>
      rw [hp] at hp'
      cases hp'

theorem drainTurns_cons {x : Parked CoherenceMessage} {rest : List (Parked CoherenceMessage)}
    (hq : c.backlog.retries = x :: rest) (hp : (c.retrying rest).process x.item false = .ok d) :
    c.drainTurns = { cause := .retry x.item, before := c, after := d } :: d.drainTurns := by
  conv => lhs; unfold drainTurns
  split
  · next hq' => simp [hq] at hq'
  · next x' rest' hq' =>
    rw [hq] at hq'
    cases hq'
    split <;> next hp' => rw [hp] at hp'; cases hp' <;> rfl

/-- Woken requests are no packets. -/
theorem packet?_drainTurns (c : SharedBank) : c.drainTurns.filterMap Turn.packet? = [] := by
  induction c using drain.induct with
  | case1 c hq => rw [drainTurns_nil hq, List.filterMap_nil]
  | case2 c x rest hq fault hp => rw [drainTurns_refused hq hp, List.filterMap_nil]
  | case3 c x rest hq d hp hdec ih => rw [drainTurns_cons hq hp, List.filterMap_cons_none rfl, ih]

/-- Every packet is taken up in a turn, in order. -/
theorem packet?_packetTurns (c : SharedBank) (ps : List Packet) :
    (c.packetTurns ps).filterMap Turn.packet? = ps := by
  induction ps generalizing c with
  | nil => rfl
  | cons p rest ih =>
    rw [packetTurns, List.filterMap_cons_some (f := Turn.packet?) (b := p) rfl, List.filterMap_append,
      packet?_drainTurns, ih, List.nil_append]

/-! ## Strokes -/

/-- A line is fetched only for a client that asks for a copy. -/
def Wanted : Place ManagerLine ManagerTransaction → Prop
  | .reserved _ _ (.miss m) | .waiting _ _ (.miss m) => m.request.op.isEviction = false
  | _ => True

/-- What a turn may do to the lines. -/
inductive Stroke (P : Wiring) (me : NodeId) (place : Addr → Place ManagerLine ManagerTransaction) :
    Cause → Deed → (Addr → Place ManagerLine ManagerTransaction) → Prop
  | credit {p : Packet} (hp : p.payload = .credit) : Stroke P me place (.packet p) {} place
  /-- A new request is served. -/
  | request {p : Packet} {q : CoherenceMessage} {w : Deed}
      {place' : Addr → Place ManagerLine ManagerTransaction} (hp : p.payload = .coherence q)
      (hk : q.kind = .request) (h : Serves P me place q (P.lineOf q.addr) w place') :
      Stroke P me place (.packet p) w place'
  /-- A request that was parked is served. -/
  | retry {q : CoherenceMessage} {w : Deed}
      {place' : Addr → Place ManagerLine ManagerTransaction}
      (h : Serves P me place q (P.lineOf q.addr) w place') : Stroke P me place (.retry q) w place'
  /-- The reply of a client moves the record of its line. -/
  | reply {p : Packet} {msg : CoherenceMessage} {w : Deed}
      {place' : Addr → Place ManagerLine ManagerTransaction} {l : ManagerLine} {b : Bool}
      {t : ManagerTransition} (hp : p.payload = .coherence msg) (hk : msg.kind = .reply)
      (hl : records place (P.lineOf msg.addr) = some { controller := l, dirty := b })
      (ht : l.onReply msg.op msg.src = some t)
      (h : Heeds P me place (P.lineOf msg.addr) t w place') : Stroke P me place (.packet p) w place'
  /-- Memory's reply settles the request that asked for the line. -/
  | supply {p : Packet} {msg : MemoryMessage} {w : Deed}
      {place' : Addr → Place ManagerLine ManagerTransaction} {i r : Nat} {m : ManagerMiss}
      {t : ManagerTransition} (hp : p.payload = .memory msg) (hop : msg.op = .reply)
      (hX : place (P.lineOf msg.addr) = .reserved i r (.miss m)) (hst : m.stage = .awaitingMemory)
      (ht : m.controller.onRequest m.request.op m.request.src = some t)
      (h : Heeds P me place (P.lineOf msg.addr) t w place') : Stroke P me place (.packet p) w place'

theorem wanted_update {p : Place ManagerLine ManagerTransaction} (h : ∀ Y, Wanted (place Y))
    (hp : Wanted p) : ∀ Y, Wanted (update place X p Y) :=
  (Function.forall_update_iff place fun _ p => Wanted p).2 ⟨hp, fun Y _ => h Y⟩

theorem Vacates.wanted {V : Addr} {i : Nat} {e : LineEntry ManagerLine}
    (h : Vacates P me place V i e w place') (hw : ∀ Y, Wanted (place Y)) :
    ∀ Y, Wanted (place' Y) := by
  cases h with
  | wait hs => exact hw
  | @leave X r m way hI hne hX hst =>
    have hm : Wanted (.waiting i r (.miss m)) := hX ▸ hw X
    exact wanted_update (wanted_update hw trivial) hm

theorem Serves.wanted {q : CoherenceMessage} (h : Serves P me place q X w place')
    (hw : ∀ Y, Wanted (place Y)) : ∀ Y, Wanted (place' Y) := by
  cases h with
  | park | drop => exact hw
  | serve hp ht => exact wanted_update hw trivial
  | fetch hp hop => exact wanted_update hw hop
  | replace hp hop hV ht hv => exact hv.wanted (wanted_update (wanted_update hw hop) trivial)

theorem Heeds.wanted {t : ManagerTransition} (h : Heeds P me place X t w place')
    (hw : ∀ Y, Wanted (place Y)) : ∀ Y, Wanted (place' Y) := by
  cases h with
  | settle hp => exact wanted_update hw trivial
  | leave hp hv => exact hv.wanted (wanted_update hw trivial)
  | @advance i r m hp =>
    have hm : Wanted (.reserved i r (.miss m)) := hp ▸ hw X
    exact wanted_update hw hm
  | fill hp hs => exact wanted_update hw trivial

theorem Stroke.wanted {cause : Cause} (h : Stroke P me place cause w place')
    (hw : ∀ Y, Wanted (place Y)) : ∀ Y, Wanted (place' Y) := by
  cases h with
  | credit hp => exact hw
  | request hp hk h | retry h => exact h.wanted hw
  | reply hp hk hl ht h | supply hp hop hX hst ht h => exact h.wanted hw

/-! ## Turns -/

/-- The bank is wired as `P` says and its lines are in their places, and it fetches only lines
that are wanted. -/
structure Stands (P : Wiring) (c : SharedBank)
    (place : Addr → Place ManagerLine ManagerTransaction) : Prop
    extends Follows P c, Rests P none c place where
  wanted : ∀ X, Wanted (place X)

/-- The banks agree in their lines, in their backlogs and in what they count of both. -/
structure Akin (c d : SharedBank) : Prop where
  id : d.id = c.id
  tags : d.tags = c.tags
  memories : d.memories = c.memories
  table : d.table = c.table
  mshr : d.mshr = c.mshr
  backlog : d.backlog = c.backlog
  hits : d.counters.hits = c.counters.hits
  misses : d.counters.misses = c.counters.misses
  ignored : d.counters.staleIgnored = c.counters.staleIgnored
  dropped : d.counters.staleDropped = c.counters.staleDropped

theorem Akin.trans (h : Akin c d) (h' : Akin d e) : Akin c e :=
  ⟨h'.id.trans h.id, h'.tags.trans h.tags, h'.memories.trans h.memories, h'.table.trans h.table,
    h'.mshr.trans h.mshr, h'.backlog.trans h.backlog, h'.hits.trans h.hits,
    h'.misses.trans h.misses, h'.ignored.trans h.ignored, h'.dropped.trans h.dropped⟩

/-- They agree in what they have posted, too. -/
structure Alike (c d : SharedBank) : Prop extends Akin c d where
  delay : d.outlet.delay = c.outlet.delay

theorem Alike.refl (c : SharedBank) : Alike c c :=
  ⟨⟨rfl, rfl, rfl, rfl, rfl, rfl, rfl, rfl, rfl, rfl⟩, rfl⟩

theorem Alike.trans (h : Alike c d) (h' : Alike d e) : Alike c e :=
  ⟨h.toAkin.trans h'.toAkin, h'.delay.trans h.delay⟩

theorem Stands.akin (h : Stands P c place) (ha : Akin c d) : Stands P d place where
  toFollows := h.toFollows.congr ha.tags ha.memories (by rw [ha.table])
  toRests := h.toRests.congr ha.table ha.mshr ha.backlog
  wanted := h.wanted

/-- The turn is a stroke from one state of rest to the next. A request that is tried again is the
first that is due. -/
structure Turn.Plays (t : Turn) (P : Wiring) (place : Addr → Place ManagerLine ManagerTransaction)
    (w : Deed) (place' : Addr → Place ManagerLine ManagerTransaction) : Prop where
  before : Stands P t.before place
  stroke : Stroke P t.before.id place t.cause w place'
  after : Stands P t.after place'
  does : t.start.Does w t.after
  due : ∀ q, t.cause = .retry q →
    ∃ x rest, t.before.backlog.retries = x :: rest ∧ x.item = q

namespace Turn.Plays

variable {t : Turn} (h : t.Plays P place w place')

include h

theorem lineAddr (a : Addr) : t.before.table.lineAddr a = P.lineOf a := h.before.lineOf a

theorem lineAddr_after (a : Addr) : t.after.table.lineAddr a = P.lineOf a := h.after.lineOf a

/-- The turn posts what the stroke posts. -/
theorem posted_eq : t.posted = w.posts := by
  rw [posted, h.does.posts, t.start_outlet, List.drop_left]

theorem delay_eq : t.after.outlet.delay.toList = t.before.outlet.delay.toList ++ t.posted := by
  rw [h.posted_eq, h.does.posts, t.start_outlet]

end Turn.Plays

/-- The turn is a stroke of some kind. -/
def Turn.Sound (t : Turn) : Prop := ∃ P place w place', t.Plays P place w place'

theorem Turn.Sound.lineAddr {t : Turn} (h : t.Sound) (a : Addr) :
    t.after.table.lineAddr a = t.before.table.lineAddr a := by
  obtain ⟨P, place, w, place', h⟩ := h
  rw [h.lineAddr, h.lineAddr_after]

/-- The turns `ts` lead from `c` to `d`. -/
inductive Turns : SharedBank → List Turn → SharedBank → Prop
  | nil {c d : SharedBank} (h : Alike c d) : Turns c [] d
  | cons {c d : SharedBank} {t : Turn} {ts : List Turn} (h : Alike c t.before) (ht : t.Sound)
      (hrest : Turns t.after ts d) : Turns c (t :: ts) d

namespace Turns

variable {t : Turn} {ts ts' : List Turn}

theorem start (h : Turns d ts e) (ha : Alike c d) : Turns c ts e := by
  cases h with
  | nil h => exact .nil (ha.trans h)
  | cons h ht hrest => exact .cons (ha.trans h) ht hrest

theorem append (h : Turns c ts d) (h' : Turns d ts' e) : Turns c (ts ++ ts') e := by
  induction h with
  | nil h => exact h'.start h
  | cons h ht _ ih => exact .cons h ht (ih h')

/-- What is kept by a turn holds after any number of them. -/
theorem induction {Q : List Turn → SharedBank → Prop}
    (hakin : ∀ {past c d}, Q past c → Akin c d → Q past d)
    (hturn : ∀ {past t}, Q past t.before → t.Sound → Q (past ++ [t]) t.after)
    (h : Turns c ts d) (past : List Turn) (hc : Q past c) : Q (past ++ ts) d := by
  induction h generalizing past with
  | nil h =>
    rw [List.append_nil]
    exact hakin hc h.toAkin
  | cons h ht _ ih =>
    rw [List.append_cons]
    exact ih _ (hturn (hakin hc h.toAkin) ht)

theorem stands (h : Turns c ts d) (hc : ∃ P place, Stands P c place) :
    ∃ P place, Stands P d place := by
  have hall := h.induction (Q := fun _ c => ∃ P place, Stands P c place)
    (fun ⟨P, place, hc⟩ ha => ⟨P, place, hc.akin ha⟩)
    (fun _ ⟨P, _, _, place', ht⟩ => ⟨P, place', ht.after⟩) [] hc
  exact hall

theorem lineAddr (h : Turns c ts d) (a : Addr) : d.table.lineAddr a = c.table.lineAddr a := by
  have hall := h.induction (Q := fun _ d => d.table.lineAddr a = c.table.lineAddr a)
    (fun hq ha => by rw [ha.table, hq]) (fun hq ht => (ht.lineAddr a).trans hq) [] rfl
  exact hall

/-- What is posted stands behind what was there. -/
theorem posted (h : Turns c ts d) :
    d.outlet.delay.toList = c.outlet.delay.toList ++ ts.flatMap Turn.posted := by
  induction h with
  | nil h => rw [h.delay, List.flatMap_nil, List.append_nil]
  | cons h ht _ ih =>
    obtain ⟨P, place, w, place', ht⟩ := ht
    rw [ih, ht.delay_eq, h.delay, List.flatMap_cons, List.append_assoc]

end Turns

/-! ## What a bank does in one cycle -/

/-- A bank that handles a request of its own accord is in order again. -/
theorem Stands.leads (h : Stands P c place) (hd : Leads P c w place' d)
    (hw : ∀ X, Wanted (place' X)) : Stands P d place' :=
  { h.toFollows.kept hd.kept, hd.rests with wanted := hw }

/-- A woken request that meets no fault is served. -/
theorem sound_retry (h : Stands P c place) {x : Parked CoherenceMessage}
    {rest : List (Parked CoherenceMessage)} (hq : c.backlog.retries = x :: rest)
    (hp : (c.retrying rest).process x.item false = .ok d) :
    ({ cause := .retry x.item, before := c, after := d } : Turn).Sound := by
  have hf : Follows P (c.retrying rest) := h.toFollows.congr rfl rfl rfl
  rcases process_serves hf (rests_retrying h.toRests hq) false (.inr rfl) nofun with
    ⟨d', w, place', hd, hserves, hleads⟩ | ⟨f, hd, -⟩
  · rw [hp] at hd
    cases hd
    have hafter : Stands P d place' :=
      { hf.kept hleads.kept, hleads.rests with wanted := hserves.wanted h.wanted }
    refine ⟨P, place, w, place', h, .retry hserves, hafter, ?_, ?_⟩
    · rw [Turn.start, hq]
      exact hleads.does
    · rintro _ ⟨⟩
      exact ⟨x, rest, hq, rfl⟩
  · rw [hp] at hd
    cases hd

/-- Woken requests are tried again one after another. -/
theorem turns_drain (h : ∃ P place, Stands P c place) (hf : c.drain.fault = none) :
    Turns c c.drainTurns c.drain.node := by
  induction c using drain.induct with
  | case1 c hq =>
    rw [drain_nil hq, drainTurns_nil hq]
    exact .nil (.refl c)
  | case2 c x rest hq fault hp =>
    rw [drain_cons hq, hp] at hf
    cases hf
  | case3 c x rest hq d hp hdec ih =>
    have hdrain : c.drain = d.drain := by
      rw [drain_cons hq, hp]
      exact Work.andThen_done ..
    obtain ⟨P, place, h⟩ := h
    have ht := sound_retry h hq hp
    rw [hdrain] at hf ⊢
    rw [drainTurns_cons hq hp]
    refine .cons (.refl c) ht (ih ?_ hf)
    obtain ⟨P, _, _, place', hplays⟩ := ht
    exact ⟨P, place', hplays.after⟩

/-- What is left of a success once a credit has been returned. -/
theorem of_giveCredit {f : SharedBank → Except Fault SharedBank} {peer : NodeId}
    (hf : ((c.giveCredit peer).andThen fun c => .ofExcept c (f c)).fault = none) :
    ∃ d, f (c.giveCredit peer).node = .ok d ∧
      ((c.giveCredit peer).andThen fun c => .ofExcept c (f c)).node = d := by
  cases hd : f (c.giveCredit peer).node with
  | ok d => exact ⟨d, rfl, by rw [Work.andThen_node rfl, hd]; rfl⟩
  | error fault =>
    obtain ⟨-, hnext⟩ := Work.andThen_fault_eq_none.1 hf
    rw [hd] at hnext
    cases hnext

/-- Returning a credit changes nothing that matters to the lines. -/
theorem Stands.giveCredit (h : Stands P c place) (peer : NodeId) :
    Stands P (c.giveCredit peer).node place :=
  { h.toFollows.congr rfl rfl rfl, h.toRests.congr rfl rfl rfl with wanted := h.wanted }

/-- Returning a credit leaves no mark on what the turn does. -/
theorem Stands.sound {p : Packet} (h : Stands P c place)
    (hd : Leads P (c.giveCredit p.src).node w place' d)
    (hstroke : Stroke P c.id place (.packet p) w place') :
    ({ cause := .packet p, before := c, after := d } : Turn).Sound := by
  have hafter : Stands P d place' := (h.giveCredit p.src).leads hd (hstroke.wanted h.wanted)
  have hdoes := hd.does
  exact ⟨P, place, w, place', h, hstroke, hafter,
    ⟨hdoes.held, hdoes.posts, hdoes.hits, hdoes.misses, hdoes.ignored, hdoes.dropped⟩, nofun⟩

theorem sound_takeCredit {p : Packet} (h : Stands P c place) (hp : p.payload = .credit)
    (hf : c.takeCredit.fault = none) :
    ({ cause := .packet p, before := c, after := c.takeCredit.node } : Turn).Sound := by
  unfold takeCredit at hf ⊢
  dsimp only at hf ⊢
  split
  · next link sent harr =>
    exact ⟨P, place, {}, place, h, .credit hp, h.akin ⟨rfl, rfl, rfl, rfl, rfl, rfl, rfl, rfl, rfl,
      rfl⟩, ⟨(add_zero _).symm, (List.append_nil _).symm, rfl, rfl, rfl, rfl⟩, nofun⟩
  · next harr =>
    rw [harr] at hf
    cases hf

theorem sound_handle {p : Packet} {msg : CoherenceMessage} (h : Stands P c place)
    (hp : p.payload = .coherence msg) (hd : (c.giveCredit p.src).node.handle msg = .ok d) :
    ({ cause := .packet p, before := c, after := d } : Turn).Sound := by
  have h₁ := h.giveCredit p.src
  unfold handle at hd
  split at hd
  · next hk =>
    rcases process_serves h₁.toFollows h₁.toRests true (.inl rfl) (fun _ => rfl) with
      ⟨d', w, place', hd', hserves, hleads⟩ | ⟨f, hd', -⟩
    · obtain rfl := Except.ok.inj (hd.symm.trans hd')
      exact h.sound hleads (.request hp hk hserves)
    · cases hd.symm.trans hd'
  · next hk =>
    rcases handleReply_cases h₁.toFollows h₁.toFiled rfl with ⟨l, b, t, hl, ht⟩ | ⟨f, hd', -⟩
    · obtain ⟨d', w, place', hd', hheeds, hleads⟩ :=
        handleReply_leads h₁.toFollows h₁.toRests rfl hl ht
      obtain rfl := Except.ok.inj (hd.symm.trans hd')
      exact h.sound hleads (.reply hp hk hl ht hheeds)
    · cases hd.symm.trans hd'

theorem sound_handleMemory {p : Packet} {msg : MemoryMessage} (h : Stands P c place)
    (hp : p.payload = .memory msg) (hop : msg.op = .reply)
    (hd : (c.giveCredit p.src).node.handleMemory msg = .ok d) :
    ({ cause := .packet p, before := c, after := d } : Turn).Sound := by
  have h₁ := h.giveCredit p.src
  rcases handleMemory_cases h₁.toFollows h₁.toFiled rfl with ⟨l, b, q, t, hl, ht⟩ | ⟨f, hd', -⟩
  · obtain ⟨i, r, m, hX, hst, rfl, rfl, rfl⟩ := reserved_of_asked h₁.toFiled hl
    obtain ⟨d', w, place', hd', hheeds, hleads⟩ :=
      handleMemory_leads h₁.toFollows h₁.toRests rfl hX hst ht
    obtain rfl := Except.ok.inj (hd.symm.trans hd')
    exact h.sound hleads (.supply hp hop hX hst ht hheeds)
  · cases hd.symm.trans hd'

/-- A packet that meets no fault is taken up in one turn. -/
theorem sound_dispatch {p : Packet} (h : Stands P c place) (hf : (c.dispatch p).fault = none) :
    ({ cause := .packet p, before := c, after := (c.dispatch p).node } : Turn).Sound := by
  unfold dispatch at hf ⊢
  split at hf
  · next hp =>
    split at hf
    · next htag =>
      rw [if_pos htag]
      exact sound_takeCredit h hp hf
    · cases hf
  · next msg hp =>
    split at hf
    · next htag =>
      obtain ⟨d, hd, hnode⟩ := of_giveCredit (f := fun c => c.handle msg) hf
      rw [if_pos htag, hnode]
      exact sound_handle h hp hd
    · cases hf
  · next msg hp =>
    split at hf
    · next htag =>
      obtain ⟨d, hd, hnode⟩ := of_giveCredit (f := fun c => c.handleMemory msg) hf
      rw [if_pos htag, hnode]
      exact sound_handleMemory h hp htag.2 hd
    · cases hf

/-- A packet is taken up, and all that it causes is done in turns. -/
theorem turns_react {p : Packet} (h : ∃ P place, Stands P c place)
    (hf : (c.react p).fault = none) :
    Turns c ({ cause := .packet p, before := c, after := (c.dispatch p).node }
      :: (c.dispatch p).node.drainTurns) (c.react p).node := by
  obtain ⟨hdispatch, hdrain⟩ := Work.andThen_fault_eq_none.1 hf
  obtain ⟨P, place, h⟩ := h
  have ht := sound_dispatch h hdispatch
  rw [react, Work.andThen_node hdispatch]
  refine .cons (.refl c) ht (turns_drain ?_ hdrain)
  obtain ⟨P, _, _, place', hplays⟩ := ht
  exact ⟨P, place', hplays.after⟩

/-- What a bank does to its packets in one cycle, it does in turns. -/
theorem turns_handled (h : ∃ P place, Stands P c place) (hf : c.handled.fault = none) :
    Turns c.beginCycle c.turns c.handled.node := by
  have hall : ∀ (ps : List Packet) (d : SharedBank), (∃ P place, Stands P d place) →
      (Work.through (fun c queue => { c with inbound := queue }) react d ps).fault = none →
      Turns d (d.packetTurns ps)
        (Work.through (fun c queue => { c with inbound := queue }) react d ps).node := by
    intro ps
    induction ps with
    | nil => exact fun d _ _ => .nil (.refl d)
    | cons p rest ih =>
      intro d hd hf
      obtain ⟨hreact, hrest⟩ := Work.andThen_fault_eq_none.1 hf
      have hqueue : Alike d { d with inbound := rest } :=
        ⟨⟨rfl, rfl, rfl, rfl, rfl, rfl, rfl, rfl, rfl, rfl⟩, rfl⟩
      have hstart : ∃ P place, Stands P { d with inbound := rest } place := by
        obtain ⟨P, place, hd⟩ := hd
        exact ⟨P, place, hd.akin hqueue.toAkin⟩
      have hturns := turns_react hstart hreact
      rw [Work.through, Work.andThen_node hreact, packetTurns, ← List.cons_append]
      exact (hturns.start hqueue).append (ih _ (hturns.stands hstart) hrest)
  obtain ⟨P, place, h⟩ := h
  exact hall c.inbound c.beginCycle
    ⟨P, place, h.akin ⟨rfl, rfl, rfl, rfl, rfl, rfl, rfl, rfl, rfl, rfl⟩⟩ hf

end SharedBank

end CacheCoherence
