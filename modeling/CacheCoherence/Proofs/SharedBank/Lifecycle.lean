import CacheCoherence.Proofs.SharedBank.Turns

/-!
# Lifecycle — what happens to one line of a bank, again and again

A line that is not there is missed by a request. Memory is asked for it once it has a way and
supplies it, and once the client has acknowledged its copy the line is filed. In the end its entry
leaves the table, and its data goes back to memory if it is newer:

    absent ──missed──▶ awaitingVictim ──read──▶ awaitingMemory ──supplied──▶ awaitingClients
      ▲ ▲                                                                           │ filled
      │ └──────────────────────────────── left ──────────────────────── resident ◀──┘
      └─write── owed ◀─────────────────── left ────────────────────────────┘

Every turn of a bank takes every line along this circle.
-/

namespace CacheCoherence

open Function (update update_self update_of_ne)

/-! ## The circle -/

/-- What happens to a line. -/
inductive LineEvent where
  /-- The request `q` misses it. -/
  | missed (q : CoherenceMessage)
  /-- Memory supplies it. -/
  | supplied
  /-- It is filed, for which the request `q` was waiting. -/
  | filled (q : CoherenceMessage)
  /-- Its entry leaves the table. -/
  | left (dirty : Bool)
  /-- A message about it is posted to memory. -/
  | posted (op : MemoryOp)
deriving DecidableEq, Repr

/-- A request misses the line. -/
def LineEvent.isMiss : LineEvent → Bool
  | missed _ => true
  | _ => false

/-- How far a line has got. -/
inductive LineStage where
  | absent
  /-- It is being fetched for the request `q`. -/
  | fetched (stage : FillStage) (q : CoherenceMessage)
  | resident
  /-- It has left the table, and memory has yet to be told. -/
  | owed
deriving DecidableEq, Repr

namespace LineStage

/-- Where an event takes a line, if it may happen. -/
def after? : LineStage → LineEvent → Option LineStage
  | absent, .missed q => some (fetched .awaitingVictim q)
  | fetched .awaitingVictim q, .posted .read => some (fetched .awaitingMemory q)
  | fetched .awaitingMemory q, .supplied => some (fetched .awaitingClients q)
  | fetched .awaitingClients q, .filled q' => if q' = q then some resident else none
  | resident, .left dirty => some (if dirty then owed else absent)
  | owed, .posted .write => some absent
  | _, _ => none

/-- Where events take a line, one after another. -/
def run (s : LineStage) (es : List LineEvent) : Option LineStage := es.foldlM after? s

/-- The line is being fetched and has got as far as `stage`. -/
def awaits (stage : FillStage) : LineStage → Bool
  | fetched stage' _ => stage' = stage
  | _ => false

/-- The line is being fetched for the request `q`. -/
def serves (q : CoherenceMessage) : LineStage → Bool
  | fetched _ q' => q' = q
  | _ => false

variable {s s' : LineStage} {es : List LineEvent}

@[simp] theorem run_nil (s : LineStage) : s.run [] = some s := rfl

@[simp] theorem run_cons (s : LineStage) (e : LineEvent) (es : List LineEvent) :
    s.run (e :: es) = (s.after? e).bind (·.run es) := rfl

theorem run_append (s : LineStage) (es es' : List LineEvent) :
    s.run (es ++ es') = (s.run es).bind (·.run es') :=
  List.foldlM_append ..

theorem run_trans {es' : List LineEvent} (h : s.run es = some s') :
    s.run (es ++ es') = s'.run es' := by
  rw [run_append, h, Option.bind_some]

/-- The events that may happen. -/
inductive Advances : LineStage → LineEvent → LineStage → Prop
  | missed (q : CoherenceMessage) : Advances absent (.missed q) (fetched .awaitingVictim q)
  | asked (q : CoherenceMessage) :
      Advances (fetched .awaitingVictim q) (.posted .read) (fetched .awaitingMemory q)
  | supplied (q : CoherenceMessage) :
      Advances (fetched .awaitingMemory q) .supplied (fetched .awaitingClients q)
  | filled (q : CoherenceMessage) : Advances (fetched .awaitingClients q) (.filled q) resident
  | left (dirty : Bool) : Advances resident (.left dirty) (if dirty then owed else absent)
  | returned : Advances owed (.posted .write) absent

theorem advances_of_after? {e : LineEvent} (h : s.after? e = some s') : Advances s e s' := by
  unfold after? at h
  split at h
  case h_4 q q' =>
    split at h <;> cases h
    next hq => exact hq ▸ .filled q
  case h_7 => cases h
  all_goals
    cases h
    constructor

/-- What every event keeps in balance is in balance after any number of them: the stage makes up
for the difference between the events of one sort and of another. -/
theorem countP_run {f g : LineEvent → Bool} {a : LineStage → Bool}
    (hstep : ∀ s e s', Advances s e s' → (f e).toNat + (a s).toNat = (g e).toNat + (a s').toNat)
    (h : s.run es = some s') :
    es.countP f + (a s).toNat = es.countP g + (a s').toNat := by
  induction es generalizing s with
  | nil =>
    cases h
    rfl
  | cons e es ih =>
    obtain ⟨s₁, hs₁, hrun⟩ := Option.bind_eq_some_iff.1 h
    have hhead := hstep s e s₁ (advances_of_after? hs₁)
    have htail := ih hrun
    have hcons : ∀ f : LineEvent → Bool, (e :: es).countP f = es.countP f + (f e).toNat := by
      intro f
      rw [List.countP_cons]
      cases f e <;> rfl
    rw [hcons, hcons]
    omega

/-- Every line that is missed is asked for once it has a way. -/
theorem count_missed (h : s.run es = some s') :
    es.countP (·.isMiss) + (s.awaits .awaitingVictim).toNat
      = es.count (.posted .read) + (s'.awaits .awaitingVictim).toNat := by
  refine countP_run (fun s e s' hs => ?_) h
  cases hs with
  | left dirty => cases dirty <;> rfl
  | _ => rfl

/-- Memory supplies every line that it is asked for. -/
theorem count_read (h : s.run es = some s') :
    es.count (.posted .read) + (s.awaits .awaitingMemory).toNat
      = es.count .supplied + (s'.awaits .awaitingMemory).toNat := by
  refine countP_run (fun s e s' hs => ?_) h
  cases hs with
  | left dirty => cases dirty <;> rfl
  | _ => rfl

/-- A line that leaves with newer data is handed back. -/
theorem count_left (h : s.run es = some s') :
    es.count (.left true) + (s = owed : Bool).toNat
      = es.count (.posted .write) + (s' = owed : Bool).toNat := by
  refine countP_run (a := fun s => s = owed) (fun s e s' hs => ?_) h
  cases hs with
  | left dirty => cases dirty <;> rfl
  | _ => rfl

/-- A line is filed for every request that misses it. -/
theorem count_served (q : CoherenceMessage) (h : s.run es = some s') :
    es.count (.missed q) + (s.serves q).toNat
      = es.count (.filled q) + (s'.serves q).toNat := by
  refine countP_run (fun s e s' hs => ?_) h
  cases hs with
  | missed q' | filled q' => by_cases hq : q' = q <;> simp [serves, hq, beq_eq_decide]
  | left dirty => cases dirty <;> rfl
  | _ => rfl

end LineStage

/-! ## What is asked of memory -/

/-- What the packet asks of memory about the line `X`. -/
def Packet.memoryOp? (p : Packet) (X : Addr) : Option MemoryOp :=
  (p.memory?.filter fun msg => msg.addr = X).map (·.op)

theorem Wiring.memoryOp?_memoryPacket (P : Wiring) (me : NodeId) (op : MemoryOp) (L X : Addr) :
    (P.memoryPacket me op L).memoryOp? X = if X = L then some op else none := by
  by_cases hX : X = L
  · simp [Packet.memoryOp?, Wiring.memoryPacket, Packet.memory?, hX]
  · simp [Packet.memoryOp?, Wiring.memoryPacket, Packet.memory?, hX, Ne.symm hX]

namespace Deed

variable (P : Wiring) (me : NodeId) (L X : Addr)

/-- What the deed asks of memory about the line `X`. -/
def memoryOps (w : Deed) (X : Addr) : List MemoryOp := w.posts.filterMap (·.memoryOp? X)

@[simp] theorem memoryOps_append (w w' : Deed) :
    (w ++ w').memoryOps X = w.memoryOps X ++ w'.memoryOps X :=
  List.filterMap_append

/-- Clients are not told of memory. -/
@[simp] theorem memoryOps_acting (actions : List ManagerAction) :
    (acting P me L actions).memoryOps X = [] := by
  refine List.filterMap_eq_nil_iff.2 fun p hp => ?_
  obtain ⟨a, -, ha⟩ := List.mem_filterMap.1 hp
  cases a <;> cases ha
  rfl

@[simp] theorem memoryOps_asking :
    (asking P me L).memoryOps X = if X = L then [.read] else [] := by
  by_cases hX : X = L <;> simp [memoryOps, asking, P.memoryOp?_memoryPacket, hX]

@[simp] theorem memoryOps_returning (dirty : Bool) :
    (returning P me L dirty).memoryOps X = if X = L ∧ dirty then [.write] else [] := by
  by_cases hX : X = L <;> cases dirty <;>
    simp [memoryOps, returning, P.memoryOp?_memoryPacket, hX]

end Deed

/-! ## What is seen of a line -/

namespace ManagerTransaction

/-- The miss that the transaction is about, if its line is being fetched. -/
def miss? : ManagerTransaction → Option ManagerMiss
  | miss m => some m
  | resident _ => none

@[simp] theorem miss?_miss (m : ManagerMiss) : (miss m).miss? = some m := rfl

@[simp] theorem miss?_resident (way : Handle) : (resident way).miss? = none := rfl

end ManagerTransaction

namespace SharedBank

/-- The miss on the line `X`, if the line is being fetched. -/
def fetching? (c : SharedBank) (X : Addr) : Option ManagerMiss :=
  (c.mshr.outstanding? X).bind fun x => x.2.miss?

/-- How far a bank has got with the line `X`. -/
def stage (c : SharedBank) (X : Addr) : LineStage :=
  match c.fetching? X with
  | some m => .fetched m.stage m.request
  | none => if (c.entry? X).isSome then .resident else .absent

namespace Turn

/-- The line and the request of a miss that the turn counts. -/
def missed? (t : Turn) : Option (Addr × CoherenceMessage) :=
  if t.before.counters.misses < t.after.counters.misses then
    t.request?.map fun q => (t.before.table.lineAddr q.addr, q)
  else none

/-- The request that misses the line `X` in the turn. -/
def missedAt? (t : Turn) (X : Addr) : Option CoherenceMessage :=
  (t.missed?.filter fun x => x.1 = X).map (·.2)

/-- Memory supplies the line `X` in the turn. -/
def supplies (t : Turn) (X : Addr) : Bool :=
  t.supply?.any fun msg => t.before.table.lineAddr msg.addr = X

/-- The request for which the line `X` is filed in the turn. -/
def filledAt? (t : Turn) (X : Addr) : Option CoherenceMessage :=
  if (t.after.entry? X).isSome then (t.before.fetching? X).map (·.request) else none

/-- What makes the line `X` leave if it does so in the turn: a client replies, or the line is
replaced. -/
def departure (t : Turn) (X : Addr) : ManagerEvent :=
  match t.reply?.filter fun msg => t.before.table.lineAddr msg.addr = X with
  | some msg => .reply msg.op msg.src
  | none => .evict

/-- The entry of the line `X` as it leaves the table in the turn. -/
def leaving? (t : Turn) (X : Addr) : Option (LineEntry ManagerLine) :=
  match t.before.entry? X, t.after.entry? X with
  | some e, none => (e.controller.transition (t.departure X)).toOption.map (committed e)
  | _, _ => none

/-- What the turn asks of memory about the line `X`, in order. -/
def memoryOps (t : Turn) (X : Addr) : List MemoryOp := t.posted.filterMap (·.memoryOp? X)

/-- What happens to the line `X` in the turn, in order. -/
def events (t : Turn) (X : Addr) : List LineEvent :=
  ((t.missedAt? X).map .missed).toList ++ (if t.supplies X then [.supplied] else [])
    ++ ((t.filledAt? X).map .filled).toList ++ ((t.leaving? X).map fun e => .left e.dirty).toList
    ++ (t.memoryOps X).map .posted

/-- How many of the events are of one sort. -/
theorem countP_events (t : Turn) (X : Addr) (f : LineEvent → Bool) :
    (t.events X).countP f = ((t.missedAt? X).any fun q => f (.missed q)).toNat
      + (t.supplies X && f .supplied).toNat
      + ((t.filledAt? X).any fun q => f (.filled q)).toNat
      + ((t.leaving? X).any fun e => f (.left e.dirty)).toNat
      + (t.memoryOps X).countP fun op => f (.posted op) := by
  have hone : ∀ e : LineEvent, [e].countP f = (f e).toNat := by
    intro e
    rw [List.countP_singleton]
    cases f e <;> rfl
  have hmaybe : ∀ {α : Type} (x : Option α) (g : α → LineEvent),
      (x.map g).toList.countP f = (x.any fun a => f (g a)).toNat := by
    intro α x g
    cases x with
    | none => rfl
    | some a => exact hone (g a)
  have hsupplied : (if t.supplies X then [LineEvent.supplied] else []).countP f
      = (t.supplies X && f .supplied).toNat := by
    cases t.supplies X with
    | false => rfl
    | true => exact hone .supplied
  simp only [events, List.countP_append, hmaybe, hsupplied, List.countP_map]
  rfl

end Turn

variable {P : Wiring} {c d : SharedBank} {w w' : Deed} {X L V : Addr} {me : NodeId}
  {place place' : Addr → Place ManagerLine ManagerTransaction} {i : Nat}
  {e : LineEntry ManagerLine} {tr : ManagerTransition} {q : CoherenceMessage} {t : Turn}

/-! ## Stages, as the places tell them -/

/-- The miss on a line in its place. -/
def missAt : Place ManagerLine ManagerTransaction → Option ManagerMiss
  | .reserved _ _ (.miss m) | .waiting _ _ (.miss m) => some m
  | _ => none

/-- The stage of a line in its place. -/
def stageAt (p : Place ManagerLine ManagerTransaction) : LineStage :=
  match missAt p with
  | some m => .fetched m.stage m.request
  | none => if p.resident?.isSome then .resident else .absent

/-- A resident line is not being fetched. -/
theorem missAt_of_resident {p : Place ManagerLine ManagerTransaction}
    (h : p.resident?.isSome = true) : missAt p = none := by
  cases p with
  | filed => rfl
  | _ => cases h

theorem Filed.fetching?_eq (h : Filed c place) (X : Addr) : c.fetching? X = missAt (place X) := by
  rw [fetching?, h.outstanding?_eq]
  cases hp : place X with
  | absent => rfl
  | filed i e tx =>
    cases tx with
    | none => rfl
    | some rv =>
      obtain ⟨r, v⟩ := rv
      obtain rfl := resident_of_filed h hp
      rfl
  | reserved i r v =>
    obtain ⟨m, rfl, -⟩ := miss_of_reserved h hp
    rfl
  | waiting i r v =>
    obtain ⟨m, rfl, -⟩ := miss_of_waiting h hp
    rfl

/-- The entry of a resident line. -/
theorem Filed.entry?_eq (h : Filed c place) (hX : c.table.lineAddr X = X) :
    c.entry? X = (place X).resident?.map (·.2) := by
  rw [SharedBank.entry?, h.resident?_eq, hX]
  cases (place X).resident? <;> rfl

theorem Filed.stage_eq (h : Filed c place) (hX : c.table.lineAddr X = X) :
    c.stage X = stageAt (place X) := by
  rw [stage, stageAt, h.fetching?_eq, h.entry?_eq hX, Option.isSome_map]

/-! ## What a stroke does to one line -/

/-- The line goes on from `p` to `p'` while `es` happens to it: if it is resident or being fetched
it stays so. -/
structure Moves (p p' : Place ManagerLine ManagerTransaction) (es : List LineEvent) : Prop where
  run : (stageAt p).run es = some (stageAt p')
  stays : p.resident?.isSome = true → p'.resident?.isSome = true
  keeps : (missAt p).isSome = true → (missAt p').isSome = true

/-- The line is filed. -/
inductive Fills : Place ManagerLine ManagerTransaction → Place ManagerLine ManagerTransaction → Prop
  | fill (i r : Nat) (m : ManagerMiss) (e : LineEntry ManagerLine) :
      Fills (.reserved i r (.miss m)) (.filed i e none)

/-- The line leaves the table, for which its entry takes a transition on `event`. -/
inductive Departs (event : ManagerEvent) (ops : List MemoryOp) :
    Place ManagerLine ManagerTransaction → Place ManagerLine ManagerTransaction → Prop
  | depart {i : Nat} {e : LineEntry ManagerLine} {tx : Option (Nat × ManagerTransaction)}
      {t : ManagerTransition} (ht : e.controller.transition event = .ok t) (hI : t.next.state = .I)
      (hops : ops = if (committed e t).dirty then [.write] else []) :
      Departs event ops (.filed i e tx) .absent

theorem Moves.refl (p : Place ManagerLine ManagerTransaction) : Moves p p [] :=
  ⟨rfl, fun hp => hp, fun hp => hp⟩

theorem Moves.trans {p p' p'' : Place ManagerLine ManagerTransaction} {es es' : List LineEvent}
    (h : Moves p p' es) (h' : Moves p' p'' es') : Moves p p'' (es ++ es') :=
  ⟨(LineStage.run_trans h.run).trans h'.run, fun hp => h'.stays (h.stays hp),
    fun hp => h'.keeps (h.keeps hp)⟩

/-- Where only the line `L` goes on, every line does. -/
theorem moves_update {p : Place ManagerLine ManagerTransaction} {es : List LineEvent}
    (h : Moves (place L) p es) (X : Addr) :
    Moves (place X) (update place L p X) (if X = L then es else []) := by
  by_cases hX : X = L
  · subst hX
    rwa [update_self, if_pos rfl]
  · rw [update_of_ne hX, if_neg hX]
    exact .refl _

/-- Where the line `V` gives up its way it departs, and every other line goes on. -/
theorem Vacates.moves (h : Vacates P me place V i e w place') (hV : place V = .filed i e none)
    (X : Addr) :
    X = V ∧ place' X = .absent ∧ e.controller.state = .I ∧
        w.memoryOps X = (if e.dirty then [.write] else []) ∨
      Moves (place X) (place' X) ((w.memoryOps X).map .posted) := by
  cases h with
  | wait hs => exact .inr (.refl _)
  | @leave L r m way hI hne hL hst =>
    rw [Deed.memoryOps_append, Deed.memoryOps_returning, Deed.memoryOps_asking]
    by_cases hXL : X = L
    · subst hXL
      rw [update_self, hL, if_neg (fun h => hne h.1), if_pos rfl]
      exact .inr ⟨by simp [stageAt, missAt, hst, LineStage.after?], nofun, fun _ => rfl⟩
    · rw [update_of_ne hXL, if_neg hXL, List.append_nil]
      by_cases hXV : X = V
      · subst hXV
        exact .inl ⟨rfl, update_self .., hI, by simp⟩
      · rw [update_of_ne hXV, if_neg (fun h => hXV h.1)]
        exact .inr (.refl _)

/-- A request that is served may miss its line, and may make another one depart. -/
theorem Serves.moves (h : Serves P me place q L w place') (X : Addr) :
    (X ≠ L ∨ w.misses = 0) ∧ Departs .evict (w.memoryOps X) (place X) (place' X) ∨
      Moves (place X) (place' X)
        ((if 0 < w.misses ∧ X = L then [.missed q] else []) ++ (w.memoryOps X).map .posted) := by
  cases h with
  | park => exact .inr (.refl _)
  | drop hp hop => exact .inr (.refl _)
  | @serve i e t tx hp ht =>
    have hL : Moves (place L) (.filed i (committed e t) tx) [] := by
      rw [hp]
      exact ⟨rfl, fun _ => rfl, nofun⟩
    have hall := moves_update hL X
    rw [ite_self] at hall
    rw [Deed.memoryOps_append, Deed.memoryOps_acting, if_neg fun h => Nat.lt_irrefl 0 h.1]
    exact .inr hall
  | @fetch i r way hp hop =>
    have hL : Moves (place L) (.reserved i r (.miss (opened q way .awaitingMemory)))
        [.missed q, .posted .read] := by
      rw [hp]
      exact ⟨rfl, nofun, nofun⟩
    have hmisses : 0 < ({ misses := 1 } ++ Deed.asking P me L).misses := Nat.one_pos
    have hall := moves_update hL X
    rw [Deed.memoryOps_append, Deed.memoryOps_asking]
    right
    by_cases hX : X = L
    · rw [if_pos hX] at hall
      rwa [if_pos ⟨hmisses, hX⟩, if_pos hX]
    · rw [if_neg hX] at hall
      rwa [if_neg fun h => hX h.2, if_neg hX]
  | @replace i r V e t w₁ way _ hp hop hV ht hv =>
    have hne : V ≠ L := by
      rintro rfl
      rw [hp] at hV
      cases hV
    have hops : ∀ X, ({ misses := 1 } ++ Deed.acting P me V t.actions ++ w₁).memoryOps X
        = w₁.memoryOps X := by
      intro X
      rw [Deed.memoryOps_append, Deed.memoryOps_append, Deed.memoryOps_acting]
      rfl
    have hmisses : 0 < ({ misses := 1 } ++ Deed.acting P me V t.actions ++ w₁).misses := by
      simp only [Deed.misses_append]
      omega
    rw [hops]
    rcases hv.moves (update_self ..) X with ⟨rfl, hgone, hI, hback⟩ | hmoves
    · rw [hV, hgone]
      exact .inl ⟨.inl hne, .depart (ManagerLine.transition_evict.2 ht) hI hback⟩
    · right
      have hfirst : Moves (place X) (update (update place L (.waiting i r (.miss
          (opened q way .awaitingVictim)))) V (.filed i (evicting e t) none) X)
          (if X = L then [.missed q] else []) := by
        have hL : Moves (place L) (.waiting i r (.miss (opened q way .awaitingVictim)))
            [.missed q] := by
          rw [hp]
          exact ⟨rfl, nofun, nofun⟩
        have hleaves : Moves (update place L (.waiting i r (.miss (opened q way .awaitingVictim))) V)
            (.filed i (evicting e t) none) [] := by
          rw [update_of_ne hne, hV]
          exact ⟨rfl, fun _ => rfl, nofun⟩
        simpa using (moves_update hL X).trans (moves_update hleaves X)
      have hall := hfirst.trans hmoves
      simpa only [hmisses, true_and] using hall

/-- The line of a reply may be supplied, filed or depart; no other line is affected, unless it has
waited for the way. -/
theorem Heeds.moves (h : Heeds P me place L tr w place')
    (hreserved : ∀ i r m, place L = .reserved i r (.miss m) → m.stage ≠ .awaitingVictim)
    (X : Addr) :
    X = L ∧ (∀ event, (∀ e tx i, place L = .filed i e tx → e.controller.transition event = .ok tr) →
        Departs event (w.memoryOps X) (place X) (place' X)) ∨
      X = L ∧ Fills (place X) (place' X) ∧ w.memoryOps X = [] ∨
      Moves (place X) (place' X)
        ((if X = L ∧ (stageAt (place L)).awaits .awaitingMemory then [.supplied] else [])
          ++ (w.memoryOps X).map .posted) := by
  cases h with
  | @settle i e tx tx' hp =>
    have hL : Moves (place L) (.filed i (committed e tr) tx') [] := by
      rw [hp]
      exact ⟨rfl, fun _ => rfl, nofun⟩
    have hall := moves_update hL X
    rw [ite_self] at hall
    rw [Deed.memoryOps_acting, if_neg (by rw [hp]; nofun)]
    exact .inr (.inr hall)
  | @leave i e w₁ _ hp hv =>
    rw [Deed.memoryOps_append, Deed.memoryOps_acting, List.nil_append, if_neg (by rw [hp]; nofun)]
    rcases hv.moves (update_self ..) X with ⟨rfl, hgone, hI, hback⟩ | hmoves
    · refine .inl ⟨rfl, fun event ht => ?_⟩
      rw [hp, hgone]
      exact .depart (ht e none i hp) hI hback
    · right; right
      by_cases hX : X = L
      · subst hX
        rw [update_self] at hmoves
        rw [hp]
        exact ⟨hmoves.run, fun _ => hmoves.stays rfl, nofun⟩
      · rwa [update_of_ne hX] at hmoves
  | @advance i r m hp =>
    have hL : Moves (place L) (.reserved i r (.miss { m with
        controller := tr.next, dirty := m.dirty || tr.returnsData, stage := .awaitingClients }))
        (if (stageAt (place L)).awaits .awaitingMemory then [.supplied] else []) := by
      have hst := hreserved i r m hp
      rw [hp]
      refine ⟨?_, nofun, fun _ => rfl⟩
      cases hm : m.stage with
      | awaitingVictim => exact absurd hm hst
      | awaitingMemory | awaitingClients =>
        simp [stageAt, missAt, hm, LineStage.awaits, LineStage.after?]
    rw [Deed.memoryOps_acting, ite_and, List.map_nil, List.append_nil]
    exact .inr (.inr (moves_update hL X))
  | @fill i r m hp hs =>
    rw [Deed.memoryOps_acting]
    by_cases hX : X = L
    · subst hX
      rw [update_self, hp]
      exact .inr (.inl ⟨rfl, .fill .., rfl⟩)
    · rw [update_of_ne hX, if_neg (fun h => hX h.1)]
      exact .inr (.inr (.refl _))

/-! ## What a turn does to one line -/

namespace Turn.Plays

variable (h : t.Plays P place w place')

include h

theorem memoryOps_eq (X : Addr) : t.memoryOps X = w.memoryOps X := by
  rw [memoryOps, h.posted_eq, Deed.memoryOps]

theorem missed_iff : t.before.counters.misses < t.after.counters.misses ↔ 0 < w.misses := by
  have hmisses := h.does.misses
  rw [t.start_counters] at hmisses
  omega

/-- A request misses its own line only. -/
theorem missedAt?_eq (X : Addr) : t.missedAt? X
    = t.request?.filter fun q => decide (0 < w.misses) && decide (X = P.lineOf q.addr) := by
  rw [missedAt?, missed?]
  simp only [h.missed_iff, h.lineAddr]
  cases t.request? with
  | none => split <;> rfl
  | some q =>
    by_cases hm : 0 < w.misses <;> simp [hm, Option.filter, eq_comm (a := X)]

theorem entry?_before (hX : P.lineOf X = X) :
    t.before.entry? X = (place X).resident?.map (·.2) :=
  h.before.toFiled.entry?_eq (by rw [h.lineAddr, hX])

theorem entry?_after (hX : P.lineOf X = X) :
    t.after.entry? X = (place' X).resident?.map (·.2) :=
  h.after.toFiled.entry?_eq (by rw [h.lineAddr_after, hX])

theorem filledAt?_eq (hX : P.lineOf X = X) : t.filledAt? X
    = if (place' X).resident?.isSome then (missAt (place X)).map (·.request) else none := by
  rw [filledAt?, h.entry?_after hX, Option.isSome_map, h.before.toFiled.fetching?_eq]

/-- A line that goes on is not filed and does not leave. -/
theorem goes_on (hX : P.lineOf X = X) {es : List LineEvent}
    (hm : Moves (place X) (place' X) es) : t.filledAt? X = none ∧
      ((t.before.entry? X).isSome = true → (t.after.entry? X).isSome = true) := by
  constructor
  · rw [h.filledAt?_eq hX]
    split
    · next hres =>
      rw [Option.map_eq_none_iff, ← Option.not_isSome_iff_eq_none]
      intro hmiss
      have hmiss' := hm.keeps hmiss
      rw [missAt_of_resident hres] at hmiss'
      cases hmiss'
    · rfl
  · rw [h.entry?_before hX, h.entry?_after hX, Option.isSome_map, Option.isSome_map]
    exact hm.stays

/-- A line that is filed was being fetched. -/
theorem files (hX : P.lineOf X = X) (hf : Fills (place X) (place' X)) :
    t.filledAt? X = (missAt (place X)).map (·.request) ∧ t.before.entry? X = none := by
  rw [h.filledAt?_eq hX, h.entry?_before hX]
  generalize place X = p at hf ⊢
  generalize place' X = p' at hf ⊢
  cases hf
  exact ⟨rfl, rfl⟩

/-- A line that departs is held by nobody, and its data goes back to memory if it is newer. -/
theorem leaves (hX : P.lineOf X = X)
    (hd : Departs (t.departure X) (w.memoryOps X) (place X) (place' X)) :
    t.filledAt? X = none ∧ ∃ e, t.leaving? X = some e ∧ e.controller.state = .I ∧
      w.memoryOps X = if e.dirty then [.write] else [] := by
  rw [h.filledAt?_eq hX, leaving?, h.entry?_before hX, h.entry?_after hX]
  generalize w.memoryOps X = ops at hd ⊢
  generalize t.departure X = event at hd ⊢
  generalize place X = p at hd ⊢
  generalize place' X = p' at hd ⊢
  cases hd with
  | @depart i e tx tr ht hI hops =>
    refine ⟨rfl, committed e tr, ?_, hI, hops⟩
    simp [Place.resident?, ht, Except.toOption]

end Turn.Plays

/-- What a turn does to the line `X`: it takes the line along the circle, and if the line leaves,
nobody holds it, and its data goes back to memory if it is newer. -/
structure Turn.Tends (t : Turn) (X : Addr) : Prop where
  run : (t.before.stage X).run (t.events X) = some (t.after.stage X)
  leaves : (t.before.entry? X).isSome = true → t.after.entry? X = none →
    ∃ e, t.leaving? X = some e ∧ e.controller.state = .I ∧
      t.memoryOps X = if e.dirty then [.write] else []

namespace Turn.Plays

variable (h : t.Plays P place w place') (hX : P.lineOf X = X)

include h hX

theorem stage_before : t.before.stage X = stageAt (place X) :=
  h.before.stage_eq (by rw [h.lineAddr, hX])

theorem stage_after : t.after.stage X = stageAt (place' X) :=
  h.after.stage_eq (by rw [h.lineAddr_after, hX])

theorem tends_of_moves (es : List LineEvent) (hfront : ((t.missedAt? X).map .missed).toList
      ++ (if t.supplies X then [.supplied] else []) = es)
    (hm : Moves (place X) (place' X) (es ++ (w.memoryOps X).map .posted)) : t.Tends X := by
  obtain ⟨hfilled, hstays⟩ := h.goes_on hX hm
  have hleaving : t.leaving? X = none := by
    rw [leaving?]
    split
    · next hbefore hafter =>
      have hnone := hstays (by rw [hbefore]; rfl)
      rw [hafter] at hnone
      cases hnone
    · rfl
  constructor
  · rw [events, hfront, hfilled, hleaving, h.memoryOps_eq, h.stage_before hX, h.stage_after hX]
    simpa using hm.run
  · intro hbefore hafter
    have hnone := hstays hbefore
    rw [hafter] at hnone
    cases hnone

theorem tends_of_departs (hmissed : t.missedAt? X = none) (hsupplies : t.supplies X = false)
    (hd : Departs (t.departure X) (w.memoryOps X) (place X) (place' X)) : t.Tends X := by
  obtain ⟨hfilled, e, hleaving, hI, hops⟩ := h.leaves hX hd
  constructor
  · rw [events, hmissed, hsupplies, hfilled, hleaving, h.memoryOps_eq, hops, h.stage_before hX,
      h.stage_after hX]
    generalize place X = p at hd ⊢
    generalize place' X = p' at hd ⊢
    cases hd
    cases hdirty : e.dirty <;> simp [LineStage.after?, stageAt, missAt, Place.resident?, hdirty]
  · rw [h.memoryOps_eq]
    exact fun _ _ => ⟨e, hleaving, hI, hops⟩

theorem tends_of_fills (hmissed : t.missedAt? X = none)
    (hsupplies : t.supplies X = (stageAt (place X)).awaits .awaitingMemory)
    (hst : ∀ i r m, place X = .reserved i r (.miss m) → m.stage ≠ .awaitingVictim)
    (hops : w.memoryOps X = []) (hf : Fills (place X) (place' X)) : t.Tends X := by
  obtain ⟨hfilled, hnone⟩ := h.files hX hf
  have hleaving : t.leaving? X = none := by rw [leaving?, hnone]
  constructor
  · rw [events, hmissed, hsupplies, hfilled, hleaving, h.memoryOps_eq, hops, h.stage_before hX,
      h.stage_after hX]
    generalize place X = p at hf hst ⊢
    generalize place' X = p' at hf ⊢
    cases hf with
    | fill i r m e =>
      have hm := hst i r m rfl
      cases hs : m.stage with
      | awaitingVictim => exact absurd hs hm
      | awaitingMemory | awaitingClients =>
        simp [LineStage.after?, LineStage.awaits, stageAt, missAt, Place.resident?, hs]
  · intro hbefore
    rw [hnone] at hbefore
    cases hbefore

end Turn.Plays

/-- A line that a client replies about is not waited for from memory. -/
theorem awaits_of_records {l : ManagerLine} {b : Bool}
    (hl : records place L = some { controller := l, dirty := b }) :
    (stageAt (place L)).awaits .awaitingMemory = false := by
  cases hp : place L with
  | reserved i r v | waiting i r v =>
    cases v with
    | resident way => rfl
    | miss m =>
      simp only [records, hp, recordAt, Option.some.injEq, BankLine.mk.injEq] at hl
      simpa [stageAt, missAt, LineStage.awaits] using hl.2.2.2
  | absent => rfl
  | filed i e tx => rfl

/-- The request, if there is one, is all that the turn is about. -/
theorem Turn.Plays.tends_of_serves (h : t.Plays P place w place') (hX : P.lineOf X = X)
    (hq : t.request? = some q) (hreply : t.reply? = none) (hsupply : t.supply? = none)
    (hserves : Serves P t.before.id place q (P.lineOf q.addr) w place') : t.Tends X := by
  have hmissed := h.missedAt?_eq X
  have hsupplies : t.supplies X = false := by
    rw [Turn.supplies, hsupply]
    rfl
  rw [hq] at hmissed
  rcases hserves.moves X with ⟨hne, hd⟩ | hm
  · have hdeparture : t.departure X = .evict := by
      rw [Turn.departure, hreply]
      rfl
    refine h.tends_of_departs hX ?_ hsupplies (hdeparture ▸ hd)
    rcases hne with hne | hzero
    · simpa [Option.filter, hne] using hmissed
    · simpa [Option.filter, hzero] using hmissed
  · refine h.tends_of_moves hX _ ?_ hm
    rw [hmissed, hsupplies]
    by_cases hw : 0 < w.misses <;> by_cases hL : X = P.lineOf q.addr <;>
      simp [Option.filter, hw, hL]

/-- Nor does a reply make a request miss its line. -/
theorem Turn.Plays.tends_of_heeds (h : t.Plays P place w place') (hX : P.lineOf X = X)
    (hrequest : t.request? = none)
    (hheeds : Heeds P t.before.id place L tr w place')
    (hsupplies : t.supplies X = (decide (X = L) && (stageAt (place L)).awaits .awaitingMemory))
    (hdeparture : ∀ e tx i, place L = .filed i e tx →
      e.controller.transition (t.departure L) = .ok tr) : t.Tends X := by
  have hmissed : t.missedAt? X = none := by
    rw [h.missedAt?_eq, hrequest]
    rfl
  have hreserved : ∀ i r m, place L = .reserved i r (.miss m) → m.stage ≠ .awaitingVictim := by
    intro i r m hp
    obtain ⟨_, ⟨⟩, hst, -⟩ := miss_of_reserved h.before.toFiled hp
    exact hst
  rcases hheeds.moves hreserved X with ⟨rfl, hd⟩ | ⟨rfl, hf, hops⟩ | hm
  · have hd := hd (t.departure X) hdeparture
    refine h.tends_of_departs hX hmissed ?_ hd
    rw [hsupplies]
    generalize place X = p at hd ⊢
    generalize place' X = p' at hd
    cases hd
    simp [stageAt, missAt, LineStage.awaits, Place.resident?]
  · exact h.tends_of_fills hX hmissed (by simpa using hsupplies) hreserved hops hf
  · refine h.tends_of_moves hX _ ?_ hm
    rw [hmissed, hsupplies]
    simp

/-- Every turn of a bank tends every line. -/
theorem Turn.Sound.tends (h : t.Sound) (hX : t.before.table.lineAddr X = X) : t.Tends X := by
  obtain ⟨P, place, w, place', h⟩ := h
  rw [h.lineAddr] at hX
  have hstroke := h.stroke
  generalize hcause : t.cause = cause at hstroke
  cases hstroke with
  | @credit p hp =>
    obtain ⟨hrequest, -, hsupply⟩ := Packet.brings_credit hp
    refine h.tends_of_moves hX [] ?_ (.refl _)
    simp [h.missedAt?_eq, Turn.supplies, t.request?_of_packet hcause, hrequest,
      t.supply?_of_packet hcause, hsupply]
  | @request p q w' place'' hp hk hserves =>
    obtain ⟨hrequest, hreply, hsupply⟩ := Packet.brings_request hp hk
    exact h.tends_of_serves hX ((t.request?_of_packet hcause).trans hrequest)
      ((t.reply?_of_packet hcause).trans hreply) ((t.supply?_of_packet hcause).trans hsupply) hserves
  | @retry q w' place'' hserves =>
    exact h.tends_of_serves hX (by rw [Turn.request?, hcause]) (by rw [Turn.reply?, hcause])
      (by rw [Turn.supply?, hcause]) hserves
  | @reply p msg w' place'' l b tr hp hk hl ht hheeds =>
    obtain ⟨hrequest, hreply, hsupply⟩ := Packet.brings_reply hp hk
    refine h.tends_of_heeds hX ((t.request?_of_packet hcause).trans hrequest) hheeds ?_ ?_
    · rw [awaits_of_records hl, Turn.supplies, t.supply?_of_packet hcause, hsupply, Bool.and_false]
      rfl
    · intro e tx i hp'
      rw [records, hp'] at hl
      cases hl
      rw [Turn.departure, t.reply?_of_packet hcause, hreply]
      simpa [Option.filter, h.lineAddr, P.lineOf_lineOf] using ManagerLine.transition_reply.2 ht
  | @supply p msg w' place'' i r m tr hp hop hL hst ht hheeds =>
    obtain ⟨hrequest, -, hsupply⟩ := Packet.brings_supply hp hop
    refine h.tends_of_heeds hX ((t.request?_of_packet hcause).trans hrequest) hheeds ?_ ?_
    · rw [Turn.supplies, t.supply?_of_packet hcause, hsupply, hL]
      simp [stageAt, missAt, LineStage.awaits, hst, h.lineAddr, eq_comm]
    · intro e tx i hp'
      rw [hL] at hp'
      cases hp'

end SharedBank

end CacheCoherence
