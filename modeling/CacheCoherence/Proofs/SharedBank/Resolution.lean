import CacheCoherence.Proofs.SharedBank.Turns

/-!
# Resolution — what becomes of the requests of the clients

A request for a copy is a hit or a miss, and a notice of an eviction is confirmed, ignored or
dropped, unless the request is held back. Nothing else that a bank does is counted so. Hence
whatever was taken up for the first time is resolved once, however often it was held back.
-/

namespace CacheCoherence

/-- The packet confirms that a client has given up its copy. -/
def Packet.grantsI (p : Packet) : Bool := p.coherence?.any fun msg => msg.op = .grantI

/-- The action resolves a notice of an eviction. -/
def ManagerAction.resolves : ManagerAction → Bool
  | .send .grantI _ _ | .ignore => true
  | _ => false

namespace ManagerLine

variable {l : ManagerLine} {op : Opcode} {src : NodeId} {t : ManagerTransition}

theorem resolves_demands (ids : List NodeId) : (demands ids).countP (·.resolves) = 0 := by
  refine List.countP_eq_zero.2 fun a ha => ?_
  obtain ⟨id, -, rfl⟩ := List.mem_map.1 ha
  exact Bool.false_ne_true

/-- A notice is resolved by one action, and a request for a copy by none. -/
theorem resolves_of_onRequest (h : l.onRequest op src = some t) :
    t.actions.countP (·.resolves) = op.isEviction.toNat := by
  unfold onRequest at h
  split at h
  -- an owned line: somebody else has it, or its owner gives it up
  case h_5 | h_6 =>
    obtain ⟨owner, -, rfl⟩ := Option.map_eq_some_iff.1 h
    rfl
  case h_7 | h_8 => split at h <;> cases h <;> rfl
  -- a shared line that is asked for alone: nobody else has it, or all others are told
  case h_12 =>
    dsimp only at h
    split at h <;> cases h
    · rfl
    · exact resolves_demands _
  all_goals
    cases h
    try rfl

theorem resolves_of_onReply (h : l.onReply op src = some t) :
    t.actions.countP (·.resolves) = 0 := by
  unfold onReply at h
  split at h
  case h_3 | h_4 | h_5 | h_12 =>
    obtain ⟨l', -, rfl⟩ := Option.map_eq_some_iff.1 h
    rfl
  case h_8 =>
    obtain ⟨l', -, h⟩ := Option.bind_eq_some_iff.1 h
    split at h
    · obtain ⟨owner, -, rfl⟩ := Option.map_eq_some_iff.1 h
      rfl
    · cases h
      rfl
  all_goals
    cases h
    try rfl

theorem resolves_of_onEvict (h : l.onEvict = some t) : t.actions.countP (·.resolves) = 0 := by
  unfold onEvict at h
  split at h
  · cases h
    rfl
  · obtain ⟨owner, -, rfl⟩ := Option.map_eq_some_iff.1 h
    rfl
  · cases h
    exact resolves_demands _
  · cases h

end ManagerLine

/-! ## What a deed resolves -/

namespace Deed

variable {P : Wiring} {me : NodeId} {X : Addr} {w w' : Deed}

/-- The requests for copies that are hits, misses or held back. -/
def copies (w : Deed) : Nat :=
  w.hits + w.misses + w.held.countP fun q => !q.op.isEviction

/-- The notices that are confirmed, ignored, dropped or held back. -/
def notices (w : Deed) : Nat :=
  w.posts.countP (·.grantsI) + w.ignored + w.dropped + w.held.countP fun q => q.op.isEviction

@[simp] theorem copies_append (w w' : Deed) : (w ++ w').copies = w.copies + w'.copies := by
  simp only [copies, hits_append, misses_append, held_append, Multiset.countP_add]
  omega

@[simp] theorem notices_append (w w' : Deed) : (w ++ w').notices = w.notices + w'.notices := by
  simp only [notices, posts_append, ignored_append, dropped_append, held_append,
    Multiset.countP_add, List.countP_append]
  omega

@[simp] theorem copies_hits (n : Nat) : ({ hits := n } : Deed).copies = n := rfl

@[simp] theorem copies_misses (n : Nat) : ({ misses := n } : Deed).copies = n := Nat.zero_add n

@[simp] theorem copies_dropped (n : Nat) : ({ dropped := n } : Deed).copies = 0 := rfl

@[simp] theorem copies_held (q : CoherenceMessage) :
    ({ held := {q} } : Deed).copies = (!q.op.isEviction).toNat := by
  rw [copies, ← Multiset.cons_zero, Multiset.countP_cons]
  cases q.op.isEviction <;> rfl

@[simp] theorem notices_hits (n : Nat) : ({ hits := n } : Deed).notices = 0 := rfl

@[simp] theorem notices_misses (n : Nat) : ({ misses := n } : Deed).notices = 0 := rfl

@[simp] theorem notices_dropped (n : Nat) : ({ dropped := n } : Deed).notices = n :=
  Nat.zero_add n

@[simp] theorem notices_held (q : CoherenceMessage) :
    ({ held := {q} } : Deed).notices = q.op.isEviction.toNat := by
  rw [notices, ← Multiset.cons_zero, Multiset.countP_cons]
  cases q.op.isEviction <;> rfl

@[simp] theorem copies_acting (actions : List ManagerAction) :
    (acting P me X actions).copies = 0 := rfl

/-- Of the actions that are carried out those count that resolve a notice. -/
@[simp] theorem notices_acting (actions : List ManagerAction) :
    (acting P me X actions).notices = actions.countP (·.resolves) := by
  induction actions with
  | nil => rfl
  | cons a rest ih =>
    have hone : (acting P me X [a]).notices = a.resolves.toNat := by
      cases a with
      | send op dest forwardTo => cases op <;> rfl
      | writeback | ignore => rfl
    rw [acting_cons, notices_append, ih, hone, List.countP_cons, Nat.add_comm]
    cases a.resolves <;> rfl

@[simp] theorem copies_asking : (asking P me X).copies = 0 := rfl

@[simp] theorem notices_asking : (asking P me X).notices = 0 := rfl

@[simp] theorem copies_returning (dirty : Bool) : (returning P me X dirty).copies = 0 := rfl

@[simp] theorem notices_returning (dirty : Bool) : (returning P me X dirty).notices = 0 := by
  cases dirty <;> rfl

end Deed

namespace SharedBank

variable {P : Wiring} {me : NodeId} {X V : Addr} {w : Deed} {i : Nat}
  {place place' : Addr → Place ManagerLine ManagerTransaction} {q : CoherenceMessage}
  {e : LineEntry ManagerLine} {tr : ManagerTransition} {c d : SharedBank} {t : Turn}

/-- A line that gives up its way resolves no request. -/
theorem Vacates.resolves (h : Vacates P me place V i e w place') :
    w.copies = 0 ∧ w.notices = 0 := by
  cases h with
  | wait hs => exact ⟨rfl, rfl⟩
  | leave hI hne hX hst => simp

/-- A request that is served is resolved once, or held back. -/
theorem Serves.resolves (h : Serves P me place q X w place') :
    w.copies = (!q.op.isEviction).toNat ∧ w.notices = q.op.isEviction.toNat := by
  cases h with
  | park => simp
  | @serve i e t tx hp ht => simp [ManagerLine.resolves_of_onRequest ht]
  | drop hp hop | fetch hp hop => simp [hop]
  | replace hp hop hV ht hv =>
    obtain ⟨hcopies, hnotices⟩ := hv.resolves
    simp [hop, hcopies, hnotices, ManagerLine.resolves_of_onEvict ht]

/-- A reply resolves no request. -/
theorem Heeds.resolves (h : Heeds P me place X tr w place')
    (htr : tr.actions.countP (·.resolves) = 0) : w.copies = 0 ∧ w.notices = 0 := by
  cases h with
  | settle hp | advance hp | fill hp hs => simp [htr]
  | leave hp hv =>
    obtain ⟨hcopies, hnotices⟩ := hv.resolves
    simp [htr, hcopies, hnotices]

/-! ## What a turn resolves -/

/-- A turn resolves the request that it is about. -/
theorem Turn.Plays.resolves (h : t.Plays P place w place') :
    w.copies = (t.request?.toList.countP fun q => !q.op.isEviction) ∧
      w.notices = t.request?.toList.countP fun q => q.op.isEviction := by
  have hserved : ∀ {q : CoherenceMessage}, t.request? = some q →
      Serves P t.before.id place q (P.lineOf q.addr) w place' →
      w.copies = (t.request?.toList.countP fun q => !q.op.isEviction) ∧
        w.notices = t.request?.toList.countP fun q => q.op.isEviction := by
    intro q hq hserves
    obtain ⟨hcopies, hnotices⟩ := hserves.resolves
    rw [hq, hcopies, hnotices]
    cases hop : q.op.isEviction <;> simp [hop]
  have hstroke := h.stroke
  generalize hcause : t.cause = cause at hstroke
  cases hstroke with
  | @credit p hp =>
    rw [t.request?_of_packet hcause, (Packet.brings_credit hp).1]
    exact ⟨rfl, rfl⟩
  | @request p q w' place'' hp hk hserves =>
    exact hserved ((t.request?_of_packet hcause).trans (Packet.brings_request hp hk).1) hserves
  | @retry q w' place'' hserves => exact hserved (by rw [Turn.request?, hcause]) hserves
  | @reply p msg w' place'' l b tr hp hk hl ht hheeds =>
    rw [t.request?_of_packet hcause, (Packet.brings_reply hp hk).1]
    exact hheeds.resolves (ManagerLine.resolves_of_onReply ht)
  | @supply p msg w' place'' i r m tr hp hop hL hst ht hheeds =>
    rw [t.request?_of_packet hcause, (Packet.brings_supply hp hop).1]
    -- only requests for copies wait for memory
    have hwanted : Wanted (.reserved i r (.miss m)) := hL ▸ h.before.wanted _
    refine hheeds.resolves ?_
    rw [ManagerLine.resolves_of_onRequest ht, show m.request.op.isEviction = false from hwanted]
    rfl

/-- A request that the turn is about is new, or was held back until then. -/
theorem Turn.Plays.items (h : t.Plays P place w place') :
    t.before.backlog.items + (t.arrival?.toList : Multiset CoherenceMessage)
      = t.start.backlog.items + (t.request?.toList : Multiset CoherenceMessage) := by
  cases hcause : t.cause with
  | packet p =>
    rw [t.arrival?_of_packet hcause, t.request?_of_packet hcause, Turn.start, hcause]
  | retry q =>
    obtain ⟨x, rest, hq, rfl⟩ := h.due q hcause
    have harrival : t.arrival? = none := by
      rw [Turn.arrival?, Turn.packet?, hcause]
      rfl
    have hrequest : t.request? = some x.item := by rw [Turn.request?, hcause]
    have hstart : t.start = t.before.retrying rest := by
      rw [Turn.start, hcause, hq]
      rfl
    rw [harrival, hrequest, hstart, Backlog.items_cons hq, ← Multiset.singleton_add,
      Option.toList_none, Multiset.coe_nil, add_zero, add_comm]
    rfl

/-- Whatever was taken up for the first time is resolved or held back. -/
structure Resolves (past : List Turn) (c : SharedBank) : Prop where
  copies : (past.filterMap Turn.arrival?).countP (fun q => !q.op.isEviction)
    = c.counters.hits + c.counters.misses + c.backlog.items.countP fun q => !q.op.isEviction
  notices : (past.filterMap Turn.arrival?).countP (fun q => q.op.isEviction)
    = (past.flatMap Turn.posted).countP (·.grantsI) + c.counters.staleIgnored
      + c.counters.staleDropped + c.backlog.items.countP fun q => q.op.isEviction

variable {past : List Turn}

theorem Resolves.akin (h : Resolves past c) (ha : Akin c d) : Resolves past d :=
  ⟨by rw [ha.hits, ha.misses, ha.backlog, h.copies],
    by rw [ha.ignored, ha.dropped, ha.backlog, h.notices]⟩

/-- A turn resolves what it takes up, or holds it back. -/
theorem Resolves.turn (h : Resolves past t.before) (ht : t.Sound) :
    Resolves (past ++ [t]) t.after := by
  obtain ⟨P, place, w, place', ht⟩ := ht
  obtain ⟨hcopies, hnotices⟩ := ht.resolves
  -- the request at hand comes from the backlog or from outside
  have hat : ∀ f : CoherenceMessage → Bool,
      (t.before.backlog.items.countP fun q => f q) + t.arrival?.toList.countP f
        = (t.start.backlog.items.countP fun q => f q) + t.request?.toList.countP f := by
    intro f
    have hcoe : ∀ l : List CoherenceMessage,
        l.countP f = (l : Multiset CoherenceMessage).countP fun q => f q := by
      intro l
      simp [Multiset.coe_countP]
    rw [hcoe, hcoe, ← Multiset.countP_add, ← Multiset.countP_add, ht.items]
  constructor
  · have hf := hat fun q => !q.op.isEviction
    rw [filterMap_concat, List.countP_append, h.copies, ht.does.hits, ht.does.misses, ht.does.held,
      Multiset.countP_add, t.start_counters]
    rw [Deed.copies] at hcopies
    omega
  · have hf := hat fun q => q.op.isEviction
    rw [filterMap_concat, List.countP_append, h.notices, List.flatMap_append, List.countP_append,
      List.flatMap_singleton, ht.posted_eq, ht.does.ignored, ht.does.dropped, ht.does.held,
      Multiset.countP_add, t.start_counters]
    rw [Deed.notices] at hnotices
    omega

end SharedBank

end CacheCoherence
