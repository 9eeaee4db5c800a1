import CacheCoherence.Proofs.Backlog.Held
import CacheCoherence.Proofs.SharedBank.Filed

/-!
# Deeds — what a bank does beside filing its lines

Whatever a bank does to its lines, it also holds requests back, posts packets and counts. A deed
says how much of each, and the deeds of two pieces of work add up.
-/

namespace CacheCoherence

/-- What a piece of work adds to a bank. -/
structure Deed where
  /-- Requests that are held back. -/
  held : Multiset CoherenceMessage := 0
  /-- Packets that are posted, in order. -/
  posts : List Packet := []
  hits : Nat := 0
  misses : Nat := 0
  /-- Stale messages that the protocol ignores. -/
  ignored : Nat := 0
  /-- Eviction notices that are dropped. -/
  dropped : Nat := 0

namespace Deed

/-- One deed after another. -/
instance : Append Deed where
  append w w' := {
    held := w.held + w'.held
    posts := w.posts ++ w'.posts
    hits := w.hits + w'.hits
    misses := w.misses + w'.misses
    ignored := w.ignored + w'.ignored
    dropped := w.dropped + w'.dropped }

variable (w w' : Deed)

@[simp] theorem held_append : (w ++ w').held = w.held + w'.held := rfl
@[simp] theorem posts_append : (w ++ w').posts = w.posts ++ w'.posts := rfl
@[simp] theorem hits_append : (w ++ w').hits = w.hits + w'.hits := rfl
@[simp] theorem misses_append : (w ++ w').misses = w.misses + w'.misses := rfl
@[simp] theorem ignored_append : (w ++ w').ignored = w.ignored + w'.ignored := rfl
@[simp] theorem dropped_append : (w ++ w').dropped = w.dropped + w'.dropped := rfl

/-- Nothing is added. -/
theorem append_nothing : w ++ {} = w := by
  show Deed.mk (w.held + 0) (w.posts ++ []) _ _ _ _ = w
  rw [add_zero, List.append_nil]
  rfl

/-- The actions of a transition on the line `X` are carried out. -/
def acting (P : Wiring) (me : NodeId) (X : Addr) (actions : List ManagerAction) : Deed where
  posts := actions.filterMap (P.managerPacket? me X)
  ignored := actions.count .ignore

/-- A line that left the table is handed back to memory if its data is newer. -/
def returning (P : Wiring) (me : NodeId) (X : Addr) (dirty : Bool) : Deed where
  posts := if dirty then [P.memoryPacket me .write X] else []

/-- The line `X` is asked of memory. -/
def asking (P : Wiring) (me : NodeId) (X : Addr) : Deed where
  posts := [P.memoryPacket me .read X]

theorem acting_cons (P : Wiring) (me : NodeId) (X : Addr) (a : ManagerAction)
    (rest : List ManagerAction) :
    acting P me X (a :: rest) = acting P me X [a] ++ acting P me X rest := by
  have hposts : (a :: rest).filterMap (P.managerPacket? me X)
      = [a].filterMap (P.managerPacket? me X) ++ rest.filterMap (P.managerPacket? me X) := by
    rw [← List.filterMap_append, List.singleton_append]
  have hignored : (a :: rest).count .ignore = [a].count .ignore + rest.count .ignore := by
    rw [← List.count_append, List.singleton_append]
  rw [acting, hposts, hignored]
  rfl

end Deed

namespace SharedBank

/-- The bank `d` is `c` after work that did `w`. -/
structure Does (c : SharedBank) (w : Deed) (d : SharedBank) : Prop where
  held : d.backlog.items = c.backlog.items + w.held
  posts : d.outlet.delay.toList = c.outlet.delay.toList ++ w.posts
  hits : d.counters.hits = c.counters.hits + w.hits
  misses : d.counters.misses = c.counters.misses + w.misses
  ignored : d.counters.staleIgnored = c.counters.staleIgnored + w.ignored
  dropped : d.counters.staleDropped = c.counters.staleDropped + w.dropped

variable {P : Wiring} {c d e : SharedBank} {w w' : Deed}
  {place : Addr → Place ManagerLine ManagerTransaction}

namespace Does

theorem refl (c : SharedBank) : c.Does {} c :=
  ⟨(add_zero _).symm, (List.append_nil _).symm, rfl, rfl, rfl, rfl⟩

theorem trans (h : c.Does w d) (h' : d.Does w' e) : c.Does (w ++ w') e where
  held := by rw [h'.held, h.held, Deed.held_append, add_assoc]
  posts := by rw [h'.posts, h.posts, Deed.posts_append, List.append_assoc]
  hits := by rw [h'.hits, h.hits, Deed.hits_append, add_assoc]
  misses := by rw [h'.misses, h.misses, Deed.misses_append, add_assoc]
  ignored := by rw [h'.ignored, h.ignored, Deed.ignored_append, add_assoc]
  dropped := by rw [h'.dropped, h.dropped, Deed.dropped_append, add_assoc]

/-- What has happened to the lines does not matter. -/
theorem congr (h : c.Does w d) (hb : e.backlog.items = d.backlog.items)
    (ho : e.outlet.delay = d.outlet.delay) (hk : e.counters = d.counters) : c.Does w e where
  held := hb.trans h.held
  posts := by rw [ho, h.posts]
  hits := by rw [hk, h.hits]
  misses := by rw [hk, h.misses]
  ignored := by rw [hk, h.ignored]
  dropped := by rw [hk, h.dropped]

/-- What happened to the lines before does not matter either. -/
theorem start (h : c.Does w d) (hb : e.backlog = c.backlog) (ho : e.outlet = c.outlet)
    (hk : e.counters = c.counters) : e.Does w d where
  held := by rw [hb, h.held]
  posts := by rw [ho, h.posts]
  hits := by rw [hk, h.hits]
  misses := by rw [hk, h.misses]
  ignored := by rw [hk, h.ignored]
  dropped := by rw [hk, h.dropped]

theorem wake (h : c.Does w d) (event : WakeEvent) : c.Does w (d.wake event) :=
  h.congr (Backlog.items_wake d.backlog event) rfl rfl

/-- What is posted is the last to leave. -/
theorem out (h : c.Does w d) (hl : d.outlet.link = c.outlet.link) :
    d.outlet.toList = c.outlet.toList ++ w.posts := by
  rw [Outlet.toList, Outlet.toList, hl, h.posts, List.append_assoc]

end Does

/-- The bank `d` is `c` after work that did `w` and left the lines as `place` says. -/
structure Leads (P : Wiring) (c : SharedBank) (w : Deed)
    (place : Addr → Place ManagerLine ManagerTransaction) (d : SharedBank) : Prop where
  kept : Kept c d
  does : Does c w d
  rests : Rests P none d place

/-- Work goes on. -/
theorem Leads.after (hk : Kept c d) (hw : c.Does w d) (h : Leads P d w' place e) :
    Leads P c (w ++ w') place e :=
  ⟨hk.trans h.kept, hw.trans h.does, h.rests⟩

/-! ## Small changes -/

/-- A packet is posted. -/
theorem does_emit (c : SharedBank) (tag : Tag) (dst : NodeId) (payload : Payload) :
    c.Does { posts := [{ tag, src := c.id, dst, payload }] } (c.emit tag dst payload) :=
  ⟨(add_zero _).symm, DelayLine.toList_push .., rfl, rfl, rfl, rfl⟩

/-- Carrying out actions posts their packets, counts what is ignored, and does nothing else of
note. -/
theorem perform_eq (hf : Follows P c) (X : Addr) (actions : List ManagerAction) :
    ∃ o k, c.perform X actions = { c with outlet := o, counters := k } ∧
      o.link = c.outlet.link ∧
      c.Does (.acting P c.id X actions) { c with outlet := o, counters := k } := by
  induction actions generalizing c with
  | nil => exact ⟨c.outlet, c.counters, rfl, rfl, .refl c⟩
  | cons a rest ih =>
    have hact : ∃ o k, c.act X a = { c with outlet := o, counters := k } ∧
        o.link = c.outlet.link ∧
        c.Does (.acting P c.id X [a]) { c with outlet := o, counters := k } := by
      cases a with
      | send op dest forwardTo =>
        have hpacket : c.Does { posts := [P.letter c.id dest
            { CoherenceMessage.build op X c.id with forwardTo }] }
            (c.act X (.send op dest forwardTo)) := by
          rw [Wiring.letter, ← hf.tags]
          exact c.does_emit ..
        exact ⟨_, _, rfl, rfl, hpacket⟩
      | writeback => exact ⟨c.outlet, c.counters, rfl, rfl, .refl c⟩
      | ignore =>
        exact ⟨c.outlet, { c.counters with staleIgnored := c.counters.staleIgnored + 1 }, rfl, rfl,
          (add_zero _).symm, (List.append_nil _).symm, rfl, rfl, rfl, rfl⟩
    obtain ⟨o, k, hk, hl, hw⟩ := hact
    have hf' : Follows P { c with outlet := o, counters := k } :=
      hf.kept ⟨rfl, rfl, rfl, rfl, hl, rfl⟩
    obtain ⟨o', k', hp, hl', hw'⟩ := ih hf'
    refine ⟨o', k', ?_, hl'.trans hl, ?_⟩
    · show (c.act X a).perform X rest = _
      rw [hk, hp]
    · rw [Deed.acting_cons]
      exact hw.trans hw'

/-- Applying a transition changes the entry, posts its packets and counts what is ignored. -/
theorem commit_eq (hf : Follows P c) (way : Handle) (X : Addr) (t : ManagerTransition) :
    ∃ o k, c.commit way X t = { c with
        table := c.table.modify way (committed · t), outlet := o, counters := k } ∧
      o.link = c.outlet.link ∧
      c.Does (.acting P c.id X t.actions) { c with outlet := o, counters := k } := by
  obtain ⟨o, k, hp, hl, hw⟩ := perform_eq hf X t.actions
  refine ⟨o, k, ?_, hl, hw⟩
  rw [commit, hp]
  rfl

/-- Asking memory posts one packet. -/
theorem toMemory_eq (hf : Follows P c) (op : MemoryOp) (X : Addr) :
    ∃ o k, c.toMemory op X = { c with outlet := o, counters := k } ∧ o.link = c.outlet.link ∧
      c.Does { posts := [P.memoryPacket c.id op X] } { c with outlet := o, counters := k } := by
  have hpacket : c.Does { posts := [P.memoryPacket c.id op X] } (c.toMemory op X) := by
    rw [Wiring.memoryPacket, ← hf.tags, ← hf.memories]
    exact c.does_emit ..
  exact ⟨_, _, rfl, rfl, hpacket⟩

/-- Newer data is handed to memory. -/
theorem writeBack_eq (hf : Follows P c) (X : Addr) (dirty : Bool) :
    ∃ o k, c.writeBack X dirty = { c with outlet := o, counters := k } ∧
      o.link = c.outlet.link ∧
      c.Does (.returning P c.id X dirty) { c with outlet := o, counters := k } := by
  cases dirty with
  | false => exact ⟨c.outlet, c.counters, rfl, rfl, .refl c⟩
  | true =>
    obtain ⟨o, k, heq, hl, hw⟩ := toMemory_eq (c := { c with
      counters := { c.counters with writebacks := c.counters.writebacks + 1 } })
      (hf.kept ⟨rfl, rfl, rfl, rfl, rfl, rfl⟩) .write X
    exact ⟨o, k, heq, hl, hw.held, hw.posts, hw.hits, hw.misses, hw.ignored, hw.dropped⟩

/-- A request for a copy is counted, and then its transition changes its line's entry and marks
it as used. -/
theorem apply_eq (hf : Follows P c) (q : CoherenceMessage) (X : Addr) (way : Handle)
    (t : ManagerTransition) :
    ∃ o k, c.apply q X way t = { c with
        table := (c.table.modify way (committed · t)).touch way, outlet := o, counters := k } ∧
      o.link = c.outlet.link ∧
      c.Does ({ hits := (!q.op.isEviction).toNat } ++ .acting P c.id X t.actions)
        { c with outlet := o, counters := k } := by
  obtain ⟨k, hk, hw⟩ : ∃ k, c.countHit q.op = { c with counters := k } ∧
      c.Does { hits := (!q.op.isEviction).toNat } { c with counters := k } := by
    unfold countHit
    split
    · next hop =>
      rw [hop]
      exact ⟨c.counters, rfl, .refl c⟩
    · next hop =>
      rw [Bool.eq_false_iff.2 hop]
      exact ⟨_, rfl, (add_zero _).symm, (List.append_nil _).symm, rfl, rfl, rfl, rfl⟩
  obtain ⟨o, k', hc, hl, hw'⟩ := commit_eq (c := { c with counters := k })
    (hf.kept ⟨rfl, rfl, rfl, rfl, rfl, rfl⟩) way X t
  refine ⟨o, k', ?_, hl, hw.trans hw'⟩
  rw [apply, hk, hc]

end SharedBank

end CacheCoherence
