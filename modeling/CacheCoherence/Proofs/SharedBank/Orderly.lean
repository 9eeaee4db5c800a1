import CacheCoherence.Proofs.Protocol.Acceptance
import CacheCoherence.Proofs.Scene.Fits
import CacheCoherence.Proofs.SharedBank.Filed

/-!
# Orderly — a bank that keeps what belongs to it

A bank holds back requests for its own lines alone and knows clients alone. What it does
by itself keeps this, and what it sends fits. For every line of the bank the agreement
with the clients is kept, too.
-/

namespace CacheCoherence

open Function (update update_self update_of_ne)

/-- The letters that held requests once were. -/
def Plan.letters (P : Plan) (b : NodeId) (ms : Multiset CoherenceMessage) : Multiset Packet :=
  ms.map fun m => P.letter m.src b m

/-- What a bank may keep of a line. -/
structure BankLine.Fits (P : Plan) (b : NodeId) (X : Addr) (l : BankLine) : Prop where
  home : P.home X = b
  aligned : P.lineOf X = X
  names : l.controller.Names fun c => P.role c = some .client
  request : ∀ m, l.request = some m →
    P.Asks b m ∧ P.lineOf m.addr = X ∧ l.controller = .initial ∧ l.dirty = false
  asked : l.asked = true → l.request ≠ none

/-- The request that waits for the data of a line. -/
def BankLine.pending (l : Option BankLine) : Multiset CoherenceMessage :=
  ((l.bind BankLine.request).toList : Multiset CoherenceMessage)

/-- Memory has been asked for a line. -/
def BankLine.isAsked (l : Option BankLine) : Bool := l.any BankLine.asked

namespace Plan

variable {P : Plan} {b : NodeId} {X Y : Addr} {m : CoherenceMessage} {n : Note}

theorem Asks.note? (h : P.Asks b m) :
    P.note? (P.lineOf m.addr) (P.letter m.src b m)
      = some { src := m.src, dst := b, op := m.op } := by
  rw [note?_letter, if_pos rfl, h.forwardTo]

theorem note?_letter_ne {src dst : NodeId} (h : P.lineOf m.addr ≠ Y) :
    P.note? Y (P.letter src dst m) = none := by
  rw [note?_letter, if_neg h]

theorem count_letters_cons (ms : Multiset CoherenceMessage) :
    P.count X (P.letters b (m ::ₘ ms)) n
      = (P.note? X (P.letter m.src b m)).toList.count n + P.count X (P.letters b ms) n := by
  rw [letters, Multiset.map_cons, count_cons]
  rfl

theorem count_singleton (p : Packet) : P.count X {p} n = (P.note? X p).toList.count n := by
  rw [← Multiset.cons_zero, count_cons, count_zero, Nat.add_zero]

end Plan

namespace BankView

variable {P : Plan} {b : NodeId} {w w' : BankView} {X Y : Addr}

/-- The bank keeps what belongs to it. -/
structure Orderly (P : Plan) (b : NodeId) (w : BankView) : Prop where
  held : ∀ m ∈ w.held, P.Asks b m
  lines : ∀ X l, w.line X = some l → l.Fits P b X

/-- What the manager knows of a line; nothing of a line that it does not keep. -/
def manager (w : BankView) (X : Addr) : ManagerLine :=
  (w.line X).elim .initial BankLine.controller

/-- The packets of the bank that may be about the line `X`: those about to leave it, and
the requests that it holds back. -/
def traffic (P : Plan) (b : NodeId) (w : BankView) (X : Addr) : Multiset Packet :=
  w.out + P.letters b (w.held + BankLine.pending (w.line X))

theorem manager_eq {l : BankLine} (h : w.line X = some l) : w.manager X = l.controller := by
  rw [manager, h]
  rfl

theorem manager_none (h : w.line X = none) : w.manager X = .initial := by
  rw [manager, h]
  rfl

theorem manager_put (l : Option BankLine) (posts : Multiset Packet) :
    (w.put X l posts).manager X = l.elim .initial BankLine.controller := by
  rw [manager, put_line]

theorem manager_put_ne (h : Y ≠ X) (l : Option BankLine) (posts : Multiset Packet) :
    (w.put X l posts).manager Y = w.manager Y := by
  rw [manager, put_line_ne _ h, manager]

/-- Packets of other nodes are about to leave, too. -/
def withOut (w : BankView) (out : Multiset Packet) : BankView := { w with out }

/-! ## Counting -/

theorem count_traffic (n : Note) :
    P.count X (w.traffic P b X) n
      = P.count X w.out n + P.count X (P.letters b w.held) n
        + P.count X (P.letters b (BankLine.pending (w.line X))) n := by
  rw [traffic, Plan.count_add, Plan.letters, Multiset.map_add, Plan.count_add, Nat.add_assoc]
  rfl

theorem count_hold (n : Note) (m : CoherenceMessage) :
    P.count X ((w.hold m).traffic P b X) n
      = (P.note? X (P.letter m.src b m)).toList.count n + P.count X (w.traffic P b X) n := by
  rw [count_traffic, count_traffic]
  show _ + P.count X (P.letters b (m ::ₘ w.held)) n + _ = _
  rw [Plan.count_letters_cons]
  show P.count X w.out n + _ + P.count X (P.letters b (BankLine.pending (w.line X))) n = _
  omega

/-- A change of the line `X`, as the line itself sees it. -/
theorem count_put (l : Option BankLine) (posts : Multiset Packet) (n : Note) :
    P.count X ((w.put X l posts).traffic P b X) n
        + P.count X (P.letters b (BankLine.pending (w.line X))) n
      = P.count X (w.traffic P b X) n + P.count X posts n
        + P.count X (P.letters b (BankLine.pending l)) n := by
  rw [count_traffic, count_traffic, put_line]
  show P.count X (w.out + posts) n + P.count X (P.letters b w.held) n + _ + _ = _
  rw [Plan.count_add]
  omega

/-- A change of the line `X`, as any other line sees it. -/
theorem count_put_ne (h : Y ≠ X) (l : Option BankLine) (posts : Multiset Packet) (n : Note) :
    P.count Y ((w.put X l posts).traffic P b Y) n
      = P.count Y (w.traffic P b Y) n + P.count Y posts n := by
  rw [count_traffic, count_traffic, put_line_ne _ h]
  show P.count Y (w.out + posts) n + P.count Y (P.letters b w.held) n + _ = _
  rw [Plan.count_add]
  omega

/-- A line whose data is there keeps no request. -/
theorem count_settled {l : ManagerLine} {d : Bool} (n : Note) :
    P.count X (P.letters b (BankLine.pending (some { controller := l, dirty := d }))) n = 0 :=
  Plan.count_zero

theorem count_absent (n : Note) : P.count X (P.letters b (BankLine.pending none)) n = 0 :=
  Plan.count_zero

theorem count_pending {m : CoherenceMessage} {l : ManagerLine} {d a : Bool} (n : Note) :
    P.count X (P.letters b (BankLine.pending
        (some { controller := l, dirty := d, request := some m, asked := a }))) n
      = (P.note? X (P.letter m.src b m)).toList.count n :=
  Plan.count_singleton _

/-! ## Agreement -/

/-- The clients `cl` and the bank agree on the line `X`, where `T` is on its way besides. -/
def Agrees (P : Plan) (b : NodeId) (w : BankView) (X : Addr) (cl : NodeId → ClientState)
    (T : Multiset Packet) : Prop :=
  Agreement b cl (w.manager X) (P.count X (T + w.traffic P b X))

variable {cl : NodeId → ClientState} {T : Multiset Packet} {m : CoherenceMessage}
  {l : ManagerLine} {d : Bool} {posts : Multiset Packet}

/-- Packets are taken and sent on the way. -/
theorem moves_transit (ps : Multiset Packet) {T' : Multiset Packet} {taken sent : List Note}
    (h : ∀ n, P.count X T' n + taken.count n = P.count X T n + sent.count n) :
    Flight.Moves (P.count X (T + ps)) (P.count X (T' + ps)) taken sent := by
  intro n
  have := h n
  rw [Plan.count_add, Plan.count_add]
  omega

/-- Another node sends packets. -/
theorem moves_withOut {out : Multiset Packet} {taken sent : List Note}
    (h : ∀ n, P.count X out n + taken.count n = P.count X w.out n + sent.count n) :
    Flight.Moves (P.count X (T + w.traffic P b X)) (P.count X (T + (w.withOut out).traffic P b X))
      taken sent := by
  intro n
  have := h n
  rw [Plan.count_add, Plan.count_add, count_traffic, count_traffic]
  show P.count X T n + (P.count X out n + P.count X (P.letters b w.held) n
    + P.count X (P.letters b (BankLine.pending (w.line X))) n) + _ = _
  omega

/-- Only the number of notes about the line counts, not where they are. -/
theorem Agrees.withOut (ha : w.Agrees P b X cl T) {out T' : Multiset Packet}
    (h : ∀ n, P.count X out n + P.count X T' n = P.count X w.out n + P.count X T n) :
    (w.withOut out).Agrees P b X cl T' := by
  refine Agreement.congr ha rfl fun n => ?_
  have := h n
  rw [Plan.count_add, Plan.count_add, count_traffic, count_traffic]
  show _ + (P.count X out n + P.count X (P.letters b w.held) n
    + P.count X (P.letters b (BankLine.pending (w.line X))) n) = _
  omega

theorem Agrees.transit (ha : w.Agrees P b X cl T) {T' : Multiset Packet}
    (h : ∀ n, P.count X T' n = P.count X T n) : w.Agrees P b X cl T' :=
  ha.withOut fun n => by rw [h n]

/-- A line that some client holds is kept, and its data is there. -/
theorem Agrees.kept (ha : w.Agrees P b X cl T) (ho : w.Orderly P b) {c : NodeId}
    (hc : (cl c).hold ≠ .nothing) : ∃ l, w.line X = some l ∧ l.request = none := by
  have hI : (w.manager X).state ≠ .I := fun hs => hc (ha.nobody hs c)
  cases hl : w.line X with
  | none =>
    rw [manager_none hl] at hI
    exact absurd rfl hI
  | some l =>
    refine ⟨l, rfl, Option.eq_none_iff_forall_ne_some.2 fun m hm => hI ?_⟩
    rw [manager_eq hl, ((ho.lines X l hl).request m hm).2.2.1]
    rfl

/-- A line does not see what changes about another. -/
theorem Agrees.put_ne (ha : w.Agrees P b Y cl T) (h : Y ≠ X) {l : Option BankLine}
    (hposts : ∀ n, P.count Y posts n = 0) : (w.put X l posts).Agrees P b Y cl T := by
  refine Agreement.congr ha (manager_put_ne h l posts) fun n => ?_
  rw [Plan.count_add, Plan.count_add, count_put_ne h, hposts n, Nat.add_zero]

/-- A line does not see that a request about another is taken. -/
theorem Agrees.hold_ne (ha : (w.hold m).Agrees P b Y cl T) (h : P.lineOf m.addr ≠ Y) :
    w.Agrees P b Y cl T := by
  refine Agreement.congr ha rfl fun n => ?_
  rw [Plan.count_add, Plan.count_add, count_hold, Plan.note?_letter_ne h, Option.toList_none,
    List.count_nil, Nat.zero_add]

/-- A record takes the place of another on which no more and no less is to come. -/
theorem Agrees.put_same (ha : w.Agrees P b X cl T) {l : Option BankLine}
    (hl : l.elim .initial BankLine.controller = w.manager X)
    (hposts : ∀ n, P.count X posts n + P.count X (P.letters b (BankLine.pending l)) n
      = P.count X (P.letters b (BankLine.pending (w.line X))) n) :
    (w.put X l posts).Agrees P b X cl T := by
  refine Agreement.congr ha ((manager_put l posts).trans hl) fun n => ?_
  have hput := count_put (P := P) (b := b) (w := w) (X := X) l posts n
  have := hposts n
  rw [Plan.count_add, Plan.count_add]
  omega

/-- The packets of a transition go on their way. -/
theorem moves_put (hX : P.lineOf X = X) (hl : w.line X = some { controller := l, dirty := d })
    (t : ManagerTransition) (d' : Bool) :
    Flight.Moves (P.count X (T + w.traffic P b X))
      (P.count X (T + (w.put X (some { controller := t.next, dirty := d' })
        (P.managerPosts b X t.actions)).traffic P b X)) [] (t.notes b) := by
  intro n
  have hput := count_put (P := P) (b := b) (w := w) (X := X)
    (some { controller := t.next, dirty := d' }) (P.managerPosts b X t.actions) n
  rw [hl, count_settled, count_settled, Plan.count_managerPosts hX] at hput
  rw [Plan.count_add, Plan.count_add, List.count_nil]
  omega

/-- The request that waited for a line is settled, and the packets of its transition go on
their way. -/
theorem moves_fetch (hX : P.lineOf X = X) {q : CoherenceMessage} {a : Bool}
    (hl : w.line X = some { controller := l, dirty := d, request := some q, asked := a })
    (hq : P.Asks b q) (hqX : P.lineOf q.addr = X) (t : ManagerTransition) (d' : Bool) :
    Flight.Moves (P.count X (T + w.traffic P b X))
      (P.count X (T + (w.put X (some { controller := t.next, dirty := d' })
        (P.managerPosts b X t.actions)).traffic P b X))
      [{ src := q.src, dst := b, op := q.op }] (t.notes b) := by
  intro n
  have hnote := hq.note?
  rw [hqX] at hnote
  have hput := count_put (P := P) (b := b) (w := w) (X := X)
    (some { controller := t.next, dirty := d' }) (P.managerPosts b X t.actions) n
  rw [hl, count_settled, count_pending, hnote, Option.toList_some,
    Plan.count_managerPosts hX] at hput
  rw [Plan.count_add, Plan.count_add]
  omega

/-- A held request is taken. -/
theorem moves_hold (hm : P.Asks b m) :
    Flight.Moves (P.count (P.lineOf m.addr) (T + (w.hold m).traffic P b (P.lineOf m.addr)))
      (P.count (P.lineOf m.addr) (T + w.traffic P b (P.lineOf m.addr)))
      [{ src := m.src, dst := b, op := m.op }] [] := by
  intro n
  rw [Plan.count_add, Plan.count_add, count_hold, hm.note?, Option.toList_some, List.count_nil]
  omega

/-- What a bank does keeps every line in agreement, whatever else is on its way. -/
theorem Step.agrees (h : Step P b w w') (ho : w.Orderly P b) (ha : w.Agrees P b Y cl T) :
    w'.Agrees P b Y cl T := by
  cases h with
  -- what was held is taken up: the note it stood for is gone, the packets are on their way
  | @serve w m X l d t hm hX hl ht =>
    by_cases hYX : Y = X
    · subst hYX hm
      have hasks := ho.held m (Multiset.mem_cons_self m w.held)
      have htaken := moves_hold (w := w) (T := T) hasks
      have hman : (w.hold m).manager _ = l := manager_eq (w := w.hold m) hl
      unfold Agrees at ha ⊢
      rw [hman] at ha
      rw [manager_put]
      exact ha.request (htaken.pos (by simp) (by simp)) ht
        (htaken.trans (moves_put hX hl t (d || t.returnsData)))
    · exact (ha.hold_ne (by rw [hm]; exact Ne.symm hYX)).put_ne hYX fun n =>
        Plan.count_managerPosts_ne hX (Ne.symm hYX) t.actions
  -- the line is not known, so what is dropped is a notice that came too late
  | @drop _ m X hm hl hop =>
    by_cases hYX : Y = X
    · subst hYX hm
      have hasks := ho.held m (Multiset.mem_cons_self m w'.held)
      have hman : w'.manager (P.lineOf m.addr) = .initial := manager_none hl
      refine Agreement.drop ha (by rw [hman]; rfl) hasks.opens ?_ (moves_hold hasks)
      revert hop
      cases m.op <;> simp [Opcode.isEviction, Opcode.asks]
    · exact ha.hold_ne (by rw [hm]; exact Ne.symm hYX)
  -- the request is kept with the line instead, and counts as on its way there
  | @enrol w m X hm hl hop =>
    by_cases hYX : Y = X
    · subst hYX
      have hman : (w.hold m).manager Y = .initial := manager_none (w := w.hold m) hl
      unfold Agrees at ha ⊢
      rw [hman] at ha
      rw [manager_put]
      refine Agreement.congr ha rfl fun n => ?_
      have hput := count_put (P := P) (b := b) (w := w) (X := Y)
        (some { controller := .initial, request := some m }) 0 n
      rw [hl, count_pending, count_absent, Plan.count_zero] at hput
      rw [Plan.count_add, Plan.count_add, count_hold]
      omega
    · exact (ha.hold_ne (by rw [hm]; exact Ne.symm hYX)).put_ne hYX fun n => Plan.count_zero
  | @ask w X l d m hX hl =>
    have hposts : ∀ n, P.count Y {P.memoryPacket b .read X} n = 0 := fun n =>
      Plan.count_singleton _
    by_cases hYX : Y = X
    · subst hYX
      refine ha.put_same (manager_eq hl).symm fun n => ?_
      rw [hposts, hl, count_pending, count_pending, Nat.zero_add]
    · exact ha.put_ne hYX hposts
  | @evict w X l d t hX hl ht =>
    by_cases hYX : Y = X
    · subst hYX
      unfold Agrees at ha ⊢
      rw [manager_eq hl] at ha
      rw [manager_put]
      exact ha.evict ht (moves_put hX hl t _)
    · exact ha.put_ne hYX fun n => Plan.count_managerPosts_ne hX (Ne.symm hYX) t.actions
  -- a line that nobody has is like one that the bank does not know
  | @forget w X l d hX hl hI =>
    have hposts : ∀ n, P.count Y (if d then {P.memoryPacket b .write X} else 0) n = 0 := by
      intro n
      split
      · exact Plan.count_singleton _
      · exact Plan.count_zero
    by_cases hYX : Y = X
    · subst hYX
      unfold Agrees at ha ⊢
      rw [manager_eq hl] at ha
      rw [manager_put]
      refine (ha.forget hI rfl).congr rfl fun n => ?_
      have hput := count_put (P := P) (b := b) (w := w) (X := Y) none
        (if d then {P.memoryPacket b .write Y} else 0) n
      rw [hl, count_absent, count_settled, hposts n] at hput
      rw [Plan.count_add, Plan.count_add]
      omega
    · exact ha.put_ne hYX hposts

/-! ## What a step keeps -/

/-- The lines of other banks do not see what a bank does. -/
theorem Step.count_out (h : Step P b w w') (ho : w.Orderly P b) (hY : P.home Y ≠ b) (n : Note) :
    P.count Y w'.out n = P.count Y w.out n := by
  -- a bank has only lines that are mapped to it
  have hne : ∀ {X l}, w.line X = some l → X ≠ Y := by
    rintro X l hl rfl
    exact hY (ho.lines X l hl).home
  have hput : ∀ (w : BankView) {X l posts}, P.count Y posts n = 0 →
      P.count Y (w.put X l posts).out n = P.count Y w.out n := by
    intro w X l posts hposts
    show P.count Y (w.out + posts) n = _
    rw [Plan.count_add, hposts, Nat.add_zero]
  cases h with
  | @serve w m X l d t hm hX hl ht =>
    exact hput w (Plan.count_managerPosts_ne hX (hne (X := X) hl) t.actions)
  | drop => rfl
  | @enrol w m X => exact hput w Plan.count_zero
  | ask => exact hput w (Plan.count_singleton _)
  | @evict _ X l d t hX hl ht => exact hput w (Plan.count_managerPosts_ne hX (hne hl) t.actions)
  | forget =>
    refine hput w ?_
    split
    · exact Plan.count_singleton _
    · exact Plan.count_zero

/-- A bank goes on keeping what belongs to it. -/
theorem Orderly.put (ho : w.Orderly P b) {l : Option BankLine}
    (hl : ∀ l', l = some l' → l'.Fits P b X) : (w.put X l posts).Orderly P b where
  held := ho.held
  lines Y l' h := by
    by_cases hYX : Y = X
    · subst hYX
      rw [put_line] at h
      exact hl l' h
    · rw [put_line_ne _ hYX] at h
      exact ho.lines Y l' h

theorem Orderly.withOut (ho : w.Orderly P b) (out : Multiset Packet) :
    (w.withOut out).Orderly P b :=
  ⟨ho.held, ho.lines⟩

theorem Orderly.of_hold (ho : (w.hold m).Orderly P b) : w.Orderly P b where
  held m' h := ho.held m' (Multiset.mem_cons_of_mem h)
  lines := ho.lines

/-- A line whose data is there fits if it names clients alone. -/
theorem fits_settled {l' : BankLine} (hl : l'.Fits P b X) {t : ManagerTransition}
    (hn : t.next.Names fun c => P.role c = some .client) :
    BankLine.Fits P b X { controller := t.next, dirty := d } where
  home := hl.home
  aligned := hl.aligned
  names := hn
  request := nofun
  asked := nofun

theorem Step.orderly (h : Step P b w w') (ho : w.Orderly P b) : w'.Orderly P b := by
  cases h with
  | @serve w m X l d t hm hX hl ht =>
    have hasks := ho.held m (Multiset.mem_cons_self m w.held)
    have hfit := ho.lines X _ hl
    refine ho.of_hold.put ?_
    rintro _ ⟨⟩
    have hnames : t.next.Names _ ∧ ∀ n ∈ t.notes b, n.Names _ :=
      ManagerLine.onRequest_names hfit.names hasks.src ht
    exact fits_settled hfit hnames.1
  | drop => exact ho.of_hold
  | @enrol w m X hm hl hop =>
    have hasks := ho.held m (Multiset.mem_cons_self m w.held)
    refine ho.of_hold.put ?_
    rintro _ ⟨⟩
    subst hm
    exact {
      home := hasks.home
      aligned := P.lineOf_lineOf m.addr
      names := ManagerLine.names_initial _
      request := by
        rintro _ ⟨⟩
        exact ⟨hasks, rfl, rfl, rfl⟩
      asked := nofun }
  | @ask _ X l d m hX hl =>
    have hfit := ho.lines X _ hl
    refine ho.put ?_
    rintro _ ⟨⟩
    exact { hfit with asked := nofun }
  | @evict _ X l d t hX hl ht =>
    have hfit := ho.lines X _ hl
    have hnames := (ManagerLine.onEvict_names b hfit.names ht).1
    refine ho.put ?_
    rintro _ ⟨⟩
    exact fits_settled hfit hnames
  | forget =>
    refine ho.put ?_
    rintro _ ⟨⟩

/-- The packets of a transition of a line of the bank fit. -/
theorem fits_managerPosts (hX : P.lineOf X = X) (hb : P.home X = b) {t : ManagerTransition}
    (hn : ∀ n ∈ t.notes b, n.Names fun c => P.role c = some .client)
    (hop : ∀ n ∈ t.notes b, n.op.toClient = true) {p : Packet}
    (hp : p ∈ P.managerPosts b X t.actions) : P.Fits p ∧ p.src = b ∧ p.isCredit = false := by
  obtain ⟨n, hmem, rfl⟩ := Plan.mem_managerPosts hp
  exact ⟨Plan.fits_of_note hX hb (hn n hmem) (hop n hmem), rfl, rfl⟩

/-- All that a bank sends by itself fits. -/
theorem Step.fits (h : Step P b w w') (ho : w.Orderly P b) {p : Packet} (hp : p ∈ w'.out) :
    p ∈ w.out ∨ P.Fits p ∧ p.src = b ∧ p.isCredit = false := by
  cases h with
  | @serve w m X l d t hm hX hl ht =>
    have hasks := ho.held m (Multiset.mem_cons_self m w.held)
    have hfit := ho.lines X _ hl
    refine (Multiset.mem_add.1 hp).imp_right fun hp => ?_
    exact fits_managerPosts hX hfit.home (ManagerLine.onRequest_names hfit.names hasks.src ht).2
      (ManagerLine.toClient_of_onRequest b ht) hp
  | drop => exact .inl hp
  | @enrol w m X hm hl hop =>
    left
    rwa [show (w.put X _ 0).out = w.out from Multiset.add_zero _] at hp
  | @ask _ X l d m hX hl =>
    refine (Multiset.mem_add.1 hp).imp_right fun hp => ?_
    rw [Multiset.mem_singleton.1 hp, ← (ho.lines X _ hl).home]
    exact ⟨.ask hX (by nofun), rfl, rfl⟩
  | @evict _ X l d t hX hl ht =>
    have hfit := ho.lines X _ hl
    refine (Multiset.mem_add.1 hp).imp_right fun hp => ?_
    refine fits_managerPosts hX hfit.home (ManagerLine.onEvict_names b hfit.names ht).2
      (fun n hn => ?_) hp
    rw [ManagerLine.demandI_of_onEvict b ht n hn]
    rfl
  | @forget _ X l d hX hl hI =>
    refine (Multiset.mem_add.1 hp).imp_right fun hp => ?_
    cases d with
    | false => cases hp
    | true =>
      rw [Multiset.mem_singleton.1 hp, ← (ho.lines X _ hl).home]
      exact ⟨.ask hX (by nofun), rfl, rfl⟩

/-! ## Asking memory -/

open Packet (tally tally_add tally_zero tally_singleton tally_eq_zero fetches)

theorem fetches_clientPosts {me : NodeId} (X Y : Addr) (actions : List ClientAction) :
    tally (fetches X) (P.clientPosts me Y actions) = 0 := by
  refine tally_eq_zero fun p hp => ?_
  obtain ⟨a, -, rfl⟩ := List.mem_map.1 hp
  cases a <;> rfl

theorem fetches_managerPosts (X Y : Addr) (actions : List ManagerAction) :
    tally (fetches X) (P.managerPosts b Y actions) = 0 := by
  refine tally_eq_zero fun p hp => ?_
  obtain ⟨a, -, ha⟩ := List.mem_filterMap.1 hp
  cases a <;> cases ha
  rfl

theorem fetches_memoryPacket (X Y : Addr) (op : MemoryOp) :
    (P.memoryPacket b op Y).fetches X = (Y == X && op != .write) := rfl

/-- Every line that memory has been asked for has one packet more on its way. -/
theorem Step.fetches (h : Step P b w w') (X : Addr) :
    tally (fetches X) w'.out + (BankLine.isAsked (w.line X)).toNat
      = tally (fetches X) w.out + (BankLine.isAsked (w'.line X)).toNat := by
  -- a change that asks memory for nothing
  have hput : ∀ (w : BankView) {Y l l' posts}, w.line Y = l →
      tally (Packet.fetches X) posts = 0 → BankLine.isAsked l = false →
      BankLine.isAsked l' = false →
      tally (Packet.fetches X) (w.put Y l' posts).out + (BankLine.isAsked (w.line X)).toNat
        = tally (Packet.fetches X) w.out
          + (BankLine.isAsked ((w.put Y l' posts).line X)).toNat := by
    intro w Y l l' posts hl hposts ha ha'
    show tally _ (w.out + posts) + _ = _
    rw [tally_add, hposts, Nat.add_zero]
    by_cases hXY : X = Y
    · rw [hXY, put_line, hl, ha, ha']
    · rw [put_line_ne _ hXY]
  cases h with
  | @serve w m Y l d t hm hY hl ht => exact hput w hl (fetches_managerPosts ..) rfl rfl
  | drop => rfl
  | @enrol w m Y hm hl hop => exact hput w hl tally_zero rfl rfl
  | @ask _ Y l d m hY hl =>
    show tally _ (w.out + {P.memoryPacket b .read Y}) + _ = _
    rw [tally_add, tally_singleton, fetches_memoryPacket]
    by_cases hXY : X = Y
    · subst hXY
      rw [put_line, hl]
      simp [BankLine.isAsked]
    · rw [put_line_ne _ hXY]
      simp [Ne.symm hXY]
  | @evict _ Y l d t hY hl ht => exact hput w hl (fetches_managerPosts ..) rfl rfl
  | @forget _ Y l d hY hl hI =>
    refine hput w hl ?_ rfl rfl
    split
    · rw [tally_singleton, fetches_memoryPacket]
      simp
    · exact tally_zero

end BankView

end CacheCoherence
