import CacheCoherence.Proofs.Scene.Basic

/-!
# Sound scenes — the invariant of all lines, packets and credits

In a sound scene every line is in agreement, every bank keeps what belongs to it, every
packet fits, memory owes exactly what it has been asked for, and no credit is lost. Every
step of a node keeps a scene sound.
-/

namespace CacheCoherence.Scene

open Function (update update_self update_of_ne)
open Packet (tally tally_add tally_cons tally_singleton)

/-- Everything in a scene agrees. -/
structure Sound (P : Plan) (s : Scene) : Prop where
  agree : ∀ X, (s.bank (P.home X)).Agrees P (P.home X) X (s.clients X) s.transit
  orderly : ∀ b, (s.bank b).Orderly P b
  fits : ∀ p ∈ s.outgoing + s.transit, P.Fits p
  fetches : ∀ X, tally (Packet.fetches X) s.outgoing + tally (Packet.fetches X) s.transit
    = (BankLine.isAsked ((s.bank (P.home X)).line X)).toNat
  credit : ∀ n, (s.node n).credits + tally (Packet.standsFor n) s.transit = P.quota n

variable {P : Plan} {s s' : Scene} {p : Packet} {T : Multiset Packet} {X Y : Addr} {r : Role}

namespace Sound

theorem fits_transit (h : Sound P s) (hp : p ∈ s.transit) : P.Fits p :=
  h.fits p (Multiset.mem_add.2 (.inr hp))

theorem fits_taken (h : Sound P s) (hp : s.transit = p ::ₘ T) : P.Fits p :=
  h.fits_transit (by rw [hp]; exact Multiset.mem_cons_self p T)

theorem fits_outgoing (h : Sound P s) (hp : p ∈ s.outgoing) : P.Fits p :=
  h.fits p (Multiset.mem_add.2 (.inl hp))

end Sound

/-! ## What a packet is -/

section Packets

variable {m : CoherenceMessage} {q : MemoryMessage}

/-- What a packet for a client carries. -/
theorem message_fits (hf : P.Fits p) (hn : P.role p.dst = some .client)
    (hm : p.payload = .coherence m) : p = P.letter m.src p.dst m ∧ m.op.toClient = true ∧
      (∀ r, m.forwardTo = some r → P.role r = some .client) ∧
      (m.op = .demandI → m.src = P.home (P.lineOf m.addr)) := by
  cases hf with
  | credit => cases hm
  | request h => simp [Wiring.letter, ← h.home, P.role_home] at hn
  | answer => simp [Wiring.letter, P.role_home] at hn
  | order _ _ hop hfwd hdem =>
    cases hm
    exact ⟨rfl, hop, hfwd, hdem⟩
  | ask => simp [Wiring.memoryPacket, P.role_store] at hn
  | supplied => simp [Plan.suppliedPacket, P.role_home] at hn

/-- A coherence message for a bank is a request or an answer of a client. -/
theorem request_fits (hf : P.Fits p) (hb : P.role p.dst = some .bank)
    (hm : p.payload = .coherence m) : p = P.letter m.src p.dst m ∧
      P.role m.src = some .client ∧ m.forwardTo = none ∧ P.home (P.lineOf m.addr) = p.dst ∧
      (m.kind = .request ∧ m.op.opens = true ∨ m.kind = .reply ∧ m.op.answers = true) := by
  cases hf with
  | credit => cases hm
  | request h hk =>
    cases hm
    exact ⟨rfl, h.src, h.forwardTo, h.home, .inl ⟨hk, h.opens⟩⟩
  | answer hs hop hfwd hk =>
    cases hm
    exact ⟨rfl, hs, hfwd, rfl, .inr ⟨hk, hop⟩⟩
  | order _ hd => simp [Wiring.letter, hd] at hb
  | ask => cases hm
  | supplied => cases hm

/-- What memory sends to a bank. -/
theorem supplied_fits (hf : P.Fits p) (hb : P.role p.dst = some .bank)
    (hm : p.payload = .memory q) :
    p = P.suppliedPacket q.addr ∧ P.lineOf q.addr = q.addr ∧ q.op = .reply := by
  cases hf with
  | credit | request | answer | order => cases hm
  | ask => simp [Wiring.memoryPacket, P.role_store] at hb
  | supplied hX =>
    cases hm
    exact ⟨rfl, hX, rfl⟩

/-- What a bank sends to memory. -/
theorem ask_fits (hf : P.Fits p) (hr : P.role p.dst = some .memory) (hm : p.payload = .memory q) :
    p = P.memoryPacket (P.home q.addr) q.op q.addr ∧ P.lineOf q.addr = q.addr ∧
      q.op ≠ .reply := by
  cases hf with
  | credit | request | answer | order => cases hm
  | ask hX hop =>
    cases hm
    exact ⟨rfl, hX, hop⟩
  | supplied => simp [Plan.suppliedPacket, P.role_home] at hr

end Packets

/-! ## Agreement -/

/-- The note that a coherence message is about its line. -/
theorem note?_coherence {m : CoherenceMessage} (hm : p.payload = .coherence m) :
    P.note? X p = if P.lineOf m.addr = X then
      some { src := m.src, dst := p.dst, op := m.op, forwardTo := m.forwardTo } else none := by
  rw [Plan.note?, hm]

theorem note?_plain (hm : ∀ m, p.payload ≠ .coherence m) : P.note? X p = none := by
  rw [Plan.note?]
  split
  · next m h => exact absurd h (hm m)
  · rfl

/-- Taking a packet that says nothing about a line is not seen by it. -/
theorem count_consume (h : P.note? X p = none) (n : Note) :
    P.count X (P.creditTo p.dst p.src ::ₘ T) n = P.count X (p ::ₘ T) n := by
  rw [Plan.count_cons, Plan.count_cons, h, Plan.note?_credit]

/-- The note of a packet is taken with it. -/
theorem count_take {n : Note} (h : P.note? X p = some n) (k : Note) :
    P.count X (P.creditTo p.dst p.src ::ₘ T) k + [n].count k
      = P.count X (p ::ₘ T) k + ([] : List Note).count k := by
  rw [Plan.count_cons, Plan.count_cons, h, Plan.note?_credit, Option.toList_some,
    Option.toList_none, List.count_nil]
  omega

/-- A packet that says nothing about a line is taken, and what is sent then says nothing about
it, either. -/
theorem agree_aside {b : NodeId} {w : BankView} {cl : NodeId → ClientState} {out : Multiset Packet}
    (ha : w.Agrees P b Y cl (p ::ₘ T)) (hp : P.note? Y p = none)
    (hout : ∀ n, P.count Y out n = P.count Y w.out n) :
    (w.withOut out).Agrees P b Y cl (P.creditTo p.dst p.src ::ₘ T) :=
  ha.withOut fun n => by rw [hout, count_consume hp]

/-- The packets of a line's transition say nothing about other lines, so those do not see
it. -/
theorem agree_put_ne {b : NodeId} {w : BankView} {cl : NodeId → ClientState} {T' : Multiset Packet}
    (ha : w.Agrees P b Y cl T) (hne : Y ≠ X) (hX : P.lineOf X = X)
    (hT : ∀ n, P.count Y T' n = P.count Y T n) (l : Option BankLine) (t : ManagerTransition) :
    (w.put X l (P.managerPosts b X t.actions)).Agrees P b Y cl T' :=
  (ha.transit hT).put_ne hne fun _ => Plan.count_managerPosts_ne hX (Ne.symm hne) t.actions

/-- A bank takes a packet and changes the line that it is about: no other line sees it. -/
theorem agree_take {l : Option BankLine} {t : ManagerTransition} (hs : s.Sound P)
    (hp : s.transit = p ::ₘ T) (hX : P.lineOf X = X) (hb : P.home X = p.dst)
    (hnote : ∀ Y, Y ≠ X → P.note? Y p = none)
    (hself : ((s.bank p.dst).put X l (P.managerPosts p.dst X t.actions)).Agrees P p.dst X
      (s.clients X) (P.creditTo p.dst p.src ::ₘ T)) (Y : Addr) :
    (((s.consume P p T).setBank p.dst
        ((s.bank p.dst).put X l (P.managerPosts p.dst X t.actions))).bank (P.home Y)).Agrees P
      (P.home Y) Y (s.clients Y) (P.creditTo p.dst p.src ::ₘ T) := by
  by_cases hYX : Y = X
  · subst hYX
    rw [hb, bank_setBank]
    exact hself
  · have ha := hs.agree Y
    rw [hp] at ha
    by_cases hY : P.home Y = p.dst
    · rw [hY] at ha ⊢
      rw [bank_setBank]
      exact agree_put_ne ha hYX hX (count_consume (hnote Y hYX)) l t
    · rw [bank_setBank_ne hY]
      refine agree_aside ha (hnote Y hYX) fun k => ?_
      show P.count Y (s.outgoing + P.managerPosts p.dst X t.actions) k = _
      rw [Plan.count_add, Plan.count_managerPosts_ne hX (Ne.symm hYX)]
      rfl

/-- A client works on a line: it alone sees what the client posts. -/
theorem agree_access {n : NodeId} {op : ProcessorOp} {t : ClientTransition} (hs : s.Sound P)
    (hX : P.lineOf X = X) (ht : ((s.node n).state X).onProcessor op = some t) (Y : Addr) :
    ((s.moveClient P n X t).bank (P.home Y)).Agrees P (P.home Y) Y
      ((s.moveClient P n X t).clients Y) s.transit := by
  have ha := hs.agree Y
  rw [bank_moveClient]
  by_cases hYX : Y = X
  · -- the line that the client works on
    subst hYX
    rw [clients_moveClient]
    refine Agreement.access ha (c := n) ht (BankView.moves_withOut fun k => ?_)
    rw [Plan.count_add, Plan.count_clientPosts hX]
    rfl
  · -- any other line, which the posted packets do not mention
    rw [clients_moveClient_ne hYX]
    refine ha.withOut fun k => ?_
    rw [Plan.count_add, Plan.count_clientPosts_ne hX (Ne.symm hYX)]
    rfl

/-- A client takes a message about a line, and answers it. -/
theorem agree_message {m : CoherenceMessage} {t : ClientTransition} (hs : s.Sound P)
    (hp : s.transit = p ::ₘ T) (hm : p.payload = .coherence m) (hX : P.lineOf m.addr = X)
    (ht : ((s.node p.dst).state X).onMessage m.op m.forwardTo = some t) (Y : Addr) :
    (((s.consume P p T).moveClient P p.dst X t).bank (P.home Y)).Agrees P (P.home Y) Y
      (((s.consume P p T).moveClient P p.dst X t).clients Y) (P.creditTo p.dst p.src ::ₘ T) := by
  have hXX : P.lineOf X = X := by rw [← hX, P.lineOf_lineOf]
  have hnote := note?_coherence (P := P) (X := Y) hm
  have ha := hs.agree Y
  rw [hp] at ha
  rw [bank_moveClient]
  by_cases hYX : Y = X
  · subst hYX
    rw [if_pos hX] at hnote
    have htake := BankView.moves_transit ((s.bank (P.home Y)).traffic P (P.home Y) Y)
      (count_take (T := T) hnote)
    rw [clients_moveClient]
    refine Agreement.message
      (n := { src := m.src, dst := p.dst, op := m.op, forwardTo := m.forwardTo })
      ha (htake.pos (by simp) (by simp)) ht
      (htake.trans (?_ : Flight.Moves _ _ [] (t.notes (P.home Y) p.dst)))
    refine BankView.moves_withOut fun k => ?_
    rw [Plan.count_add, Plan.count_clientPosts hXX, List.count_nil]
    rfl
  · rw [if_neg (by rw [hX]; exact Ne.symm hYX)] at hnote
    rw [clients_moveClient_ne hYX]
    refine agree_aside ha hnote fun k => ?_
    rw [Plan.count_add, Plan.count_clientPosts_ne hXX (Ne.symm hYX)]
    rfl

/-- A bank takes a request up, which is then held back there. -/
theorem agree_arrive {m : CoherenceMessage} (hs : s.Sound P) (hb : P.role p.dst = some .bank)
    (hp : s.transit = p ::ₘ T) (hm : p.payload = .coherence m) (Y : Addr) :
    (((s.consume P p T).setBank p.dst ((s.bank p.dst).hold m)).bank (P.home Y)).Agrees P (P.home Y)
      Y (s.clients Y) (P.creditTo p.dst p.src ::ₘ T) := by
  obtain ⟨-, hsrc, hfwd, hhome, -⟩ := request_fits (hs.fits_taken hp) hb hm
  have hnote := note?_coherence (P := P) (X := Y) hm
  have ha := hs.agree Y
  rw [hp] at ha
  by_cases hY : P.home Y = p.dst
  · -- the message goes from transit to what the bank holds back, so it is still on its way
    rw [hY] at ha ⊢
    rw [bank_setBank]
    refine Agreement.congr ha rfl fun k => ?_
    show P.count Y (P.creditTo p.dst p.src ::ₘ T + _) k = _
    rw [Plan.count_add, Plan.count_add, BankView.count_hold, Plan.count_cons, Plan.count_cons,
      hnote, Plan.note?_credit, Plan.note?_letter, Option.toList_none, List.count_nil]
    omega
  · have hne : P.lineOf m.addr ≠ Y := by
      rintro rfl
      exact hY hhome
    rw [if_neg hne] at hnote
    rw [bank_setBank_ne hY]
    exact agree_aside ha hnote fun _ => rfl

/-- A bank takes a client's reply, and the manager of the line goes on. -/
theorem agree_reply {m : CoherenceMessage} {l : ManagerLine} {d : Bool} {t : ManagerTransition}
    (hs : s.Sound P) (hb : P.role p.dst = some .bank) (hp : s.transit = p ::ₘ T)
    (hm : p.payload = .coherence m) (hX : P.lineOf m.addr = X)
    (hl : (s.bank p.dst).line X = some { controller := l, dirty := d })
    (ht : l.onReply m.op m.src = some t) (Y : Addr) :
    (((s.consume P p T).setBank p.dst ((s.bank p.dst).put X
        (some { controller := t.next, dirty := d || t.returnsData })
        (P.managerPosts p.dst X t.actions))).bank (P.home Y)).Agrees P (P.home Y) Y (s.clients Y)
      (P.creditTo p.dst p.src ::ₘ T) := by
  obtain ⟨-, hsrc, hfwd, hhome, -⟩ := request_fits (hs.fits_taken hp) hb hm
  have hXX : P.lineOf X = X := by rw [← hX, P.lineOf_lineOf]
  rw [hX] at hhome
  refine agree_take hs hp hXX hhome (fun Z hZ => ?_) ?_ Y
  · rw [note?_coherence hm, if_neg (by rw [hX]; exact Ne.symm hZ)]
  · have ha := hs.agree X
    have hnote := note?_coherence (P := P) (X := X) hm
    rw [if_pos hX, hfwd] at hnote
    have htake := BankView.moves_transit ((s.bank p.dst).traffic P p.dst X)
      (count_take (T := T) hnote)
    rw [hhome, hp] at ha
    unfold BankView.Agrees at ha ⊢
    rw [BankView.manager_eq hl] at ha
    rw [BankView.manager_put]
    exact Agreement.reply ha (htake.pos (by simp) (by simp)) ht
      (htake.trans (BankView.moves_put hXX hl t _))

/-- A bank gets the data of a line, and the manager takes up the request that waited for it. -/
theorem agree_fetched {m : MemoryMessage} {q : CoherenceMessage} {l : ManagerLine} {d : Bool}
    {t : ManagerTransition} (hs : s.Sound P) (hb : P.role p.dst = some .bank)
    (hp : s.transit = p ::ₘ T) (hm : p.payload = .memory m) (hX : P.lineOf m.addr = X)
    (hl : (s.bank p.dst).line X
      = some { controller := l, dirty := d, request := some q, asked := true })
    (ht : l.onRequest q.op q.src = some t) (Y : Addr) :
    (((s.consume P p T).setBank p.dst ((s.bank p.dst).put X
        (some { controller := t.next, dirty := d || t.returnsData })
        (P.managerPosts p.dst X t.actions))).bank (P.home Y)).Agrees P (P.home Y) Y (s.clients Y)
      (P.creditTo p.dst p.src ::ₘ T) := by
  obtain ⟨hpq, hXX, -⟩ := supplied_fits (hs.fits_taken hp) hb hm
  rw [hX] at hXX
  subst hXX
  have hfit := (hs.orderly p.dst).lines m.addr _ hl
  obtain ⟨hasks, hqX, -⟩ := hfit.request q rfl
  have hnote : ∀ Z, P.note? Z p = none := fun Z => note?_plain (by rw [hm]; exact nofun)
  refine agree_take hs hp hX hfit.home (fun Z _ => hnote Z) ?_ Y
  -- the packet from memory says nothing about the line; what goes on is the request that
  -- waited, which was held back until now
  have ha : BankView.Agrees P _ _ _ _ (P.creditTo p.dst p.src ::ₘ T) :=
    (hs.agree m.addr).transit fun k => by rw [hp]; exact count_consume (hnote _) k
  have hmoves := BankView.moves_fetch (T := P.creditTo p.dst p.src ::ₘ T) hX hl hasks hqX t
    (d || t.returnsData)
  rw [hfit.home] at ha
  unfold BankView.Agrees at ha ⊢
  rw [BankView.manager_eq hl] at ha
  rw [BankView.manager_put]
  refine Agreement.request ha (hmoves.pos (by simp) fun hmem => ?_) ht hmoves
  have hop := hasks.opens
  rw [Opcode.not_opens_of_toClient (ManagerLine.toClient_of_onRequest p.dst ht _ hmem)] at hop
  cases hop

/-- Every step keeps every line in agreement. -/
theorem Step.agree (h : Step P r s s') (hs : s.Sound P) (Y : Addr) :
    (s'.bank (P.home Y)).Agrees P (P.home Y) Y (s'.clients Y) s'.transit := by
  have ha := hs.agree Y
  cases h with
  | access hn hX ht => exact agree_access hs hX ht Y
  | message hn hp hm hX ht => exact agree_message hs hp hm hX ht Y
  -- what a bank does by itself is seen by the lines that are mapped to it
  | @work _ b w hb hw =>
    rw [clients_setBank]
    by_cases hY : P.home Y = b
    · subst hY
      rw [bank_setBank]
      exact hw.agrees (hs.orderly _) ha
    · rw [bank_setBank_ne hY]
      refine ha.withOut fun k => ?_
      rw [hw.count_out (hs.orderly b) hY]
      rfl
  | arrive hb hp hm hk =>
    rw [clients_setBank]
    exact agree_arrive hs hb hp hm Y
  | reply hb hp hm hX hl ht =>
    rw [clients_setBank]
    exact agree_reply hs hb hp hm hX hl ht Y
  | fetched hb hp hm hX hl ht =>
    rw [clients_setBank]
    exact agree_fetched hs hb hp hm hX hl ht Y
  | read hr hp hm hop =>
    rw [hp] at ha
    refine agree_aside ha (note?_plain (by rw [hm]; exact nofun)) fun k => ?_
    rw [Plan.count_add, Plan.count_singleton]
    rfl
  | write hr hp hm hop =>
    refine ha.transit fun k => ?_
    rw [hp]
    exact count_consume (note?_plain (by rw [hm]; exact nofun)) k
  | @refund _ _ p T hr hp hm =>
    show ((s.setCredits p.dst _).bank (P.home Y)).Agrees P (P.home Y) Y
      ((s.setCredits p.dst _).clients Y) T
    rw [bank_setCredits, clients_setCredits]
    refine ha.transit fun k => ?_
    rw [hp, Plan.count_cons, note?_plain (by rw [hm]; exact nofun), Option.toList_none,
      List.count_nil, Nat.zero_add]
  | @leave _ _ p R k hr hp hc hk =>
    show (((s.setCredits p.src k).bank (P.home Y)).withOut R).Agrees P (P.home Y) Y
      ((s.setCredits p.src k).clients Y) (p ::ₘ s.transit)
    rw [bank_setCredits, clients_setCredits]
    refine ha.withOut fun n => ?_
    show _ = P.count Y s.outgoing n + _
    rw [hp, Plan.count_cons, Plan.count_cons]
    omega

/-! ## Banks -/

theorem orderly_setBank (hs : ∀ c, (s.bank c).Orderly P c) {b : NodeId} {w : BankView}
    (hw : w.Orderly P b) (c : NodeId) : ((s.setBank b w).bank c).Orderly P c := by
  by_cases hc : c = b
  · subst hc
    rw [bank_setBank]
    exact hw
  · rw [bank_setBank_ne hc]
    exact (hs c).withOut _

/-- Every step leaves every bank with what belongs to it. -/
theorem Step.orderly (h : Step P r s s') (hs : s.Sound P) (b : NodeId) :
    (s'.bank b).Orderly P b := by
  have hb := hs.orderly b
  cases h with
  | access hn hX ht =>
    rw [bank_moveClient]
    exact hb.withOut _
  | message hn hp hm hX ht =>
    rw [bank_moveClient]
    exact hb.withOut _
  | work _ hw => exact orderly_setBank hs.orderly (hw.orderly (hs.orderly _)) b
  | @arrive _ p m T hd hp hm hk =>
    obtain ⟨-, hsrc, hfwd, hhome, hkind⟩ := request_fits (hs.fits_taken hp) hd hm
    have hasks : P.Asks p.dst m := by
      refine ⟨hsrc, ?_, hfwd, hhome⟩
      rcases hkind with ⟨-, hop⟩ | ⟨hk', -⟩
      · exact hop
      · rw [hk] at hk'
        cases hk'
    refine orderly_setBank (s := s.consume P p T) (w := (s.bank p.dst).hold m) hs.orderly
      ⟨fun m' hm' => ?_, (hs.orderly p.dst).lines⟩ b
    rcases Multiset.mem_cons.1 hm' with rfl | hm'
    · exact hasks
    · exact (hs.orderly p.dst).held m' hm'
  | @reply _ p m X l d t T hd hp hm hX hl ht =>
    obtain ⟨-, hsrc, -⟩ := request_fits (hs.fits_taken hp) hd hm
    have hfit := (hs.orderly p.dst).lines X _ hl
    have hnames := (ManagerLine.onReply_names p.dst hfit.names hsrc ht).1
    refine orderly_setBank (s := s.consume P p T) hs.orderly ((hs.orderly p.dst).put ?_) b
    rintro _ ⟨⟩
    exact BankView.fits_settled hfit hnames
  | @fetched _ p m q X l d t T hd hp hm hX hl ht =>
    have hfit := (hs.orderly p.dst).lines X _ hl
    obtain ⟨hasks, -⟩ := hfit.request q rfl
    have hnames : t.next.Names _ ∧ ∀ n ∈ t.notes p.dst, n.Names _ :=
      ManagerLine.onRequest_names hfit.names hasks.src ht
    refine orderly_setBank (s := s.consume P p T) hs.orderly ((hs.orderly p.dst).put ?_) b
    rintro _ ⟨⟩
    exact BankView.fits_settled hfit hnames.1
  | read => exact hb.withOut _
  | write => exact hb
  | @refund _ _ p =>
    show ((s.setCredits p.dst _).bank b).Orderly P b
    rw [bank_setCredits]
    exact hb
  | @leave _ _ p R k =>
    show (((s.setCredits p.src k).bank b).withOut R).Orderly P b
    rw [bank_setCredits]
    exact hb.withOut R

/-! ## Packets -/

/-- What is left once a packet is taken fits, and so does what is sent then. -/
theorem fits_consume (hs : s.Sound P) (hp : s.transit = p ::ₘ T) (hc : p.isCredit = false)
    {out : Multiset Packet} (hout : ∀ q ∈ out, q ∈ s.outgoing ∨ P.Fits q) :
    ∀ q ∈ out + (P.creditTo p.dst p.src ::ₘ T), P.Fits q := by
  intro q hq
  rcases Multiset.mem_add.1 hq with hq | hq
  · exact (hout q hq).elim (fun hq => hs.fits_outgoing hq) id
  · rcases Multiset.mem_cons.1 hq with rfl | hq
    · exact .credit ((hs.fits_taken hp).role_src hc)
    · exact hs.fits_transit (by rw [hp]; exact Multiset.mem_cons_of_mem hq)

theorem not_credit_of_payload {m : Payload} (hm : p.payload = m) (h : m ≠ .credit) :
    p.isCredit = false := by
  unfold Packet.isCredit
  split
  · next hc => exact absurd (hm.symm.trans hc) h
  · rfl

/-- Every step puts packets that fit on their way. -/
theorem Step.fits (h : Step P r s s') (hs : s.Sound P) :
    ∀ p ∈ s'.outgoing + s'.transit, P.Fits p := by
  cases h with
  | @access _ n X op t hn hX ht =>
    intro q hq
    rcases Multiset.mem_add.1 hq with hq | hq
    · rcases Multiset.mem_add.1 hq with hq | hq
      · exact hs.fits_outgoing hq
      · exact (Plan.fits_of_onProcessor hn hX ht hq).1
    · exact hs.fits_transit hq
  | @message _ p m X t T hn hp hm hX ht =>
    have hXX : P.lineOf X = X := by rw [← hX, P.lineOf_lineOf]
    obtain ⟨-, -, hfwd, -⟩ := message_fits (hs.fits_taken hp) hn hm
    refine fits_consume hs hp (not_credit_of_payload hm nofun) fun q hq => ?_
    exact (Multiset.mem_add.1 hq).imp_right fun hq =>
      (Plan.fits_of_onMessage hn hXX hfwd ht hq).1
  | work hb hw =>
    intro q hq
    rcases Multiset.mem_add.1 hq with hq | hq
    · exact (hw.fits (hs.orderly _) hq).elim hs.fits_outgoing And.left
    · exact hs.fits_transit hq
  | arrive hb hp hm hk =>
    exact fits_consume hs hp (not_credit_of_payload hm nofun) fun q hq => .inl hq
  | @reply _ p m X l d t T hb hp hm hX hl ht =>
    obtain ⟨-, hsrc, -⟩ := request_fits (hs.fits_taken hp) hb hm
    have hfit := (hs.orderly p.dst).lines X _ hl
    have hnames := (ManagerLine.onReply_names p.dst hfit.names hsrc ht).2
    refine fits_consume hs hp (not_credit_of_payload hm nofun) fun q hq => ?_
    refine (Multiset.mem_add.1 hq).imp_right fun hq => ?_
    refine (BankView.fits_managerPosts hfit.aligned hfit.home hnames (fun n hn => ?_) hq).1
    rw [ManagerLine.grantE_of_onReply p.dst ht n hn]
    rfl
  | @fetched _ p m q X l d t T hb hp hm hX hl ht =>
    have hfit := (hs.orderly p.dst).lines X _ hl
    obtain ⟨hasks, -⟩ := hfit.request q rfl
    have hnames : ∀ n ∈ t.notes p.dst, n.Names _ :=
      (ManagerLine.onRequest_names hfit.names hasks.src ht).2
    refine fits_consume hs hp (not_credit_of_payload hm nofun) fun q hq => ?_
    refine (Multiset.mem_add.1 hq).imp_right fun hq => ?_
    exact (BankView.fits_managerPosts hfit.aligned hfit.home hnames
      (ManagerLine.toClient_of_onRequest p.dst ht) hq).1
  | @read _ p m T hr hp hm hop =>
    obtain ⟨-, hX, -⟩ := ask_fits (hs.fits_taken hp) hr hm
    refine fits_consume hs hp (not_credit_of_payload hm nofun) fun q hq => ?_
    refine (Multiset.mem_add.1 hq).imp_right fun hq => ?_
    rw [Multiset.mem_singleton.1 hq]
    exact .supplied hX
  | write hr hp hm hop =>
    exact fits_consume hs hp (not_credit_of_payload hm nofun) fun q hq => .inl hq
  | refund hr hp hm =>
    intro q hq
    rcases Multiset.mem_add.1 hq with hq | hq
    · exact hs.fits_outgoing hq
    · exact hs.fits_transit (by rw [hp]; exact Multiset.mem_cons_of_mem hq)
  | @leave _ _ p R k hr hp hc hk =>
    intro q hq
    rcases Multiset.mem_add.1 hq with hq | hq
    · exact hs.fits_outgoing (by rw [hp]; exact Multiset.mem_cons_of_mem hq)
    · rcases Multiset.mem_cons.1 hq with rfl | hq
      · exact hs.fits_outgoing (by rw [hp]; exact Multiset.mem_cons_self q R)
      · exact hs.fits_transit hq

/-! ## Memory -/

theorem fetches_coherence {m : CoherenceMessage} (hm : p.payload = .coherence m) :
    p.fetches X = false := by
  simp [Packet.fetches, hm]

/-- Taking a packet that has nothing to do with fetching `X`. -/
theorem fetches_consume (h : p.fetches X = false) :
    tally (Packet.fetches X) (P.creditTo p.dst p.src ::ₘ T)
      = tally (Packet.fetches X) (p ::ₘ T) := by
  rw [tally_cons, tally_cons, h]
  rfl

/-- The lines that memory has been asked for, after a bank has become `w`. -/
theorem isAsked_setBank {b : NodeId} {w : BankView} (c : NodeId)
    (hw : BankLine.isAsked (w.line X) = BankLine.isAsked ((s.bank b).line X)) :
    BankLine.isAsked (((s.setBank b w).bank c).line X) = BankLine.isAsked ((s.bank c).line X) := by
  by_cases hc : c = b
  · subst hc
    rw [bank_setBank, hw]
  · rw [bank_setBank_ne hc]
    rfl

/-- A line whose data is there is not asked for, before and after a change. -/
theorem isAsked_put {w : BankView} {l l' : ManagerLine} {d d' : Bool} {posts : Multiset Packet}
    (hl : w.line X = some { controller := l, dirty := d }) (Y : Addr) :
    BankLine.isAsked ((w.put X (some { controller := l', dirty := d' }) posts).line Y)
      = BankLine.isAsked (w.line Y) := by
  by_cases hYX : Y = X
  · rw [hYX, BankView.put_line, hl]
    rfl
  · rw [BankView.put_line_ne _ hYX]

/-- What a bank does by itself leaves memory owing what it has been asked for. -/
theorem fetches_work {b : NodeId} {w : BankView} (hs : s.Sound P)
    (hw : BankView.Step P b (s.bank b) w) (X : Addr) :
    tally (Packet.fetches X) w.out + tally (Packet.fetches X) s.transit
      = (BankLine.isAsked (((s.setBank b w).bank (P.home X)).line X)).toNat := by
  have hX := hs.fetches X
  have hstep := hw.fetches X
  change tally _ w.out + _ = tally _ s.outgoing + _ at hstep
  by_cases hhome : P.home X = b
  · subst hhome
    rw [bank_setBank]
    omega
  · -- a bank keeps nothing of a line of another bank
    have hnone : ∀ {w : BankView}, w.Orderly P b → w.line X = none := by
      intro w hw
      cases hl : w.line X with
      | none => rfl
      | some l => exact absurd (hw.lines X l hl).home hhome
    rw [hnone (hs.orderly b), hnone (hw.orderly (hs.orderly b))] at hstep
    rw [bank_setBank_ne hhome]
    show _ = (BankLine.isAsked ((s.bank (P.home X)).line X)).toNat
    omega

/-- Memory no longer owes the line that a bank has got. -/
theorem fetches_fetched {m : MemoryMessage} {q : CoherenceMessage} {l l' : ManagerLine}
    {d d' : Bool}
    {posts : Multiset Packet} (hs : s.Sound P) (hb : P.role p.dst = some .bank)
    (hp : s.transit = p ::ₘ T) (hm : p.payload = .memory m) (hY : P.lineOf m.addr = Y)
    (hl : (s.bank p.dst).line Y
      = some { controller := l, dirty := d, request := some q, asked := true }) (X : Addr) :
    tally (Packet.fetches X) s.outgoing + tally (Packet.fetches X) (P.creditTo p.dst p.src ::ₘ T)
      = (BankLine.isAsked ((((s.consume P p T).setBank p.dst ((s.bank p.dst).put Y
          (some { controller := l', dirty := d' }) posts)).bank (P.home X)).line X)).toNat := by
  have hX := hs.fetches X
  rw [hp] at hX
  obtain ⟨-, hYY, hop⟩ := supplied_fits (hs.fits_taken hp) hb hm
  rw [hY] at hYY
  subst hYY
  have hfit := (hs.orderly p.dst).lines m.addr _ hl
  by_cases hXm : X = m.addr
  · subst hXm
    have hcredit : (P.creditTo p.dst p.src).fetches m.addr = false := rfl
    have hsupplied : p.fetches m.addr = true := by simp [Packet.fetches, hm, hop]
    rw [hfit.home] at hX ⊢
    rw [bank_setBank, BankView.put_line, tally_cons, hcredit]
    rw [hl, tally_cons, hsupplied] at hX
    simp only [BankLine.isAsked, Option.any_some, Bool.toNat_true, Bool.toNat_false] at hX ⊢
    omega
  · rw [isAsked_setBank (s := s.consume P p T) (P.home X)
      (by rw [BankView.put_line_ne _ hXm]; rfl)]
    rw [fetches_consume (by simp [Packet.fetches, hm, Ne.symm hXm])]
    exact hX

/-- Every step leaves memory owing what it has been asked for. -/
theorem Step.fetches (h : Step P r s s') (hs : s.Sound P) (X : Addr) :
    tally (Packet.fetches X) s'.outgoing + tally (Packet.fetches X) s'.transit
      = (BankLine.isAsked ((s'.bank (P.home X)).line X)).toNat := by
  have hX := hs.fetches X
  cases h with
  | @access _ n Y op t hn hY ht =>
    rw [bank_moveClient]
    show tally _ (s.outgoing + P.clientPosts n Y t.actions) + _ = _
    rw [tally_add, BankView.fetches_clientPosts]
    exact hX
  | @message _ p m Y t T hn hp hm hY ht =>
    rw [bank_moveClient]
    show tally _ (s.outgoing + P.clientPosts p.dst Y t.actions)
      + tally _ (P.creditTo p.dst p.src ::ₘ T) = _
    rw [tally_add, BankView.fetches_clientPosts, fetches_consume (fetches_coherence hm), ← hp]
    exact hX
  | work hb hw => exact fetches_work hs hw X
  | @arrive _ p m T hb hp hm hk =>
    rw [isAsked_setBank (s := s.consume P p T) (w := (s.bank p.dst).hold m) (P.home X) rfl]
    show tally _ s.outgoing + tally _ (P.creditTo p.dst p.src ::ₘ T) = _
    rw [fetches_consume (fetches_coherence hm), ← hp]
    exact hX
  -- the line was asked for neither before nor after, since its data is there
  | @reply _ p m Y l d t T hb hp hm hY hl ht =>
    rw [isAsked_setBank (s := s.consume P p T) (P.home X) (isAsked_put hl X)]
    show tally _ (s.outgoing + P.managerPosts p.dst Y t.actions)
      + tally _ (P.creditTo p.dst p.src ::ₘ T) = _
    rw [tally_add, BankView.fetches_managerPosts, fetches_consume (fetches_coherence hm), ← hp]
    exact hX
  | @fetched _ p m q Y l d t T hb hp hm hY hl ht =>
    show tally _ (s.outgoing + P.managerPosts p.dst Y t.actions)
      + tally _ (P.creditTo p.dst p.src ::ₘ T) = _
    rw [tally_add, BankView.fetches_managerPosts]
    exact fetches_fetched hs hb hp hm hY hl X
  -- the answer takes the place of the question
  | @read _ p m T hr hp hm hop =>
    show tally _ (s.outgoing + {P.suppliedPacket m.addr})
      + tally _ (P.creditTo p.dst p.src ::ₘ T)
        = (BankLine.isAsked ((s.bank (P.home X)).line X)).toNat
    have hcredit : (P.creditTo p.dst p.src).fetches X = false := rfl
    have hsame : (P.suppliedPacket m.addr).fetches X = p.fetches X := by
      simp only [Packet.fetches, Plan.suppliedPacket, hm, hop]
      rfl
    rw [hp, tally_cons] at hX
    rw [tally_add, tally_singleton, tally_cons, hcredit, hsame, ← hX, Bool.toNat_false]
    omega
  | @write _ p m T hr hp hm hop =>
    show tally _ s.outgoing + tally _ (P.creditTo p.dst p.src ::ₘ T) = _
    rw [fetches_consume (by simp [Packet.fetches, hm, hop]), ← hp]
    exact hX
  | @refund _ _ p T hr hp hm =>
    have hcredit : p.fetches X = false := by simp [Packet.fetches, hm]
    show tally _ s.outgoing + tally _ T
      = (BankLine.isAsked (((s.setCredits p.dst _).bank (P.home X)).line X)).toNat
    rw [bank_setCredits]
    rw [hp, tally_cons, hcredit, Bool.toNat_false, Nat.zero_add] at hX
    exact hX
  | @leave _ _ p R k hr hp hc hk =>
    show tally _ R + tally _ (p ::ₘ s.transit)
      = (BankLine.isAsked (((s.setCredits p.src k).bank (P.home X)).line X)).toNat
    rw [bank_setCredits, tally_cons, ← hX, hp, tally_cons]
    omega

/-! ## Credits -/

theorem standsFor_sender (hc : p.isCredit = false) (n : NodeId) :
    p.standsFor n = (p.src == n) := by
  rw [Packet.standsFor, hc]
  rfl

/-- The receiver of a packet returns its sender's credit. -/
theorem standsFor_consume (hc : p.isCredit = false) (n : NodeId) :
    tally (Packet.standsFor n) (P.creditTo p.dst p.src ::ₘ T)
      = tally (Packet.standsFor n) (p ::ₘ T) := by
  rw [tally_cons, tally_cons, standsFor_sender hc]
  rfl

theorem credits_setCredits {n : NodeId} (k : Nat) : ((s.setCredits n k).node n).credits = k := by
  simp only [setCredits, update_self]

theorem credits_setCredits_ne {n c : NodeId} (h : c ≠ n) (k : Nat) :
    ((s.setCredits n k).node c).credits = (s.node c).credits := by
  simp only [setCredits, update_of_ne h]

/-- No step loses a credit. -/
theorem Step.credit (h : Step P r s s') (hs : s.Sound P) (n : NodeId) :
    (s'.node n).credits + tally (Packet.standsFor n) s'.transit = P.quota n := by
  have hn := hs.credit n
  -- a packet is taken, and the credits stay where they are
  have htake : ∀ {p : Packet} {T : Multiset Packet} {m : Payload}, s.transit = p ::ₘ T →
      p.payload = m → m ≠ .credit →
      (s.node n).credits + tally (Packet.standsFor n) (P.creditTo p.dst p.src ::ₘ T)
        = P.quota n := by
    intro p T m hp hm hne
    rw [standsFor_consume (not_credit_of_payload hm hne), ← hp]
    exact hn
  cases h with
  | access =>
    rw [credits_moveClient]
    exact hn
  | message _ hp hm =>
    rw [credits_moveClient]
    exact htake hp hm nofun
  | work =>
    rw [credits_setBank]
    exact hn
  | arrive _ hp hm | reply _ hp hm | fetched _ hp hm =>
    rw [credits_setBank]
    exact htake hp hm nofun
  | read _ hp hm | write _ hp hm => exact htake hp hm nofun
  -- a credit that is returned no longer stands for the packet it was spent on
  | @refund _ _ p T hr hp hm =>
    have hstands : p.standsFor n = (p.dst == n) := by
      simp [Packet.standsFor, Packet.isCredit, hm]
    show ((s.setCredits p.dst _).node n).credits + tally _ T = _
    rw [hp, tally_cons, hstands] at hn
    by_cases hdst : n = p.dst
    · subst hdst
      rw [credits_setCredits]
      rw [beq_self_eq_true, Bool.toNat_true] at hn
      omega
    · rw [credits_setCredits_ne hdst]
      rwa [beq_false_of_ne (Ne.symm hdst), Bool.toNat_false, Nat.zero_add] at hn
  -- a credit is spent on the packet that leaves
  | @leave _ _ p R k hr hp hc hk =>
    show ((s.setCredits p.src k).node n).credits + tally _ (p ::ₘ s.transit) = _
    rw [tally_cons, standsFor_sender hc]
    by_cases hsrc : n = p.src
    · subst hsrc
      rw [credits_setCredits, beq_self_eq_true, Bool.toNat_true]
      omega
    · rw [credits_setCredits_ne hsrc, beq_false_of_ne (Ne.symm hsrc), Bool.toNat_false,
        Nat.zero_add]
      exact hn

/-! ## Soundness -/

/-- Every step keeps a scene sound. -/
theorem Step.sound (h : Step P r s s') (hs : s.Sound P) : s'.Sound P where
  agree := h.agree hs
  orderly := h.orderly hs
  fits := h.fits hs
  fetches := h.fetches hs
  credit := h.credit hs

/-- So does every run. -/
theorem Run.sound (h : Run P r s s') (hs : s.Sound P) : s'.Sound P := by
  induction h with
  | refl => exact hs
  | tail _ hstep ih => exact hstep.sound ih

end CacheCoherence.Scene
