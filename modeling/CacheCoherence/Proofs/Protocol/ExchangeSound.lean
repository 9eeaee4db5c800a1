import CacheCoherence.Proofs.Protocol.Order

/-!
# Exchange, sound — no order of events breaks the protocol

The invariant of an exchange puts together the agreement about the line, the nodes that
its messages are for and the order in which a client's requests arrive. Every event
keeps it, and where it holds no table refuses anything.
-/

namespace CacheCoherence

open Function (update update_self update_of_ne)

/-- The manager's word on an eviction is the only note on its way, and it goes to the
holder of the only copy. -/
theorem Phase.of_grantI {home : NodeId} {cl : NodeId → ClientState} {l : ManagerLine}
    {served : Option NodeId} {notes : List Note} {n : Note} (h : Phase home cl l served notes)
    (hn : n ∈ notes) (hop : n.op = .grantI) :
    notes = [n] ∧ n = { src := home, dst := n.dst, op := .grantI } ∧ l.isStable = false := by
  have hall : ∀ n ∈ notes, n.op = .grantI → l.state = .EIPut ∧
      notes = [{ src := home, dst := n.dst, op := .grantI }] := by
    cases h with
    | returning hs =>
      intro n hn _
      obtain rfl := List.mem_singleton.1 hn
      exact ⟨hs, rfl⟩
    | halved _ _ _ hc =>
      intro n hn hop
      obtain ⟨-, -, ho⟩ := hc n hn
      rcases ho with ho | ho | ho <;> simp [ho] at hop
    | halving _ _ _ hc =>
      intro n hn hop
      rcases List.mem_cons.1 hn with rfl | hn
      · cases hop
      · obtain ⟨-, -, ho⟩ := hc n hn
        rcases ho with ho | ho | ho <;> simp [ho] at hop
    | passed _ _ _ hd | revoked _ _ hd =>
      intro n hn hop
      obtain rfl := List.mem_singleton.1 hn
      rcases hd with rfl | rfl <;> cases hop
    | recalling | dissolving =>
      intro n hn hop
      rcases List.mem_append.1 hn with hn | hn <;> obtain ⟨c, -, rfl⟩ := List.mem_map.1 hn <;>
        cases hop
    | _ => simp
  obtain ⟨hs, hnotes⟩ := hall n hn hop
  rw [hnotes] at hn ⊢
  have heq := List.mem_singleton.1 hn
  exact ⟨by rw [← heq], heq, by simp [ManagerLine.isStable, hs, ManagerState.isStable]⟩

/-- On a stable line a client that holds the only copy is the recorded owner. -/
theorem Agreement.owner_of_sole {home : NodeId} {cl : NodeId → ClientState} {l : ManagerLine}
    {f : Flight} (h : Agreement home cl l f) (hs : l.isStable = true) {c : NodeId} :
    (cl c).hold = .sole ↔ l.state = .E ∧ l.owner = some c := by
  obtain ⟨served, notes, hp, -⟩ := h.phase
  obtain ⟨-, ⟨hl, hn⟩ | ⟨o, hl, ho, hsole⟩ | ⟨hl, ha⟩⟩ := hp.stable hs
  · simp [hl, hn c]
  · constructor
    · intro hc
      refine ⟨hl, ?_⟩
      by_cases hco : c = o
      · rw [hco, ho]
      · simp [hsole.2 c hco] at hc
    · rintro ⟨-, hc⟩
      obtain rfl : o = c := Option.some.inj (ho.symm.trans hc)
      exact hsole.1
  · simp [hl, (ha c).1]

/-- The manager gives its word on the eviction of the recorded owner alone. -/
theorem ManagerLine.count_grantI {l : ManagerLine} {op : Opcode} {src home c : NodeId}
    {t : ManagerTransition} (ht : l.onRequest op src = some t) :
    0 < (t.notes home).count { src := home, dst := c, op := .grantI } ↔
      c = src ∧ op.isEviction = true ∧ l.state = .E ∧ l.owner = some src := by
  rw [List.count_pos_iff]
  unfold onRequest at ht
  split at ht
  case h_5 | h_6 =>
    obtain ⟨o, -, rfl⟩ := Option.map_eq_some_iff.1 ht
    simp [ManagerTransition.notes, ManagerAction.note?, Opcode.isEviction]
  case h_7 hs | h_8 hs =>
    split at ht <;> cases ht <;>
      simp_all [ManagerTransition.notes, ManagerAction.note?, Opcode.isEviction]
  case h_12 =>
    dsimp only at ht
    split at ht <;> cases ht
    · simp [ManagerTransition.notes, ManagerAction.note?, Opcode.isEviction]
    · simp [ManagerTransition.notes, demands_notes, demandsTo, Opcode.isEviction]
  case h_13 => cases ht
  all_goals
    cases ht
    simp_all [ManagerTransition.notes, ManagerAction.note?, Opcode.isEviction]

namespace Exchange

variable (p : Parties)

/-- The manager's word on the eviction of `c` is on its way. -/
def Granted (x : Exchange) (c : NodeId) : Prop :=
  0 < x.flight { src := p.home, dst := c, op := .grantI }

/-- The invariant of an exchange. -/
structure Sound (x : Exchange) : Prop where
  agreement : Agreement p.home x.client x.line x.flight
  addressed : ∀ s d, ∀ n ∈ x.channel s d, n.src = s ∧ n.dst = d
  opening : ∀ n, 0 < x.flight n → n.op.opens = true →
    n.src ∈ p.clients ∧ n.dst = p.home ∧ n.forwardTo = none
  named : ∀ n, 0 < x.flight n → n.op.toClient = true → n.Names (· ∈ p.clients)
  answering : ∀ n, 0 < x.flight n → n.op.answers = true → n.src ∈ p.clients
  queued : ∀ n ∈ x.queue, n.op.opens = true
  line : x.line.Names (· ∈ p.clients)
  order : ∀ c, InOrder (x.client c) (x.opened p c) (x.Granted p c)

variable {p} {x : Exchange}

theorem sound_initial : initial.Sound p where
  agreement := .initial (fun _ => rfl) rfl fun _ => rfl
  addressed := nofun
  opening := nofun
  named := nofun
  answering := nofun
  queued := nofun
  line := ManagerLine.names_initial _
  order := fun _ => ⟨nofun, nofun⟩

theorem addressed_post (h : ∀ s d, ∀ n ∈ x.channel s d, n.src = s ∧ n.dst = d)
    (notes : List Note) : ∀ s d, ∀ n ∈ (x.post notes).channel s d, n.src = s ∧ n.dst = d := by
  intro s d n hn
  rcases List.mem_append.1 hn with hn | hn
  · exact h s d n hn
  · simpa using (List.mem_filter.1 hn).2

theorem addressed_leave (h : ∀ s d, ∀ n ∈ x.channel s d, n.src = s ∧ n.dst = d)
    {src dst : NodeId} {n : Note} {rest : List Note} (hch : x.channel src dst = n :: rest) :
    ∀ s d, ∀ n ∈ (x.leave src dst rest).channel s d, n.src = s ∧ n.dst = d := by
  intro s d k hk
  simp only [leave] at hk
  split at hk
  · next heq =>
    rw [heq.1, heq.2]
    exact h src dst k (hch ▸ List.mem_cons_of_mem _ hk)
  · exact h s d k hk

/-- What a client sends that opens nothing does not count among what it opened. -/
theorem opened_post_of_not_opens {notes : List Note} (h : ∀ n ∈ notes, n.op.opens = false)
    (c : NodeId) : (x.post notes).opened p c = x.opened p c := by
  rw [opened_post, List.filter_eq_nil_iff.2 fun n hn => by simp [h n hn], List.map_nil,
    List.append_nil]

/-- Taking a note from a channel of the manager takes at most one of what its sender
opened. -/
theorem opened_leave_ne {src dst : NodeId} {rest : List Note} (hd : dst ≠ p.home) (c : NodeId) :
    (x.leave src dst rest).opened p c = x.opened p c := by
  simp only [opened, leave]
  rw [if_neg fun h => hd h.2.symm]

/-- A client whose requests are all taken up has no request on its way. -/
theorem Sound.not_asks (h : x.Sound p) {c : NodeId}
    (hz : x.flight.asked p.home c = 0) : ∀ op ∈ x.opened p c, op.asks = false := by
  intro op hop
  obtain ⟨n, hn, rfl⟩ := List.mem_map.1 hop
  obtain ⟨hmem, hn⟩ := List.mem_filter.1 hn
  obtain ⟨hsrc, hopens⟩ : n.src = c ∧ n.op.opens = true := by simpa using hn
  have hf : 0 < x.flight n := by
    rcases List.mem_append.1 hmem with hmem | hmem
    · exact Nat.lt_of_lt_of_le (List.count_pos_iff.2 hmem) (Nat.le_add_left ..)
    · obtain ⟨hs, hd⟩ := h.addressed _ _ n hmem
      refine Nat.lt_of_lt_of_le (List.count_pos_iff.2 ?_) (Nat.le_add_right ..)
      rwa [hs, hd]
  obtain ⟨-, hdst, hfwd⟩ := h.opening n hf hopens
  have heq : n = { src := c, dst := p.home, op := n.op } := by
    cases n
    simp_all
  unfold Flight.asked at hz
  cases hop : n.op <;> simp [Opcode.asks] <;> rw [heq, hop] at hf <;> omega

/-- While the manager's word on an eviction is on its way, nothing else is that is not
opened by a client. -/
theorem Sound.granted_alone (h : x.Sound p) {c : NodeId} (hg : x.Granted p c) {k : Note}
    (hk : 0 < x.flight k) (hop : k.op.opens = false) :
    k = { src := p.home, dst := c, op := .grantI } ∧ x.flight k = 1 := by
  obtain ⟨served, notes, hp, hcar, -⟩ := h.agreement.phase
  obtain ⟨hnotes, -, -⟩ := hp.of_grantI (hcar.mem hg rfl) rfl
  have hmem := hcar.mem hk hop
  rw [hnotes] at hmem
  have heq := List.mem_singleton.1 hmem
  refine ⟨heq, ?_⟩
  rw [hcar k hop, hnotes, ← heq, List.count_singleton_self]

/-- The manager's word on an eviction names nobody and comes from the manager. -/
theorem Sound.granted_of_note (h : x.Sound p) {n : Note} (hn : 0 < x.flight n)
    (hop : n.op = .grantI) : x.Granted p n.dst := by
  obtain ⟨served, notes, hp, hcar, -⟩ := h.agreement.phase
  obtain ⟨-, heq, -⟩ := hp.of_grantI (hcar.mem hn (by rw [hop]; rfl)) hop
  unfold Granted
  rwa [← heq]

/-- A stable line has no word on an eviction on its way. -/
theorem Sound.not_granted (h : x.Sound p) (hs : x.line.isStable = true) (c : NodeId) :
    ¬ x.Granted p c := by
  intro hg
  obtain ⟨served, notes, hp, hcar, -⟩ := h.agreement.phase
  obtain ⟨-, -, hns⟩ := hp.of_grantI (hcar.mem hg rfl) rfl
  simp [hs] at hns

/-! ## Events at the clients -/

/-- A processor accesses or evicts the line. -/
theorem Sound.access (h : x.Sound p) {c : NodeId} (hc : c ∈ p.clients) {op : ProcessorOp}
    {t : ClientTransition} (ht : (x.client c).onProcessor op = some t) :
    (({ x with client := update x.client c t.next }).post (t.notes p.home c)).Sound p := by
  have hfl := flight_post { x with client := update x.client c t.next } (t.notes p.home c)
  have hnames := ClientState.onProcessor_names p.home c ht
  have hfresh : ∀ n, n.op.opens = false → (t.notes p.home c).count n = 0 := fun n hn =>
    List.count_eq_zero.2 fun hmem => by simp [(hnames n hmem).2.2.2] at hn
  constructor
  · exact h.agreement.access ht fun n => by rw [hfl]; rfl
  · exact addressed_post h.addressed _
  · intro n hn hop
    rw [hfl] at hn
    rcases Nat.add_pos_iff_pos_or_pos.1 hn with hn | hn
    · exact h.opening n hn hop
    · obtain ⟨rfl, hdst, hfwd, -⟩ := hnames n (List.count_pos_iff.1 hn)
      exact ⟨hc, hdst, hfwd⟩
  · intro n hn hop
    rw [hfl, hfresh n (Opcode.not_opens_of_toClient hop)] at hn
    exact h.named n hn hop
  · intro n hn hop
    rw [hfl, hfresh n (Opcode.not_opens_of_answers hop)] at hn
    exact h.answering n hn hop
  · exact h.queued
  · exact h.line
  · intro d
    have hg : Granted p (({ x with client := update x.client c t.next }).post
        (t.notes p.home c)) d ↔ x.Granted p d := by
      unfold Granted
      rw [hfl, hfresh _ rfl]
      rfl
    rw [opened_post]
    show InOrder (update x.client c t.next d) _ _
    by_cases hd : d = c
    · subst hd
      rw [List.filter_eq_self.2 fun n hn => by
        obtain ⟨h1, h2, -, h3⟩ := hnames n hn
        simp [h1, h2, h3], update_self, hg]
      exact (h.order d).access ht
    · rw [List.filter_eq_nil_iff.2 fun n hn => by
        simp [(hnames n hn).1, Ne.symm hd], List.map_nil, List.append_nil, update_of_ne hd, hg]
      exact h.order d

/-- Client `c` takes the oldest note that is on its way from `src`, and `t` is its
answer. -/
structure Receives (p : Parties) (x : Exchange) (c src : NodeId) (n : Note) (rest : List Note)
    (t : ClientTransition) : Prop where
  member : c ∈ p.clients
  head : x.channel src c = n :: rest
  answer : (x.client c).onMessage n.op n.forwardTo = some t

/-- The exchange once client `c` has answered a note that was followed by `rest`. -/
def received (p : Parties) (x : Exchange) (c src : NodeId) (rest : List Note)
    (t : ClientTransition) : Exchange :=
  ({ x.leave src c rest with client := update x.client c t.next }).post (t.notes p.home c)

section Receive

variable {c src : NodeId} {n : Note} {rest : List Note} {t : ClientTransition}

theorem Receives.addressed (hr : Receives p x c src n rest t) (h : x.Sound p) :
    n.src = src ∧ n.dst = c :=
  h.addressed src c n (hr.head ▸ List.mem_cons_self)

theorem Receives.pos (hr : Receives p x c src n rest t) (h : x.Sound p) : 0 < x.flight n := by
  have := flight_leave hr.head (hr.addressed h) n
  rw [List.count_singleton_self] at this
  omega

theorem Receives.toClient (hr : Receives p x c src n rest t) : n.op.toClient = true :=
  ClientState.toClient_of_onMessage hr.answer

theorem Receives.moves (hr : Receives p x c src n rest t) (h : x.Sound p) :
    x.flight.Moves (received p x c src rest t).flight [n] (t.notes p.home c) := by
  intro k
  have h1 := flight_leave hr.head (hr.addressed h) k
  have h2 := flight_post { x.leave src c rest with client := update x.client c t.next }
    (t.notes p.home c) k
  have h3 : ({ x.leave src c rest with client := update x.client c t.next } : Exchange).flight k
    = (x.leave src c rest).flight k := rfl
  unfold received
  omega

/-- What the client sends opens nothing and is no word on an eviction. -/
theorem Receives.sends (hr : Receives p x c src n rest t) (h : x.Sound p) :
    ∀ k ∈ t.notes p.home c, k.op.opens = false ∧ k.src = c ∧
      (k.op.toClient = true → k.Names (· ∈ p.clients)) := by
  intro k hk
  have hnames := ClientState.onMessage_names p.home c hr.answer
    (h.named n (hr.pos h) hr.toClient).forwardTo
  obtain ⟨hsrc, hfwd, hdst⟩ := hnames k hk
  refine ⟨ClientState.not_opens_of_onMessage p.home c hr.answer k hk, hsrc, fun hop => ?_⟩
  rcases hdst with ⟨ha, -⟩ | ⟨-, hp⟩
  · cases hko : k.op <;> simp [hko, Opcode.answers, Opcode.toClient] at ha hop
  · exact Note.names_of_none hp hfwd

/-- What is on its way afterwards was so before or is what the client sends. -/
theorem Receives.flight_pos (hr : Receives p x c src n rest t) (h : x.Sound p) {k : Note}
    (hk : 0 < (received p x c src rest t).flight k) : 0 < x.flight k ∨ k ∈ t.notes p.home c := by
  have hm := hr.moves h k
  by_cases hmem : k ∈ t.notes p.home c
  · exact .inr hmem
  · rw [List.count_eq_zero.2 hmem] at hm
    exact .inl (by omega)

theorem Receives.agreement (hr : Receives p x c src n rest t) (h : x.Sound p) :
    Agreement p.home (update x.client c t.next) x.line (received p x c src rest t).flight := by
  have hm := hr.moves h
  obtain ⟨-, rfl⟩ := hr.addressed h
  exact h.agreement.message (hr.pos h) hr.answer hm

theorem Receives.opened_eq (hr : Receives p x c src n rest t) (h : x.Sound p) (d : NodeId) :
    (received p x c src rest t).opened p d = x.opened p d := by
  rw [received, opened_post_of_not_opens fun k hk => (hr.sends h k hk).1]
  exact opened_leave_ne (x := x) (fun hcd => p.home_notMem (hcd ▸ hr.member)) d

/-- The word on an eviction that is still on its way was so before, and it is not what
was taken. -/
theorem Receives.granted (hr : Receives p x c src n rest t) (h : x.Sound p) {d : NodeId}
    (hg : (received p x c src rest t).Granted p d) : x.Granted p d ∧ n.op ≠ .grantI := by
  have hnot : ({ src := p.home, dst := d, op := .grantI } : Note) ∉ t.notes p.home c := by
    intro hmem
    have hsrc : p.home = c := (hr.sends h _ hmem).2.1
    exact p.home_notMem (hsrc ▸ hr.member)
  have hx : x.Granted p d := (hr.flight_pos h hg).resolve_right hnot
  refine ⟨hx, fun hop => ?_⟩
  obtain ⟨heq, hone⟩ := h.granted_alone hx (hr.pos h) (by rw [hop]; rfl)
  have hm := hr.moves h n
  rw [hone, List.count_singleton_self, List.count_eq_zero.2 (heq ▸ hnot)] at hm
  unfold Granted at hg
  rw [← heq] at hg
  omega

theorem Receives.order_self (hr : Receives p x c src n rest t) (h : x.Sound p) :
    InOrder t.next (x.opened p c) ((received p x c src rest t).Granted p c) := by
  have ht := hr.answer
  by_cases hop : n.op = .grantI
  · have hg := h.granted_of_note (hr.pos h) hop
    rw [(hr.addressed h).2] at hg
    rw [hop] at ht
    exact (h.order c).granted_message ht hg fun hg' => (hr.granted h hg').2 hop
  · have hg : ¬ x.Granted p c := by
      intro hg
      obtain ⟨heq, -⟩ := h.granted_alone hg (hr.pos h) (Opcode.not_opens_of_toClient hr.toClient)
      exact hop (by rw [heq])
    have hg' : (received p x c src rest t).Granted p c ↔ x.Granted p c :=
      ⟨fun hy => (hr.granted h hy).1, fun hx => absurd hx hg⟩
    rw [hg']
    refine (h.order c).message ht hop hg fun hw hw' => h.not_asks ?_
    -- a client that awaits no copy any more was being served
    obtain ⟨served, notes, -, -, hb⟩ := (hr.agreement h).phase
    have hb := hb c
    rw [update_self, hw', (hr.moves h).asked_eq
      (by simpa using Opcode.not_asks_of_not_opens (Opcode.not_opens_of_toClient hr.toClient))
      fun k hk => Opcode.not_asks_of_not_opens (hr.sends h k hk).1] at hb
    simp at hb
    exact hb.1

theorem Receives.order_ne (hr : Receives p x c src n rest t) (h : x.Sound p) {d : NodeId}
    (hd : d ≠ c) : InOrder (x.client d) (x.opened p d) ((received p x c src rest t).Granted p d) := by
  have hg : (received p x c src rest t).Granted p d ↔ x.Granted p d := by
    refine ⟨fun hy => (hr.granted h hy).1, fun hx => ?_⟩
    have hne : ({ src := p.home, dst := d, op := .grantI } : Note) ∉ [n] := fun hmem =>
      hd (by rw [← (hr.addressed h).2, ← List.mem_singleton.1 hmem])
    have hnot : ({ src := p.home, dst := d, op := .grantI } : Note) ∉ t.notes p.home c := by
      intro hmem
      have hsrc : p.home = c := (hr.sends h _ hmem).2.1
      exact p.home_notMem (hsrc ▸ hr.member)
    unfold Granted
    rw [(hr.moves h).note_eq hne hnot]
    exact hx
  rw [hg]
  exact h.order d

/-- A client takes the oldest note of a channel. -/
theorem Sound.receive (h : x.Sound p) (hr : Receives p x c src n rest t) :
    (received p x c src rest t).Sound p := by
  constructor
  · exact hr.agreement h
  · exact addressed_post (addressed_leave h.addressed hr.head) _
  · intro k hk hop
    rcases hr.flight_pos h hk with hk | hk
    · exact h.opening k hk hop
    · simp [(hr.sends h k hk).1] at hop
  · intro k hk hop
    rcases hr.flight_pos h hk with hk | hk
    · exact h.named k hk hop
    · exact (hr.sends h k hk).2.2 hop
  · intro k hk hop
    rcases hr.flight_pos h hk with hk | hk
    · exact h.answering k hk hop
    · exact (hr.sends h k hk).2.1 ▸ hr.member
  · exact h.queued
  · exact h.line
  · intro d
    rw [hr.opened_eq h]
    show InOrder (update x.client c t.next d) _ _
    by_cases hd : d = c
    · rw [hd, update_self]
      exact hr.order_self h
    · rw [update_of_ne hd]
      exact hr.order_ne h hd

end Receive

/-! ## Events at the manager -/

/-- The manager makes a transition, having taken some notes: what is left of them in
order is up to the kind of event. -/
theorem Sound.managed (h : x.Sound p) (x' : Exchange) (taken : List Note) {t : ManagerTransition}
    (hcl : x'.client = x.client) (haddr : ∀ s d, ∀ n ∈ x'.channel s d, n.src = s ∧ n.dst = d)
    (hq : ∀ n ∈ x'.queue, n.op.opens = true)
    (hfl : ∀ k, x'.flight k + taken.count k = x.flight k)
    (hagree : ∀ g, x.flight.Moves g taken (t.notes p.home) → Agreement p.home x.client t.next g)
    (hnames : t.next.Names (· ∈ p.clients) ∧ ∀ n ∈ t.notes p.home, n.Names (· ∈ p.clients))
    (hto : ∀ n ∈ t.notes p.home, n.op.toClient = true)
    (horder : ∀ c, InOrder (x.client c) (x'.opened p c) (x'.Granted p c ∨
      0 < (t.notes p.home).count { src := p.home, dst := c, op := .grantI })) :
    (({ x' with line := t.next }).post (t.notes p.home)).Sound p := by
  have hpost : ∀ k, ((({ x' with line := t.next }).post (t.notes p.home)).flight k)
      = x'.flight k + (t.notes p.home).count k :=
    flight_post { x' with line := t.next } (t.notes p.home)
  have hpos : ∀ k, 0 < (({ x' with line := t.next }).post (t.notes p.home)).flight k →
      0 < x.flight k ∨ k ∈ t.notes p.home := by
    intro k hk
    have := hfl k
    rw [hpost] at hk
    rcases Nat.add_pos_iff_pos_or_pos.1 hk with hk | hk
    · exact .inl (by omega)
    · exact .inr (List.count_pos_iff.1 hk)
  have hmoves : x.flight.Moves (({ x' with line := t.next }).post (t.notes p.home)).flight taken
      (t.notes p.home) := by
    intro k
    have := hfl k
    rw [hpost]
    omega
  constructor
  · have hag := hagree _ hmoves
    rwa [← hcl] at hag
  · exact addressed_post haddr _
  · intro k hk hop
    rcases hpos k hk with hk | hk
    · exact h.opening k hk hop
    · simp [Opcode.not_opens_of_toClient (hto k hk)] at hop
  · intro k hk hop
    rcases hpos k hk with hk | hk
    · exact h.named k hk hop
    · exact hnames.2 k hk
  · intro k hk hop
    rcases hpos k hk with hk | hk
    · exact h.answering k hk hop
    · have := hto k hk
      cases hko : k.op <;> simp [hko, Opcode.answers, Opcode.toClient] at this hop
  · exact hq
  · exact hnames.1
  · intro c
    have hg : Granted p (({ x' with line := t.next }).post (t.notes p.home)) c ↔
        x'.Granted p c ∨ 0 < (t.notes p.home).count { src := p.home, dst := c, op := .grantI } := by
      unfold Granted
      rw [hpost]
      exact Nat.add_pos_iff_pos_or_pos
    rw [opened_post_of_not_opens fun k hk => Opcode.not_opens_of_toClient (hto k hk), hg]
    show InOrder (x'.client c) _ _
    rw [hcl]
    exact horder c

/-- What stands at the head of a channel to the manager is on its way, and not for a
client. -/
theorem Sound.head_home (h : x.Sound p) {src : NodeId} {n : Note} {rest : List Note}
    (hch : x.channel src p.home = n :: rest) :
    (n.src = src ∧ n.dst = p.home) ∧ 0 < x.flight n ∧ n.op.toClient = false := by
  have haddr := h.addressed src p.home n (hch ▸ List.mem_cons_self)
  have hpos : 0 < x.flight n := by
    have := flight_leave hch haddr n
    rw [List.count_singleton_self] at this
    omega
  refine ⟨haddr, hpos, ?_⟩
  by_contra hop
  have hdst := (h.named n hpos (by simpa using hop)).dst
  exact p.home_notMem (haddr.2 ▸ hdst)

/-- The manager queues a request. -/
theorem Sound.queue (h : x.Sound p) {src : NodeId} {n : Note} {rest : List Note}
    (hch : x.channel src p.home = n :: rest) (hk : n.op.kind = .request) :
    ({ x.leave src p.home rest with queue := x.queue ++ [n] } : Exchange).Sound p := by
  obtain ⟨haddr, hpos, hop⟩ := h.head_home hch
  have hopens : n.op.opens = true := by
    cases hn : n.op <;> simp [hn, Opcode.kind, Opcode.toClient] at hk hop <;> rfl
  have hfl : ({ x.leave src p.home rest with queue := x.queue ++ [n] } : Exchange).flight
      = x.flight := by
    funext k
    have h1 := flight_leave hch haddr k
    simp only [flight, leave, List.count_append] at h1 ⊢
    omega
  constructor
  · rw [hfl]
    exact h.agreement
  · exact addressed_leave h.addressed hch
  · rw [hfl]
    exact h.opening
  · rw [hfl]
    exact h.named
  · rw [hfl]
    exact h.answering
  · intro k hk
    rcases List.mem_append.1 hk with hk | hk
    · exact h.queued k hk
    · rw [List.mem_singleton.1 hk, hopens]
  · exact h.line
  · intro c
    have hopened : opened p { x.leave src p.home rest with queue := x.queue ++ [n] } c
        = x.opened p c := by
      simp only [opened, leave]
      by_cases hc : c = src
      · rw [if_pos ⟨hc, trivial⟩, hc, hch]
        simp
      · rw [if_neg fun hcs => hc hcs.1]
        simp [haddr.1, Ne.symm hc]
    unfold Granted
    rw [hfl, hopened]
    exact h.order c

/-- The manager takes a reply. -/
theorem Sound.reply (h : x.Sound p) {src : NodeId} {n : Note} {rest : List Note}
    (hch : x.channel src p.home = n :: rest) {t : ManagerTransition}
    (ht : x.line.onReply n.op src = some t) :
    (({ x.leave src p.home rest with line := t.next }).post (t.notes p.home)).Sound p := by
  obtain ⟨haddr, hpos, hop⟩ := h.head_home hch
  have hans := ManagerLine.answers_of_onReply ht
  have hsrc := haddr.1 ▸ h.answering n hpos hans
  have hnames := ManagerLine.onReply_names p.home h.line hsrc ht
  have hsends := ManagerLine.grantE_of_onReply p.home ht
  refine h.managed (x.leave src p.home rest) [n] rfl (addressed_leave h.addressed hch) h.queued
    (flight_leave hch haddr) (fun g hm => ?_) hnames (fun k hk => by rw [hsends k hk]; rfl)
    fun c => ?_
  · rw [← haddr.1] at ht
    exact h.agreement.reply hpos ht hm
  · have hopened : (x.leave src p.home rest).opened p c = x.opened p c := by
      simp only [opened, leave]
      by_cases hc : c = src
      · rw [if_pos ⟨hc, trivial⟩, hc, hch]
        simp [Opcode.not_opens_of_answers hans]
      · rw [if_neg fun hcs => hc hcs.1]
    have hzero : (t.notes p.home).count { src := p.home, dst := c, op := .grantI } = 0 :=
      List.count_eq_zero.2 fun hmem => by cases hsends _ hmem
    have hg : (x.leave src p.home rest).Granted p c ↔ x.Granted p c := by
      have hfl := flight_leave hch haddr { src := p.home, dst := c, op := .grantI }
      rw [List.count_eq_zero.2 fun hmem => by
        rw [← List.mem_singleton.1 hmem] at hans
        cases hans] at hfl
      unfold Granted
      rw [← hfl, Nat.add_zero]
    rw [hopened, hzero, hg]
    simpa using h.order c

/-- The manager's own cache replaces the line. -/
theorem Sound.replace (h : x.Sound p) {t : ManagerTransition} (ht : x.line.onEvict = some t) :
    (({ x with line := t.next }).post (t.notes p.home)).Sound p := by
  have hnames := ManagerLine.onEvict_names p.home h.line ht
  have hsends := ManagerLine.demandI_of_onEvict p.home ht
  refine h.managed x [] rfl h.addressed h.queued (fun k => rfl)
    (fun g hm => h.agreement.evict ht hm) hnames (fun k hk => by rw [hsends k hk]; rfl) fun c => ?_
  have hzero : (t.notes p.home).count { src := p.home, dst := c, op := .grantI } = 0 :=
    List.count_eq_zero.2 fun hmem => by cases hsends _ hmem
  rw [hzero]
  simpa using h.order c

/-- The oldest request comes from a client and is on its way. -/
theorem Sound.head_queue (h : x.Sound p) {n : Note} {rest : List Note}
    (hqu : x.queue = n :: rest) : n.op.opens = true ∧ n.src ∈ p.clients ∧
      n = { src := n.src, dst := p.home, op := n.op } ∧ 0 < x.flight n := by
  have hopens := h.queued n (hqu ▸ List.mem_cons_self)
  have hpos : 0 < x.flight n := by
    refine Nat.lt_of_lt_of_le (List.count_pos_iff.2 ?_) (Nat.le_add_left ..)
    rw [hqu]
    exact List.mem_cons_self
  obtain ⟨hsrc, hdst, hfwd⟩ := h.opening n hpos hopens
  refine ⟨hopens, hsrc, ?_, hpos⟩
  cases n
  simp_all

theorem Sound.accepts_serve (h : x.Sound p) {n : Note} {rest : List Note}
    (hqu : x.queue = n :: rest) (hs : x.line.isStable = true) :
    ∃ t, x.line.onRequest n.op n.src = some t := by
  obtain ⟨hopens, -, heq, hpos⟩ := h.head_queue hqu
  rw [heq] at hpos
  exact h.agreement.accepts_request hpos hopens hs

/-- The manager takes the oldest request up. -/
theorem Sound.serve (h : x.Sound p) {n : Note} {rest : List Note} (hqu : x.queue = n :: rest)
    {t : ManagerTransition} (ht : x.line.onRequest n.op n.src = some t) :
    (({ x with queue := rest, line := t.next }).post (t.notes p.home)).Sound p := by
  have hs := ManagerLine.stable_of_onRequest ht
  have hfl : ∀ k, ({ x with queue := rest } : Exchange).flight k + [n].count k = x.flight k := by
    intro k
    simp only [flight, hqu, List.count_cons, List.count_nil]
    omega
  obtain ⟨hopens, hsrc, heq, hpos⟩ := h.head_queue hqu
  have hopened : ∀ c, x.opened p c =
      (if n.src = c then [n.op] else []) ++ opened p { x with queue := rest } c := by
    intro c
    simp only [opened, hqu, List.cons_append, List.filter_cons]
    by_cases hc : n.src = c <;> simp [hc, hopens]
  refine h.managed { x with queue := rest } [n] rfl h.addressed
    (fun k hk => h.queued k (hqu ▸ List.mem_cons_of_mem _ hk)) hfl (fun g hm => ?_)
    (ManagerLine.onRequest_names h.line hsrc ht) (ManagerLine.toClient_of_onRequest p.home ht) fun c => ?_
  · rw [heq] at hpos hm
    exact h.agreement.request hpos ht hm
  · have hnot : ¬ Granted p { x with queue := rest } c := by
      intro hg
      have := hfl { src := p.home, dst := c, op := .grantI }
      refine h.not_granted hs c ?_
      unfold Granted at hg ⊢
      omega
    have horder := h.order c
    rw [ManagerLine.count_grantI ht, or_iff_right hnot]
    rw [hopened] at horder
    by_cases hc : n.src = c
    · rw [if_pos hc] at horder
      by_cases hsole : (x.client c).hold = .sole
      · refine horder.grant hsole ⟨hc.symm, (horder.gives_up hsole).1, ?_⟩
        rw [hc]
        exact (h.agreement.owner_of_sole hs).1 hsole
      · have hg : (c = n.src ∧ n.op.isEviction = true ∧ x.line.state = .E ∧
            x.line.owner = some n.src) ↔ x.Granted p c := by
          refine ⟨fun hcs => absurd ?_ hsole, fun hg => absurd hg (h.not_granted hs c)⟩
          exact (h.agreement.owner_of_sole hs).2 ⟨hcs.2.2.1, hc ▸ hcs.2.2.2⟩
        rw [hg]
        exact horder.take hsole
    · rw [if_neg hc, List.nil_append] at horder
      have hg : (c = n.src ∧ n.op.isEviction = true ∧ x.line.state = .E ∧
          x.line.owner = some n.src) ↔ x.Granted p c :=
        ⟨fun hcs => absurd hcs.1.symm hc, fun hg => absurd hg (h.not_granted hs c)⟩
      rwa [hg]

/-! ## Runs -/

theorem clientStep_eq {c : NodeId} {e : ClientEvent} {t : ClientTransition}
    (h : (x.client c).transition e = .ok t) :
    x.clientStep p c e = .ok (({ x with client := update x.client c t.next }).post
      (t.notes p.home c)) := by
  rw [clientStep, h]

theorem managerStep_eq {e : ManagerEvent} {t : ManagerTransition}
    (h : x.line.transition e = .ok t) :
    x.managerStep p e = .ok (({ x with line := t.next }).post (t.notes p.home)) := by
  rw [managerStep, h]

/-- A client takes every note that arrives. -/
theorem Sound.accepts_receive (h : x.Sound p) {c src : NodeId} {n : Note} {rest : List Note}
    (hc : c ∈ p.clients) (hch : x.channel src c = n :: rest) :
    ∃ t, (x.client c).onMessage n.op n.forwardTo = some t := by
  obtain ⟨hsrc, hdst⟩ := h.addressed src c n (hch ▸ List.mem_cons_self)
  have hpos : 0 < x.flight n := by
    have := flight_leave hch ⟨hsrc, hdst⟩ n
    rw [List.count_singleton_self] at this
    omega
  have hne : n.dst ≠ p.home := fun heq => p.home_notMem (heq ▸ hdst ▸ hc)
  have hop : n.op.toClient = true := by
    by_contra hop
    have hcase : n.op.opens = true ∨ n.op.answers = true := by
      cases hn : n.op <;> simp [hn, Opcode.toClient, Opcode.opens, Opcode.answers] at hop ⊢
    rcases hcase with ho | ha
    · exact hne (h.opening n hpos ho).2.1
    · exact hne (h.agreement.accepts_reply hpos ha).1
  rcases h.agreement.accepts_message hpos hop with ht | ⟨hgr, hs⟩
  · rwa [hdst] at ht
  · -- the manager's word on an eviction goes to a client that evicts
    have hev := (h.order n.dst).evicting (h.granted_of_note hpos hgr)
    rcases hs with hs | hs <;> simp [hs] at hev

/-- Every event that can happen is accepted and keeps the invariant. -/
theorem Sound.react (h : x.Sound p) {e : ExchangeEvent} {r : Except Refusal Exchange}
    (hr : x.react p e = some r) : ∃ y, r = .ok y ∧ y.Sound p := by
  cases e with
  | access c op =>
    obtain ⟨⟨hc, hs⟩, hr⟩ := Option.ite_none_right_eq_some.1 hr
    obtain ⟨t, ht⟩ := ClientState.accepts_access hs op
    rw [clientStep_eq (ClientState.transition_processor.2 ht)] at hr
    cases hr
    exact ⟨_, rfl, h.access hc ht⟩
  | receive c src =>
    cases hch : x.channel src c with
    | nil => simp [Exchange.react, hch] at hr
    | cons n rest =>
      simp only [Exchange.react, hch] at hr
      obtain ⟨hc, hr⟩ := Option.ite_none_right_eq_some.1 hr
      obtain ⟨t, ht⟩ := h.accepts_receive hc hch
      rw [clientStep_eq (x := x.leave src c rest) (ClientState.transition_message.2 ht)] at hr
      cases hr
      exact ⟨_, rfl, h.receive ⟨hc, hch, ht⟩⟩
  | collect src =>
    cases hch : x.channel src p.home with
    | nil => simp [Exchange.react, hch] at hr
    | cons n rest =>
      simp only [Exchange.react, hch] at hr
      cases hk : n.op.kind with
      | request =>
        rw [hk] at hr
        cases hr
        exact ⟨_, rfl, h.queue hch hk⟩
      | reply =>
        rw [hk] at hr
        obtain ⟨haddr, hpos, hop⟩ := h.head_home hch
        obtain ⟨-, t, ht⟩ := h.agreement.accepts_reply hpos (Opcode.answers_of_reply hk hop)
        rw [haddr.1] at ht
        rw [managerStep_eq (x := x.leave src p.home rest) (ManagerLine.transition_reply.2 ht)] at hr
        cases hr
        exact ⟨_, rfl, h.reply hch ht⟩
  | serve =>
    cases hqu : x.queue with
    | nil => simp [Exchange.react, hqu] at hr
    | cons n rest =>
      simp only [Exchange.react, hqu] at hr
      obtain ⟨hs, hr⟩ := Option.ite_none_right_eq_some.1 hr
      obtain ⟨t, ht⟩ := h.accepts_serve hqu hs
      rw [managerStep_eq (x := { x with queue := rest }) (ManagerLine.transition_request.2 ht)] at hr
      cases hr
      exact ⟨_, rfl, h.serve hqu ht⟩
  | replace =>
    obtain ⟨hs, hr⟩ := Option.ite_none_right_eq_some.1 hr
    obtain ⟨t, ht⟩ := h.agreement.accepts_evict hs
    rw [managerStep_eq (ManagerLine.transition_evict.2 ht)] at hr
    cases hr
    exact ⟨_, rfl, h.replace ht⟩

theorem Reachable.sound (h : x.Reachable p) : x.Sound p := by
  induction h with
  | initial => exact sound_initial
  | next _ he ih =>
    obtain ⟨y, hy, hs⟩ := ih.react he
    cases hy
    exact hs

/-- Whatever the order of events, no table ever refuses one, and never do two clients
hold the line exclusively, or one exclusively and another a shared copy. -/
theorem Reachable.compatible (h : x.Reachable p) :
    (∀ e r, x.react p e ≠ some (.error r)) ∧
    ∀ c d, c ≠ d → x.client c ∈ [.E, .M, .EI, .MI] →
      x.client d ∉ [.E, .M, .EI, .MI] ∧ x.client d ∉ [.S, .SE] := by
  refine ⟨fun e r hr => ?_, fun c d hcd hc => ?_⟩
  · obtain ⟨y, hy, -⟩ := h.sound.react hr
    cases hy
  · have hsole : (x.client c).hold = .sole := by
      cases hs : x.client c <;> simp [hs] at hc <;> rfl
    have hnone := h.sound.agreement.singleWriter c d hcd hsole
    cases hs : x.client d <;> simp [hs, ClientState.hold] at hnone <;> simp

/-- A manager with two clients. -/
def pair : Parties := { home := ⟨2⟩, clients := [⟨0⟩, ⟨1⟩], home_notMem := by decide }

/-- Once a client was granted the line that it wanted to write, the other holds no copy. -/
theorem compatible_granted :
    ∃ x : Exchange, x.Reachable pair ∧ x.client ⟨0⟩ = .E ∧
      x.client ⟨1⟩ ∉ [.E, .M, .EI, .MI] ∧ x.client ⟨1⟩ ∉ [.S, .SE] := by
  have h1 := Reachable.initial.next (p := pair) (e := .access ⟨0⟩ .store) rfl
  have h2 := h1.next (e := .collect ⟨0⟩) rfl
  have h3 := h2.next (e := .serve) rfl
  have h4 := h3.next (e := .receive ⟨0⟩ ⟨2⟩) rfl
  exact ⟨_, h4, rfl, h4.compatible.2 ⟨0⟩ ⟨1⟩ (by decide) (by decide)⟩

end Exchange

end CacheCoherence
