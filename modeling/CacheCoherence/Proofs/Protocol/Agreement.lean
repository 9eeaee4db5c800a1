import CacheCoherence.Proofs.Protocol.ManagerSteps

/-!
# Agreement — the invariant of one line

The clients, the manager's record and the notes on their way agree when some
phase describes them, a client awaits a copy exactly as long as its request is
on its way or being served, and a client that gives its copy up will hear of it.
Every step of the protocol keeps the agreement, in whatever order notes arrive.
-/

namespace CacheCoherence

open Function (update update_self update_of_ne)

/-- How many requests of `c` for a copy are on their way. -/
def Flight.asked (f : Flight) (home c : NodeId) : Nat :=
  f { src := c, dst := home, op := .getS } + f { src := c, dst := home, op := .getE }

/-- The note is what the client `c` waits for while it gives its copy up: its own notice,
or a word of somebody else to it. -/
def Note.Releases (n : Note) (home c : NodeId) : Prop :=
  n.src = c ∧ n.dst = home ∧ n.op.isEviction = true ∨ n.dst = c ∧ n.op.toClient = true

/-- Everything about one line agrees: the clients, the record of the manager at `home`
and what is on its way. -/
structure Agreement (home : NodeId) (cl : NodeId → ClientState) (l : ManagerLine)
    (f : Flight) : Prop where
  phase : ∃ served notes, Phase home cl l served notes ∧ f.Carries notes ∧
    ∀ c, f.asked home c + owes served c = (cl c).awaits.toNat
  /-- A client that holds a shared copy asks for no other than an exclusive one. -/
  upgrade : ∀ c, cl c = .SE → f { src := c, dst := home, op := .getS } = 0
  /-- A client that gives its copy up is going to hear of it. -/
  departs : ∀ c, (cl c).departs = true → ∃ n, 0 < f n ∧ n.Releases home c

namespace Flight

variable {f g : Flight} {home c : NodeId} {taken out : List Note}

/-- Moving notes that ask for nothing leaves the requests as they are. -/
theorem Moves.note_eq (hm : f.Moves g taken out) {n : Note} (ht : n ∉ taken) (ho : n ∉ out) :
    g n = f n := by
  have h := hm n
  rwa [List.count_eq_zero.2 ht, List.count_eq_zero.2 ho] at h

/-- What is not taken stays on its way. -/
theorem Moves.stays (hm : f.Moves g taken out) {n : Note} (hn : 0 < f n) (ht : n ∉ taken) :
    0 < g n := by
  have h := hm n
  rw [List.count_eq_zero.2 ht] at h
  omega

/-- What is sent is on its way, unless it is taken in the same move. -/
theorem Moves.comes (hm : f.Moves g taken out) {n : Note} (hn : n ∈ out) (ht : n ∉ taken) :
    0 < g n := by
  have h := hm n
  have := List.count_pos_iff.2 hn
  rw [List.count_eq_zero.2 ht] at h
  omega

theorem Moves.asked_eq (hm : f.Moves g taken out) (ht : ∀ n ∈ taken, n.op.asks = false)
    (ho : ∀ n ∈ out, n.op.asks = false) : g.asked home c = f.asked home c := by
  have key : ∀ n : Note, n.op.asks = true → g n = f n := fun n hn =>
    hm.note_eq (fun hmem => by simp [ht n hmem] at hn) (fun hmem => by simp [ho n hmem] at hn)
  simp only [asked]
  rw [key _ rfl, key _ rfl]

/-- A request that is sent or taken counts for its sender alone. -/
theorem Moves.asked_add (home c : NodeId) (hm : f.Moves g taken out) :
    g.asked home c + (taken.count { src := c, dst := home, op := .getS }
        + taken.count { src := c, dst := home, op := .getE })
      = f.asked home c + (out.count { src := c, dst := home, op := .getS }
        + out.count { src := c, dst := home, op := .getE }) := by
  have hS := hm { src := c, dst := home, op := .getS }
  have hE := hm { src := c, dst := home, op := .getE }
  simp only [asked]
  omega

end Flight

/-! ## What the tables send -/

theorem Opcode.not_asks_of_not_opens {op : Opcode} (h : op.opens = false) : op.asks = false := by
  cases op <;> simp_all [opens, asks]

theorem Opcode.not_opens_of_toClient {op : Opcode} (h : op.toClient = true) :
    op.opens = false := by
  cases op <;> simp_all [opens, toClient]

theorem Opcode.not_opens_of_answers {op : Opcode} (h : op.answers = true) : op.opens = false := by
  cases op <;> simp_all [opens, answers]

/-- A message makes a client open nothing. -/
theorem ClientState.not_opens_of_onMessage {s : ClientState} {op : Opcode} {fwd : Option NodeId}
    {t : ClientTransition} (home me : NodeId) (h : s.onMessage op fwd = some t) :
    ∀ n ∈ t.notes home me, n.op.opens = false := by
  cases s <;> cases op <;> cases fwd <;> simp [onMessage] at h <;> subst h <;>
    simp [ClientTransition.notes, Opcode.opens]

/-- What an access makes a client send: nothing, a request that it awaits from now
on, or an eviction notice. -/
theorem ClientState.onProcessor_notes {s : ClientState} {op : ProcessorOp} {t : ClientTransition}
    (home me : NodeId) (h : s.onProcessor op = some t) :
    s.awaits = false ∧
    (((∀ n ∈ t.notes home me, n.op.opens = true ∧ n.op.asks = false) ∧ t.next.awaits = false) ∨
      (∃ a, (a = .getE ∨ a = .getS ∧ t.next = .IE) ∧
        t.notes home me = [{ src := me, dst := home, op := a }] ∧ t.next.awaits = true)) := by
  cases s <;> cases op <;> simp [onProcessor] at h <;> subst h <;>
    simp [awaits, ClientTransition.notes, Opcode.opens, Opcode.asks]

/-- A client that starts to give its copy up says so. -/
theorem ClientState.onProcessor_departs {s : ClientState} {op : ProcessorOp}
    {t : ClientTransition} (home me : NodeId) (h : s.onProcessor op = some t)
    (hd : t.next.departs = true) : ∃ n ∈ t.notes home me, n.Releases home me := by
  cases s <;> cases op <;> simp [onProcessor] at h <;> subst h <;> simp [departs] at hd <;>
    exact ⟨_, List.mem_singleton_self _, .inl ⟨rfl, rfl, rfl⟩⟩

/-- Whatever a client hears, it no longer waits to give its copy up. -/
theorem ClientState.not_departs_of_onMessage {s : ClientState} {op : Opcode}
    {fwd : Option NodeId} {t : ClientTransition} (h : s.onMessage op fwd = some t) :
    t.next.departs = false := by
  cases s <;> cases op <;> cases fwd <;> simp [onMessage] at h <;> subst h <;> rfl

/-- Whether `p` holds of all opcodes that a manager transition sends. -/
def ManagerTransition.sendsOnly (p : Opcode → Bool) (t : ManagerTransition) : Bool :=
  t.actions.all fun
    | .send op _ _ => p op
    | _ => true

theorem ManagerTransition.of_sendsOnly {p : Opcode → Bool} {t : ManagerTransition} {home : NodeId}
    {n : Note} (h : t.sendsOnly p = true) (hn : n ∈ t.notes home) : p n.op = true := by
  obtain ⟨a, ha, hn⟩ := List.mem_filterMap.1 hn
  have hop := List.all_eq_true.1 h a ha
  cases a <;> cases hn
  exact hop

namespace ManagerLine

theorem sendsOnly_demands (l : ManagerLine) (ids : List NodeId) :
    ManagerTransition.sendsOnly (· == .demandI) { next := l, actions := demands ids } = true := by
  simp [ManagerTransition.sendsOnly, demands]

theorem onRequest_sendsOnly (l : ManagerLine) (op : Opcode) (src : NodeId) :
    (l.onRequest op src).all (·.sendsOnly Opcode.toClient) = true := by
  unfold onRequest
  split
  case h_5 | h_6 => cases l.ownerOtherThan src <;> rfl
  case h_7 | h_8 => split <;> rfl
  case h_12 =>
    dsimp only
    split
    · rfl
    · simp [ManagerTransition.sendsOnly, demands, Opcode.toClient]
  all_goals rfl

theorem onReply_sendsOnly (l : ManagerLine) (op : Opcode) (src : NodeId) :
    (l.onReply op src).all (·.sendsOnly (· == .grantE)) = true := by
  unfold onReply
  split
  all_goals try rfl
  all_goals cases l.acknowledged? <;> try rfl
  rename_i l'
  simp only [Option.bind_some]
  split
  · cases l'.owner <;> rfl
  · rfl

theorem onEvict_sendsOnly (l : ManagerLine) :
    l.onEvict.all (·.sendsOnly (· == .demandI)) = true := by
  unfold onEvict
  split
  · rfl
  · cases l.owner <;> rfl
  · exact sendsOnly_demands ..
  · rfl

variable {l : ManagerLine} {op : Opcode} {src home : NodeId} {t : ManagerTransition}

/-- All that the manager sends on a request is for clients. -/
theorem toClient_of_onRequest (home : NodeId) (h : l.onRequest op src = some t) :
    ∀ n ∈ t.notes home, n.op.toClient = true := by
  have hall := onRequest_sendsOnly l op src
  rw [h] at hall
  exact fun n hn => ManagerTransition.of_sendsOnly hall hn

/-- All that the manager sends on a reply is the grant that waited for it. -/
theorem grantE_of_onReply (home : NodeId) (h : l.onReply op src = some t) :
    ∀ n ∈ t.notes home, n.op = .grantE := by
  have hall := onReply_sendsOnly l op src
  rw [h] at hall
  exact fun n hn => eq_of_beq (ManagerTransition.of_sendsOnly hall hn)

/-- All that the manager sends for a replacement is demands. -/
theorem demandI_of_onEvict (home : NodeId) (h : l.onEvict = some t) :
    ∀ n ∈ t.notes home, n.op = .demandI := by
  have hall := onEvict_sendsOnly l
  rw [h] at hall
  exact fun n hn => eq_of_beq (ManagerTransition.of_sendsOnly hall hn)

/-- The owner's eviction is accepted. -/
theorem grantI_of_onRequest (home : NodeId) (hs : l.state = .E) (ho : l.owner = some src)
    (hop : op.isEviction = true) (h : l.onRequest op src = some t) :
    { src := home, dst := src, op := .grantI } ∈ t.notes home := by
  unfold onRequest at h
  cases op <;> simp [Opcode.isEviction] at hop <;> simp [hs, ho] at h <;> subst h <;>
    simp [ManagerTransition.notes, ManagerAction.note?]

end ManagerLine

/-- A word of the manager is no eviction notice, and neither is a client's answer. -/
theorem Note.not_releases_of_answers {n : Note} {home c : NodeId} (h : n.op.answers = true) :
    ¬n.Releases home c := by
  rintro (⟨-, -, hop⟩ | ⟨-, hop⟩) <;> revert h hop <;>
    cases n.op <;> simp [Opcode.answers, Opcode.isEviction, Opcode.toClient]

/-! ## Steps -/

namespace Agreement

variable {home : NodeId} {cl : NodeId → ClientState} {l : ManagerLine} {f g : Flight}

/-- What is on its way counts, and not how it is described. -/
theorem congr (h : Agreement home cl l f) {l' : ManagerLine} (hl : l' = l)
    (hf : ∀ n, g n = f n) : Agreement home cl l' g := by
  obtain rfl : g = f := funext hf
  rwa [hl]

/-- At most one client holds more than a shared copy, and then nobody else holds
anything. -/
theorem singleWriter (h : Agreement home cl l f) : SingleWriter cl := by
  obtain ⟨served, notes, hp, -⟩ := h.phase
  exact hp.singleWriter

/-- On a stable line the record tells who holds it. -/
theorem stable (h : Agreement home cl l f) (hs : l.isStable = true) :
    (l.state = .I ∧ Nobody cl) ∨ (∃ o, l.state = .E ∧ l.owner = some o ∧ Sole cl o) ∨
      (l.state = .S ∧ Among cl l.sharers.members) := by
  obtain ⟨served, notes, hp, -⟩ := h.phase
  exact (hp.stable hs).2

/-- Nobody holds a line that the manager gives to nobody. -/
theorem nobody (h : Agreement home cl l f) (hs : l.state = .I) : Nobody cl := by
  rcases h.stable (by simp [ManagerLine.isStable, hs, ManagerState.isStable]) with
    ⟨-, hn⟩ | ⟨o, hE, -⟩ | ⟨hS, -⟩
  · exact hn
  · simp [hs] at hE
  · simp [hs] at hS

/-- On a stable line the exclusive holder is the recorded owner. -/
theorem sole_iff (h : Agreement home cl l f) (hs : l.isStable = true) {c : NodeId} :
    (cl c).hold = .sole ↔ l.state = .E ∧ l.owner = some c := by
  rcases h.stable hs with ⟨hI, hn⟩ | ⟨o, hE, ho, hsole⟩ | ⟨hS, ham⟩
  · simp [hn c, hI]
  · constructor
    · intro hc
      by_contra hne
      have hco : c ≠ o := fun heq => hne ⟨hE, heq ▸ ho⟩
      cases (hsole.2 c hco).symm.trans hc
    · rintro ⟨-, hc⟩
      rw [ho] at hc
      cases hc
      exact hsole.1
  · simp [(ham c).1, hS]

/-- On a stable line the holders of shared copies are on record. -/
theorem sharer_of_copy (h : Agreement home cl l f) (hs : l.isStable = true) {c : NodeId}
    (hc : (cl c).hold = .copy) : l.state = .S ∧ c ∈ l.sharers.members := by
  rcases h.stable hs with ⟨-, hn⟩ | ⟨o, -, -, hsole⟩ | ⟨hS, ham⟩
  · cases (hn c).symm.trans hc
  · by_cases hco : c = o
    · cases (hco ▸ hsole.1).symm.trans hc
    · cases (hsole.2 c hco).symm.trans hc
  · exact ⟨hS, (ham c).2 hc⟩

/-- Where nothing is on its way but what opens a transaction, the manager waits for nothing. -/
theorem stable_of_quiet (h : Agreement home cl l f) (hf : ∀ n, n.op.opens = false → f n = 0) :
    l.isStable = true := by
  obtain ⟨served, notes, hp, hcar, -⟩ := h.phase
  by_contra hs
  obtain ⟨n, hn, ho⟩ := hp.exists_note (Bool.eq_false_iff.2 hs)
  have := List.count_pos_iff.2 hn
  rw [← hcar n ho, hf n ho] at this
  exact Nat.lt_irrefl 0 this

/-- Where nothing is on its way at all, no client waits for anything. -/
theorem settled_of_silent (h : Agreement home cl l f) (hf : ∀ n, f n = 0) (c : NodeId) :
    (cl c).isStable = true := by
  have hs := h.stable_of_quiet fun n _ => hf n
  have hawaits : (cl c).awaits = false := by
    obtain ⟨served, notes, hp, -, hb⟩ := h.phase
    obtain ⟨⟨rfl, -⟩, -⟩ := hp.stable hs
    have := hb c
    rw [Flight.asked, hf, hf, owes_none] at this
    simpa using this.symm
  have hdeparts : (cl c).departs = false := by
    by_contra hd
    obtain ⟨n, hn, -⟩ := h.departs c (by simpa using hd)
    rw [hf] at hn
    exact Nat.lt_irrefl 0 hn
  revert hawaits hdeparts
  generalize cl c = s
  cases s <;> decide

/-- A client whose request is on its way awaits the answer. -/
theorem awaits_of_asks (h : Agreement home cl l f) {c : NodeId} {op : Opcode}
    (hop : op.asks = true) (hf : 0 < f { src := c, dst := home, op }) :
    (cl c).awaits = true := by
  obtain ⟨served, notes, -, -, hb⟩ := h.phase
  have hc := hb c
  have : 0 < f.asked home c := by
    cases op <;> simp [Opcode.asks] at hop <;> simp only [Flight.asked] <;> omega
  cases ha : (cl c).awaits
  · rw [ha] at hc
    simp at hc
    omega
  · rfl

/-- A processor accesses or evicts the line. -/
theorem access (h : Agreement home cl l f) {c : NodeId} {op : ProcessorOp} {t : ClientTransition}
    (ht : (cl c).onProcessor op = some t) (hm : f.Moves g [] (t.notes home c)) :
    Agreement home (update cl c t.next) l g := by
  obtain ⟨served, notes, hp, hcar, hb⟩ := h.phase
  obtain ⟨hw, hsent⟩ := ClientState.onProcessor_notes home c ht
  have hzero : f.asked home c = 0 ∧ owes served c = 0 := by
    have := hb c
    rw [hw] at this
    simp at this
    omega
  refine ⟨⟨served, notes, hp.relaxes (.of_access ht), hcar.opens hm (by simp) ?_, ?_⟩, ?_, ?_⟩
  · -- what it sends only opens something, so the notes of the phase are the same
    rcases hsent with ⟨hall, -⟩ | ⟨a, ha, hnotes, -⟩
    · exact fun n hn => (hall n hn).1
    · rw [hnotes]
      rcases ha with rfl | ⟨rfl, -⟩ <;> simp [Opcode.opens]
  · -- a request that it sends it awaits from now on; no other count changes
    intro d
    rcases hsent with ⟨hall, hnext⟩ | ⟨a, ha, hnotes, hnext⟩
    · rw [hm.asked_eq (by simp) fun n hn => (hall n hn).2, hb d]
      by_cases hd : d = c
      · rw [hd, update_self, hw, hnext]
      · rw [update_of_ne hd]
    · have hadd := hm.asked_add home d
      rw [hnotes] at hadd
      by_cases hd : d = c
      · subst hd
        rw [update_self, hnext, hzero.2]
        rcases ha with rfl | ⟨rfl, -⟩ <;> simp [hzero.1] at hadd ⊢ <;> omega
      · have hne : c ≠ d := Ne.symm hd
        have := hb d
        rw [update_of_ne hd]
        simp [hne] at hadd
        omega
  · -- it had asked for nothing before, and from a shared copy it asks for an exclusive one
    intro d hd
    by_cases hdc : d = c
    · subst hdc
      rw [update_self] at hd
      have hf : f { src := d, dst := home, op := .getS } = 0 := by
        have := hzero.1
        unfold Flight.asked at this
        omega
      rw [hm.note_eq (by simp), hf]
      rcases hsent with ⟨hall, -⟩ | ⟨a, ha, hnotes, -⟩
      · exact fun hmem => by simpa [Opcode.asks] using (hall _ hmem).2
      · rw [hnotes]
        rcases ha with rfl | ⟨rfl, hIE⟩
        · simp
        · simp [hIE] at hd
    · rw [update_of_ne hdc] at hd
      rw [hm.note_eq (by simp), h.upgrade d hd]
      intro hmem
      obtain ⟨a, -, ha⟩ := List.mem_map.1 hmem
      cases a <;> simp at ha
      all_goals exact hdc ha.1.symm
  · -- who starts to give up has just said so, and what others wait for is still on its way
    intro d hd
    by_cases hdc : d = c
    · subst hdc
      rw [update_self] at hd
      obtain ⟨n, hn, hrel⟩ := ClientState.onProcessor_departs home d ht hd
      exact ⟨n, hm.comes hn List.not_mem_nil, hrel⟩
    · rw [update_of_ne hdc] at hd
      obtain ⟨n, hn, hrel⟩ := h.departs d hd
      exact ⟨n, hm.stays hn List.not_mem_nil, hrel⟩

/-- A client takes a message. -/
theorem message (h : Agreement home cl l f) {n : Note} {t : ClientTransition} (hn : 0 < f n)
    (ht : (cl n.dst).onMessage n.op n.forwardTo = some t)
    (hm : f.Moves g [n] (t.notes home n.dst)) : Agreement home (update cl n.dst t.next) l g := by
  obtain ⟨served, notes, hp, hcar, hb⟩ := h.phase
  have hop := Opcode.not_opens_of_toClient (ClientState.toClient_of_onMessage ht)
  have hout := ClientState.not_opens_of_onMessage home n.dst ht
  obtain ⟨served', notes', hp', hbal, hcount⟩ := hp.message (hcar.mem hn hop) ht
  refine ⟨⟨served', notes', hp', hcar.moves hm fun k _ => hcount k, fun c => ?_⟩, fun c hc => ?_,
    fun c hc => ?_⟩
  · -- the copy that arrives is no longer owed and no longer awaited
    have hc := hb c
    have hd := hbal c
    rw [hm.asked_eq (by simpa using Opcode.not_asks_of_not_opens hop)
      fun k hk => Opcode.not_asks_of_not_opens (hout k hk)]
    omega
  · have hc' : cl c = .SE := by
      by_cases hcn : c = n.dst
      · subst hcn
        rw [update_self] at hc
        exact absurd hc (ClientState.onMessage_next_ne_SE ht)
      · rwa [update_of_ne hcn] at hc
    rw [hm.note_eq ?_ ?_, h.upgrade c hc']
    · rintro hmem
      obtain rfl := List.mem_singleton.1 hmem
      cases hop
    · exact fun hmem => by simpa [Opcode.opens] using hout _ hmem
  · -- its word has reached this client; for the others it was no word at all
    by_cases hcn : c = n.dst
    · subst hcn
      rw [update_self, ClientState.not_departs_of_onMessage ht] at hc
      cases hc
    · rw [update_of_ne hcn] at hc
      obtain ⟨k, hk, hrel⟩ := h.departs c hc
      refine ⟨k, hm.stays hk fun hmem => ?_, hrel⟩
      obtain rfl := List.mem_singleton.1 hmem
      rcases hrel with ⟨-, -, hev⟩ | ⟨hdst, -⟩
      · have htc := ClientState.toClient_of_onMessage ht
        revert hev htc
        cases k.op <;> simp [Opcode.isEviction, Opcode.toClient]
      · exact hcn hdst.symm

/-- The manager takes a request up. -/
theorem request (h : Agreement home cl l f) {c : NodeId} {op : Opcode} {t : ManagerTransition}
    (hf : 0 < f { src := c, dst := home, op }) (ht : l.onRequest op c = some t)
    (hm : f.Moves g [{ src := c, dst := home, op }] (t.notes home)) :
    Agreement home cl t.next g := by
  obtain ⟨served, notes, hp, hcar, hb⟩ := h.phase
  have hopens := ManagerLine.opens_of_onRequest ht
  have hout := ManagerLine.toClient_of_onRequest home ht
  obtain ⟨rfl, rfl, hp'⟩ := hp.request (fun ha => h.awaits_of_asks ha hf)
    (fun hS hSE => by have := h.upgrade c hSE; subst hS; omega) ht
  refine ⟨⟨_, _, hp', hcar.moves hm fun k hk => ?_, fun d => ?_⟩, fun d hd => ?_, fun d hd => ?_⟩
  · -- the request itself opens a transaction, so no phase lists it
    have : k ≠ { src := c, dst := home, op } := by
      rintro rfl
      simp [hopens] at hk
    simp [Ne.symm this]
  · -- what was asked for is owed now, to its sender and to nobody else
    have hadd := hm.asked_add home d
    have hd := hb d
    have hzero : ∀ a : Opcode, a.asks = true →
        (t.notes home).count { src := d, dst := home, op := a } = 0 := fun a ha =>
      List.count_eq_zero.2 fun hmem => by
        have := hout _ hmem
        cases a <;> simp_all [Opcode.asks, Opcode.toClient]
    rw [hzero _ rfl, hzero _ rfl] at hadd
    rw [owes_none] at hd
    by_cases hdc : d = c
    · subst hdc
      cases op <;> simp [Opcode.opens] at hopens <;>
        simp [Opcode.serves, Opcode.asks] at hadd ⊢ <;> omega
    · have hne : c ≠ d := Ne.symm hdc
      have : owes (op.serves c) d = 0 := by
        unfold Opcode.serves
        split
        · exact owes_of_ne hdc
        · rfl
      simp [hne] at hadd
      omega
  · have := hm { src := d, dst := home, op := .getS }
    have hz : (t.notes home).count { src := d, dst := home, op := .getS } = 0 :=
      List.count_eq_zero.2 fun hmem => by cases hout _ hmem
    have := h.upgrade d hd
    omega
  · obtain ⟨k, hk, hrel⟩ := h.departs d hd
    by_cases hkn : k = { src := c, dst := home, op }
    · -- the client's own notice is taken: it is the owner, and its eviction is accepted
      subst hkn
      rcases hrel with ⟨rfl, -, hev⟩ | ⟨-, htc⟩
      · have hsole := ClientState.sole_of_departs hd
        obtain ⟨-, ⟨-, hn⟩ | ⟨o, hs, ho, -, hn⟩ | ⟨-, hn⟩⟩ :=
          hp.stable (ManagerLine.stable_of_onRequest ht)
        · cases (hn c).symm.trans hsole
        · obtain rfl : c = o := by
            by_contra hne
            cases (hn c hne).symm.trans hsole
          refine ⟨_, hm.comes (ManagerLine.grantI_of_onRequest home hs ho hev ht) fun hmem => ?_,
            .inr ⟨rfl, rfl⟩⟩
          obtain rfl : Opcode.grantI = op := congrArg Note.op (List.mem_singleton.1 hmem)
          cases hev
        · exact absurd hsole (hn c).1
      · simp [Opcode.not_opens_of_toClient htc] at hopens
    · exact ⟨k, hm.stays hk (by simpa using hkn), hrel⟩

/-- Notes for clients take the place of others that open nothing. -/
theorem of_phase (h : Agreement home cl l f) {l' : ManagerLine} {taken out : List Note}
    (hm : f.Moves g taken out) (hta : ∀ n ∈ taken, n.op.answers = true)
    (ho : ∀ n ∈ out, n.op.opens = false)
    (hp : ∀ served notes, Phase home cl l served notes → f.Carries notes →
      ∃ notes', Phase home cl l' served notes' ∧
        ∀ k, notes'.count k + taken.count k = notes.count k + out.count k) :
    Agreement home cl l' g := by
  obtain ⟨served, notes, hphase, hcar, hb⟩ := h.phase
  obtain ⟨notes', hphase', hcount⟩ := hp served notes hphase hcar
  have ht : ∀ n ∈ taken, n.op.opens = false := fun n hn =>
    Opcode.not_opens_of_answers (hta n hn)
  refine ⟨⟨served, notes', hphase', hcar.moves hm fun k _ => hcount k, fun c => ?_⟩,
    fun c hc => ?_, fun c hc => ?_⟩
  · rw [hm.asked_eq (fun n hn => Opcode.not_asks_of_not_opens (ht n hn))
      fun n hn => Opcode.not_asks_of_not_opens (ho n hn), hb c]
  · rw [hm.note_eq (fun hmem => by simpa [Opcode.opens] using ht _ hmem)
      (fun hmem => by simpa [Opcode.opens] using ho _ hmem), h.upgrade c hc]
  · obtain ⟨n, hn, hrel⟩ := h.departs c hc
    exact ⟨n, hm.stays hn fun hmem => Note.not_releases_of_answers (hta n hmem) hrel, hrel⟩

/-- The manager takes a reply. -/
theorem reply (h : Agreement home cl l f) {n : Note} {t : ManagerTransition} (hn : 0 < f n)
    (ht : l.onReply n.op n.src = some t) (hm : f.Moves g [n] (t.notes home)) :
    Agreement home cl t.next g := by
  have hans := ManagerLine.answers_of_onReply ht
  have hop := Opcode.not_opens_of_answers hans
  refine h.of_phase hm (by simpa using hans)
    (fun k hk => by rw [ManagerLine.grantE_of_onReply home ht k hk]; rfl) ?_
  exact fun served notes hp hcar => hp.reply (hcar.mem hn hop) ht

/-- The manager's cache replaces the line. -/
theorem evict (h : Agreement home cl l f) {t : ManagerTransition} (ht : l.onEvict = some t)
    (hm : f.Moves g [] (t.notes home)) : Agreement home cl t.next g := by
  refine h.of_phase hm (by simp)
    (fun k hk => by rw [ManagerLine.demandI_of_onEvict home ht k hk]; rfl) ?_
  intro served notes hp _
  obtain ⟨rfl, rfl, hp'⟩ := hp.evict ht
  exact ⟨_, hp', fun k => by simp⟩

/-- A line that nobody holds may be forgotten, and comes back as any line that nobody
holds. -/
theorem forget (h : Agreement home cl l f) {l' : ManagerLine} (hl : l.state = .I)
    (hl' : l'.state = .I) : Agreement home cl l' f := by
  have hm : f.Moves f [] [] := fun n => rfl
  refine h.of_phase hm (by simp) (by simp) ?_
  intro served notes hp _
  have hst : l.isStable = true := by simp [ManagerLine.isStable, hl, ManagerState.isStable]
  obtain ⟨⟨rfl, rfl⟩, ⟨-, hn⟩ | ⟨o, hs, -⟩ | ⟨hs, -⟩⟩ := hp.stable hst
  · exact ⟨[], .invalid hl' hn, fun k => rfl⟩
  · simp [hl] at hs
  · simp [hl] at hs

/-- The manager drops an eviction notice for a line that nobody holds. -/
theorem drop (h : Agreement home cl l f) (hl : l.state = .I) {n : Note}
    (ho : n.op.opens = true) (ha : n.op.asks = false) (hm : f.Moves g [n] []) :
    Agreement home cl l g := by
  obtain ⟨served, notes, hp, hcar, hb⟩ := h.phase
  refine ⟨⟨served, notes, hp, hcar.opens hm (by simpa using ho) (by simp), fun c => ?_⟩,
    fun c hc => ?_, fun c hc => ?_⟩
  · rw [hm.asked_eq (by simpa using ha) (by simp), hb c]
  · rw [hm.note_eq ?_ (by simp), h.upgrade c hc]
    rintro hmem
    obtain rfl := List.mem_singleton.1 hmem
    cases ha
  · have hst : l.isStable = true := by simp [ManagerLine.isStable, hl, ManagerState.isStable]
    have hsole := ClientState.sole_of_departs hc
    obtain ⟨-, ⟨-, hn⟩ | ⟨o, hs, -⟩ | ⟨hs, -⟩⟩ := hp.stable hst
    · simp [hn c] at hsole
    · simp [hl] at hs
    · simp [hl] at hs

/-- At the start nobody holds the line and nothing is on its way. -/
theorem initial (hcl : ∀ c, cl c = .I) (hl : l.state = .I) (hf : ∀ n, f n = 0) :
    Agreement home cl l f := by
  refine ⟨⟨none, [], .invalid hl fun c => by rw [hcl c]; rfl, fun n _ => hf n, fun c => ?_⟩,
    fun c _ => hf _, fun c hc => by simp [hcl c, ClientState.departs] at hc⟩
  simp [Flight.asked, hf, hcl c, ClientState.awaits]

end Agreement

end CacheCoherence
