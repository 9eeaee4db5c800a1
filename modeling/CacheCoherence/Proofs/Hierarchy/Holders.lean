import CacheCoherence.Proofs.Hierarchy.Reached

/-!
# Holders — who has a line, and what its bank says

What the caches of a hierarchy tell of a line is what a scene that pictures the hierarchy
says of it, and so is what the bank of the line tells. The agreement of a sound scene thus
holds of what can be looked up at the nodes: a line with an exclusive holder has no other
holder, a line that somebody has is kept at its bank, and once nothing is left to do the bank
tells exactly who has it.
-/

namespace CacheCoherence.Hierarchy

variable {P : Plan} {h : Hierarchy} {s : Scene} {p q : Processor} {X : Addr} {i j : Nat}

/-! ## Looking into a picture -/

namespace Depicts

/-- What a cache tells of a line is the state of its node. -/
theorem state_eq (hd : h.Depicts P s 0) (hq : q ∈ h.processors) (X : Addr) :
    (q.cache.lineState? X).getD .I = s.clients (P.lineOf X) q.cache.id := by
  obtain ⟨hf, place, hfiled, hview⟩ := (hd.processors.plays q hq).shows
  rw [hfiled.lineState?_eq, hf.lineOf, ← hview]
  rfl

/-- The cache sends what is about a line to the home of the line. -/
theorem home_eq (hd : h.Depicts P s 0) (hq : q ∈ h.processors) (X : Addr) :
    q.cache.managers.lookup (q.cache.table.lineAddr X) = P.home (P.lineOf X) := by
  obtain ⟨hf, -⟩ := (hd.processors.plays q hq).shows
  rw [hf.managers, hf.lineOf]

/-- The home of a line is one of the banks. -/
theorem exists_bank (hd : h.Depicts P s 0) (X : Addr) : ∃ b ∈ h.banks, b.id = P.home X := by
  have hrole := P.role_home X
  have hlt := hd.known (P.home X) (by rw [hrole]; nofun)
  have hid := hd.eq_of_get (List.getElem?_eq_getElem hlt)
  have hmem := List.getElem_mem hlt
  rw [← hid, ids, List.mem_append, List.mem_append] at hmem
  rcases hmem with (hmem | hmem) | hmem
  · obtain ⟨q, hq, hqid⟩ := List.mem_map.1 hmem
    have hclient := (hd.processors.plays q hq).role
    rw [show (Processor.station P).id q = P.home X from hqid, hrole] at hclient
    cases hclient
  · obtain ⟨b, hb, hbid⟩ := List.mem_map.1 hmem
    exact ⟨b, hb, hbid⟩
  · obtain ⟨m, hm, hmid⟩ := List.mem_map.1 hmem
    have hmemory := (hd.memories.plays m hm).role
    rw [show (MemoryNode.station P).id m = P.home X from hmid, hrole] at hmemory
    cases hmemory

/-- What a bank tells of a line is the record at its node. -/
theorem line_eq (hd : h.Depicts P s 0) {b : SharedBank} (hb : b ∈ h.banks) (X : Addr) :
    b.line? X = ((s.bank b.id).line (P.lineOf X)).map BankLine.controller := by
  obtain ⟨hf, place, hfiled, hline, -⟩ := (hd.banks.plays b hb).shows
  rw [hfiled.line?_eq, hf.lineOf, ← hline]
  rfl

/-- A bank has the data of a line whose record waits for none. -/
theorem keeps (hd : h.Depicts P s 0) {b : SharedBank} (hb : b ∈ h.banks) {l : BankLine}
    (hl : (s.bank b.id).line (P.lineOf X) = some l) (hr : l.request = none) : b.Keeps X := by
  obtain ⟨hf, place, hfiled, hline, -⟩ := (hd.banks.plays b hb).shows
  refine hfiled.keeps (l := l) ?_ hr
  rw [hf.lineOf, ← hline]
  exact hl

/-- Different processors have different ids. -/
theorem id_ne (hd : h.Depicts P s 0) (hp : h.processors[i]? = some p)
    (hq : h.processors[j]? = some q) (hij : i ≠ j) : p.cache.id ≠ q.cache.id := by
  intro heq
  have hnodup : (h.processors.map (·.cache.id)).Nodup :=
    (List.nodup_append.1 (List.nodup_append.1 hd.nodup).1).1
  refine hij ((List.getElem?_inj ?_ hnodup).1 ?_)
  · rw [List.length_map]
    exact (List.getElem?_eq_some_iff.1 hp).1
  · rw [List.getElem?_map, List.getElem?_map, hp, hq]
    exact congrArg some heq

end Depicts

/-! ## Holders of a line -/

/-- A cache that tells of an exclusive copy, possibly on its way out. -/
theorem hold_sole (h : q.cache.lineState? X ∈ [some .E, some .M, some .EI, some .MI]) :
    ((q.cache.lineState? X).getD .I).hold = .sole := by
  simp only [List.mem_cons, List.not_mem_nil, or_false] at h
  rcases h with h | h | h | h <;> rw [h] <;> rfl

namespace Reached

variable {c : Config} {t : Trace}

/-- At most one cache holds a line exclusively, and if one does, no other holds a shared
copy. -/
theorem writer_alone (hr : Reached c t h) (hn : c.nodes ≤ 2 ^ 32)
    (hp : h.processors[i]? = some p) (hq : h.processors[j]? = some q) (hij : i ≠ j) (X : Addr)
    (hw : p.cache.lineState? X ∈ [some .E, some .M, some .EI, some .MI]) :
    q.cache.lineState? X ∉ [some .E, some .M, some .EI, some .MI] ∧
      q.cache.lineState? X ∉ [some .S, some .SE] := by
  obtain ⟨P, s, hs, hd⟩ := hr.depicts hn
  have hsole := hold_sole hw
  rw [hd.state_eq (List.mem_of_getElem? hp)] at hsole
  have hnothing := (hs.agree (P.lineOf X)).singleWriter _ _ (hd.id_ne hp hq hij) hsole
  rw [← hd.state_eq (List.mem_of_getElem? hq)] at hnothing
  cases hst : q.cache.lineState? X with
  | none => decide
  | some st =>
    rw [hst] at hnothing
    cases st <;> first | decide | cases hnothing

/-- A core that has written to a line is alone with it. -/
theorem writer_alone_written : ∃ h p q, Reached twoCores oneWrite h ∧
    h.processors[0]? = some p ∧ h.processors[1]? = some q ∧ p.cache.lineState? 0 = some .M ∧
    q.cache.lineState? 0 ∉ [some .E, some .M, some .EI, some .MI] ∧
      q.cache.lineState? 0 ∉ [some .S, some .SE] := by
  obtain ⟨h, hr, hstates⟩ := exists_reached (c := twoCores) (t := oneWrite) (n := 5)
    (f := fun h => h.processors.map fun q => q.cache.lineState? 0) (x := [some .M, none]) (by cbv)
  obtain ⟨p, rest, hp, hM, hrest⟩ := List.map_eq_cons_iff.1 hstates
  obtain ⟨q, _, rfl, -, -⟩ := List.map_eq_cons_iff.1 hrest
  have hp₀ : h.processors[0]? = some p := by rw [hp]; rfl
  have hq₁ : h.processors[1]? = some q := by rw [hp]; rfl
  exact ⟨h, p, q, hr, hp₀, hq₁, hM,
    hr.writer_alone (by decide) hp₀ hq₁ (by decide) 0 (by rw [hM]; decide)⟩

/-- The bank that a line is mapped to has every line that some cache has a copy of. -/
theorem included (hr : Reached c t h) (hn : c.nodes ≤ 2 ^ 32) (hq : q ∈ h.processors) (X : Addr)
    (hc : q.cache.lineState? X ∈ [some .S, some .SE, some .E, some .M, some .EI, some .MI]) :
    ∃ b ∈ h.banks, b.id = q.cache.managers.lookup (q.cache.table.lineAddr X) ∧ b.Keeps X := by
  obtain ⟨P, s, hs, hd⟩ := hr.depicts hn
  have hhold : ((q.cache.lineState? X).getD .I).hold ≠ .nothing := by
    simp only [List.mem_cons, List.not_mem_nil, or_false] at hc
    rcases hc with hc | hc | hc | hc | hc | hc <;> rw [hc] <;> decide
  rw [hd.state_eq hq] at hhold
  obtain ⟨b, hb, hid⟩ := hd.exists_bank (P.lineOf X)
  obtain ⟨l, hl, hreq⟩ := (hs.agree (P.lineOf X)).kept (hs.orderly _) hhold
  rw [← hid] at hl
  exact ⟨b, hb, by rw [hid, hd.home_eq hq], hd.keeps hb hl hreq⟩

/-- The bank has the line that a core has written to. -/
theorem included_written : ∃ h, Reached twoCores oneWrite h ∧ ∃ q ∈ h.processors,
    q.cache.lineState? 0 = some .M ∧ ∃ b ∈ h.banks,
      b.id = q.cache.managers.lookup (q.cache.table.lineAddr 0) ∧ b.Keeps 0 := by
  obtain ⟨h, hr, hstates⟩ := exists_reached (c := twoCores) (t := oneWrite) (n := 5)
    (f := fun h => h.processors.map fun q => q.cache.lineState? 0) (x := [some .M, none]) (by cbv)
  obtain ⟨q, rest, hq, hM, -⟩ := List.map_eq_cons_iff.1 hstates
  have hmem : q ∈ h.processors := by rw [hq]; exact List.mem_cons_self
  exact ⟨h, hr, q, hmem, hM, hr.included (by decide) hmem 0 (by rw [hM]; decide)⟩

end Reached

/-! ## The directory of a hierarchy that has come to rest -/

/-- What the bank `b` tells of the line of `X` is how the caches have it. -/
structure Accounts (h : Hierarchy) (b : SharedBank) (X : Addr) : Prop where
  settled : ∀ q ∈ h.processors, ∀ st, q.cache.lineState? X = some st → st.isStable = true
  owner : ∀ q ∈ h.processors, (q.cache.lineState? X = some .E ∨ q.cache.lineState? X = some .M) ↔
    ∃ l, b.line? X = some l ∧ l.state = .E ∧ l.owner = some q.cache.id
  sharers : ∀ q ∈ h.processors, q.cache.lineState? X = some .S →
    ∃ l, b.line? X = some l ∧ l.state = .S ∧ l.sharers.contains q.cache.id = true
  unheld : (∀ l, b.line? X = some l → l.state = .I) →
    ∀ q ∈ h.processors, q.cache.lineState? X = none ∨ q.cache.lineState? X = some .I

/-- In a stable state an exclusive copy is clean or modified. -/
theorem sole_iff_of_stable {x : Option ClientState} (h : (x.getD .I).isStable = true) :
    (x = some .E ∨ x = some .M) ↔ (x.getD .I).hold = .sole := by
  rcases x with _ | st
  · simp [ClientState.hold]
  · cases st <;> simp [ClientState.hold, ClientState.isStable] at h ⊢

/-- In a stable state a cache that holds nothing has no line or an invalid one. -/
theorem unheld_of_stable {x : Option ClientState} (h : (x.getD .I).isStable = true)
    (hn : (x.getD .I).hold = .nothing) : x = none ∨ x = some .I := by
  rcases x with _ | st
  · exact .inl rfl
  · cases st <;> simp [ClientState.hold, ClientState.isStable] at h hn ⊢

theorem processor_idle (hdr : h.isDrained = true) (hq : q ∈ h.processors) :
    q.cache.mshr.occupancy = 0 := by
  simp only [isDrained, Bool.and_eq_true, List.all_eq_true] at hdr
  have hidle := hdr.1.1.2 q hq
  simp only [PrivateCache.isIdle, Bool.and_eq_true, beq_iff_eq] at hidle
  exact hidle.1.1.2

theorem bank_idle {b : SharedBank} (hdr : h.isDrained = true) (hb : b ∈ h.banks) :
    b.mshr.occupancy = 0 := by
  simp only [isDrained, Bool.and_eq_true, List.all_eq_true] at hdr
  have hidle := hdr.1.2 b hb
  simp only [SharedBank.isIdle, Bool.and_eq_true, beq_iff_eq] at hidle
  exact hidle.1.2

namespace Depicts

/-- A cache whose registers are free waits for nothing on any line. -/
theorem cache_settled (hd : h.Depicts P s 0) (hdr : h.isDrained = true) (hq : q ∈ h.processors)
    (X : Addr) : ((q.cache.lineState? X).getD .I).isStable = true := by
  obtain ⟨-, place, hfiled, -⟩ := (hd.processors.plays q hq).shows
  cases hst : q.cache.lineState? X with
  | none => rfl
  | some st => exact hfiled.stable_lineState? (processor_idle hdr hq) hst

/-- What a bank tells of a line is what its manager knows; nobody has a line that it does not
know. -/
theorem told (hd : h.Depicts P s 0) {b : SharedBank} (hb : b ∈ h.banks) (X : Addr) :
    b.line? X = none ∧ ((s.bank b.id).manager (P.lineOf X)).state = .I ∨
      b.line? X = some ((s.bank b.id).manager (P.lineOf X)) := by
  rw [hd.line_eq hb, BankView.manager]
  cases (s.bank b.id).line (P.lineOf X) with
  | none => exact .inl ⟨rfl, rfl⟩
  | some l => exact .inr rfl

/-- In a sound scene in which nobody waits for anything, the bank of a line accounts for it. -/
theorem accounts (hd : h.Depicts P s 0) (hs : s.Sound P) (hdr : h.isDrained = true)
    {b : SharedBank} (hb : b ∈ h.banks) (hid : b.id = P.home (P.lineOf X)) : h.Accounts b X := by
  obtain ⟨f, hagree⟩ : ∃ f, Agreement b.id (s.clients (P.lineOf X))
      ((s.bank b.id).manager (P.lineOf X)) f := by
    rw [hid]
    exact ⟨_, hs.agree (P.lineOf X)⟩
  have htold := hd.told hb X
  generalize (s.bank b.id).manager (P.lineOf X) = l at hagree htold
  -- a bank without transactions waits for nothing, nor does it on a line that it does not know
  have hstable : l.isStable = true := by
    rcases htold with ⟨-, hI⟩ | hsome
    · simp [ManagerLine.isStable, hI, ManagerState.isStable]
    · obtain ⟨-, place, hfiled, -⟩ := (hd.banks.plays b hb).shows
      exact hfiled.stable_line? (bank_idle hdr hb) hsome
  have hknown : l.state ≠ .I → b.line? X = some l := fun hne =>
    htold.resolve_left fun hnone => hne hnone.2
  refine ⟨fun q hq st hst => ?_, fun q hq => ?_, fun q hq hS => ?_, fun hI q hq => ?_⟩
  · have hsettled := hd.cache_settled hdr hq X
    rwa [hst] at hsettled
  · have hsole := hagree.sole_iff hstable (c := q.cache.id)
    rw [← hd.state_eq hq X] at hsole
    rw [sole_iff_of_stable (hd.cache_settled hdr hq X), hsole]
    constructor
    · rintro ⟨hE, ho⟩
      exact ⟨l, hknown (by rw [hE]; decide), hE, ho⟩
    · rintro ⟨l', hl', hE, ho⟩
      rcases htold with ⟨hnone, -⟩ | hsome
      · rw [hnone] at hl'
        cases hl'
      · rw [hsome] at hl'
        cases hl'
        exact ⟨hE, ho⟩
  · have hstate := hd.state_eq hq X
    rw [hS] at hstate
    obtain ⟨hS', hmem⟩ := hagree.sharer_of_copy hstable (c := q.cache.id) (by rw [← hstate]; rfl)
    refine ⟨l, hknown (by rw [hS']; decide), hS', ?_⟩
    exact SharerSet.mem_members.1 hmem
  · -- either the bank knows nothing of the line, or it is on record that nobody has it
    have hlI : l.state = .I := htold.elim (·.2) (hI l)
    have hnothing := hagree.nobody hlI q.cache.id
    rw [← hd.state_eq hq X] at hnothing
    exact unheld_of_stable (hd.cache_settled hdr hq X) hnothing

end Depicts

/-- Once a run has come to rest, the bank that a line is mapped to accounts for it. -/
theorem Reached.directory_agrees {c : Config} {t : Trace} {h' : Hierarchy} (hr : Reached c t h)
    (hn : c.nodes ≤ 2 ^ 32) (hrun : h.run = { hierarchy := h' }) (hdr : h'.isDrained = true)
    (X : Addr) : ∃ b ∈ h'.banks, h'.Accounts b X ∧
      ∀ q ∈ h'.processors, b.id = q.cache.managers.lookup (q.cache.table.lineAddr X) := by
  obtain ⟨P, s, hs, hd⟩ := (hr.drainWithin hrun).depicts hn
  obtain ⟨b, hb, hid⟩ := hd.exists_bank (P.lineOf X)
  exact ⟨b, hb, hd.accounts hs hdr hb hid, fun q hq => by rw [hid, hd.home_eq hq]⟩

/-- A run in which a core writes to a line comes to rest, and the bank accounts for the line. -/
theorem Reached.directory_agrees_written : ∃ h h', Reached twoCores oneWrite h ∧
    h.run = { hierarchy := h' } ∧ h'.isDrained = true ∧ ∃ b ∈ h'.banks, h'.Accounts b 0 ∧
      ∀ q ∈ h'.processors, b.id = q.cache.managers.lookup (q.cache.table.lineAddr 0) := by
  obtain ⟨h, hr, hend⟩ := exists_reached (c := twoCores) (t := oneWrite) (n := 0)
    (f := fun h => (h.run.error, h.run.hierarchy.isDrained)) (x := (none, true)) (by cbv)
  obtain ⟨herr, hdr⟩ := Prod.mk.inj hend
  have hrun : h.run = { hierarchy := h.run.hierarchy } := by rw [← herr]
  exact ⟨h, _, hr, hrun, hdr, hr.directory_agrees (by decide) hrun hdr 0⟩

end CacheCoherence.Hierarchy
