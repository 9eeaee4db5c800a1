import CacheCoherence.PrivateCache.Tick
import CacheCoherence.Proofs.Backlog.Mapped
import CacheCoherence.Proofs.Mirrors
import CacheCoherence.Proofs.Table.Lines
import CacheCoherence.Proofs.Table.Mapped

/-!
# Aligned caches — a private cache looks at lines only

A request names a byte, but all that a private cache ever looks at is the line of that byte. So it
does the same whether it holds the requests as they are or requests for the first bytes of the same
lines.
-/

namespace CacheCoherence

/-! ## Requests in every place -/

section Places

variable (lineOf : Addr → Addr)

/-- The request for the first byte of the line. -/
def Request.aligned (r : Request) : Request := { r with addr := lineOf r.addr }

def ClientMiss.aligned (m : ClientMiss) : ClientMiss :=
  { m with request := m.request.aligned lineOf }

def ClientTransaction.aligned : ClientTransaction → ClientTransaction
  | .miss m => .miss (m.aligned lineOf)
  | .upgrade way r => .upgrade way (r.aligned lineOf)

def ClientInput.aligned : ClientInput → ClientInput
  | .request r => .request (r.aligned lineOf)
  | .packet p => .packet p

end Places

namespace DelayLine

variable {α β : Type} (g : α → β) (d : DelayLine α) (now : Nat)

/-- The line with other items on it. -/
def map : DelayLine β := { latency := d.latency, items := d.items.map fun (t, x) => (t, g x) }

theorem push_map (x : α) : (d.map g).push now (g x) = (d.push now x).map g := by simp [map, push]

theorem arrived_map : (d.map g).arrived now = (d.arrived now).map g := by
  simp [map, arrived, List.takeWhile_map, Function.comp_def]

theorem remaining_map : (d.map g).remaining now = (d.remaining now).map g := by
  simp [map, remaining, List.dropWhile_map, Function.comp_def]

theorem isEmpty_map : (d.map g).isEmpty = d.isEmpty := by simp [map, isEmpty]

end DelayLine

namespace PrivateCache

variable {lineOf : Addr → Addr} {c d : PrivateCache} {r : Request} {line victimLine : Addr}
  {register way victim : Handle} {m : ClientMiss}

/-- The cache with every request that it holds aligned. -/
def aligned (lineOf : Addr → Addr) (c : PrivateCache) : PrivateCache :=
  { c with
    mshr := c.mshr.map (·.aligned lineOf)
    backlog := c.backlog.map (·.aligned lineOf)
    responses := c.responses.map (·.aligned lineOf)
    inbound := c.inbound.map (·.aligned lineOf) }

/-- The lines of the cache are those of `lineOf`. -/
def Lines (lineOf : Addr → Addr) (c : PrivateCache) : Prop := ∀ a, c.table.lineAddr a = lineOf a

theorem Lines.congr (h : c.Lines lineOf) (hl : d.table.layout = c.table.layout) :
    d.Lines lineOf := by
  intro a
  rw [← h a, LineTable.lineAddr, LineTable.lineAddr, hl]

/-! ## Small changes -/

theorem request_aligned (c : PrivateCache) (r : Request) :
    (c.aligned lineOf).request (r.aligned lineOf) = (c.request r).aligned lineOf := by
  have hinbound : (c.inbound ++ [ClientInput.request r]).map (ClientInput.aligned lineOf)
      = c.inbound.map (ClientInput.aligned lineOf) ++ [.request (r.aligned lineOf)] :=
    List.map_append
  exact congrArg (fun inbound => { c.aligned lineOf with inbound }) hinbound.symm

theorem receive_aligned (c : PrivateCache) (p : Packet) :
    (c.aligned lineOf).receive p = (c.receive p).aligned lineOf := by
  have hinbound : (c.inbound ++ [ClientInput.packet p]).map (ClientInput.aligned lineOf)
      = c.inbound.map (ClientInput.aligned lineOf) ++ [.packet p] := List.map_append
  exact congrArg (fun inbound => { c.aligned lineOf with inbound }) hinbound.symm

theorem countRequest_aligned (c : PrivateCache) (r : Request) :
    (c.aligned lineOf).countRequest (r.aligned lineOf) = (c.countRequest r).aligned lineOf := by
  obtain ⟨core, access, addr, issuedAt⟩ := r
  cases access <;> rfl

theorem perform_aligned (c : PrivateCache) (line : Addr) (actions : List ClientAction) :
    (c.aligned lineOf).perform line actions = (c.perform line actions).aligned lineOf := by
  induction actions generalizing c with
  | nil => rfl
  | cons a rest ih =>
    have ha : (c.aligned lineOf).act line a = (c.act line a).aligned lineOf := by cases a <;> rfl
    show ((c.aligned lineOf).act line a).perform line rest = _
    rw [ha, ih]
    rfl

theorem table_perform (c : PrivateCache) (line : Addr) (actions : List ClientAction) :
    (c.perform line actions).table = c.table := by
  induction actions generalizing c with
  | nil => rfl
  | cons a rest ih =>
    show ((c.act line a).perform line rest).table = c.table
    rw [ih]
    cases a <;> rfl

theorem respond_aligned (c : PrivateCache) (r : Request) :
    (c.aligned lineOf).respond (r.aligned lineOf) = (c.respond r).aligned lineOf :=
  congrArg (fun responses => { c.aligned lineOf with responses })
    (DelayLine.push_map _ c.responses c.cycle r)

theorem wake_aligned (c : PrivateCache) (event : WakeEvent) :
    (c.aligned lineOf).wake event = (c.wake event).aligned lineOf :=
  congrArg (fun backlog => { c.aligned lineOf with backlog }) (Backlog.wake_map _ c.backlog event)

theorem park_aligned (c : PrivateCache) (r : Request) (line : Addr) (reason : StallReason)
    (watch : Addr) : (c.aligned lineOf).park (r.aligned lineOf) line reason watch
      = (c.park r line reason watch).aligned lineOf :=
  congrArg (fun backlog => { c.aligned lineOf with
      backlog
      counters := { c.counters.countStall reason with deepestParking := backlog.parked.deepest } })
    (Backlog.park_map (·.aligned lineOf) c.backlog
      { item := r, line, reason, watch, since := c.cycle })

theorem serve_aligned (c : PrivateCache) (r : Request) (line : Addr) (way : Handle)
    (next : ClientState) : (c.aligned lineOf).serve (r.aligned lineOf) line way next
      = (c.serve r line way next).aligned lineOf := by
  rw [serve, serve, ← wake_aligned, ← respond_aligned]
  rfl

theorem conclude_aligned (c : PrivateCache) (register : Handle) (line : Addr) (r : Request) :
    (c.aligned lineOf).conclude register line (r.aligned lineOf)
      = (c.conclude register line r).aligned lineOf := by
  have hrelease := Mshr.release_map (·.aligned lineOf) c.mshr register
  have hfreed : { c.aligned lineOf with mshr := ((c.aligned lineOf).mshr.release register).2 }
      = ({ c with mshr := (c.mshr.release register).2 } : PrivateCache).aligned lineOf :=
    congrArg (fun p => { c.aligned lineOf with mshr := p.2 }) hrelease
  show ((({ c.aligned lineOf with mshr := ((c.aligned lineOf).mshr.release register).2 } :
    PrivateCache).respond (r.aligned lineOf)).wake _).wake _ = _
  rw [hfreed, respond_aligned, wake_aligned, wake_aligned]
  rfl

/-! ## Requests of the processor -/

theorem issueFill_mirrored (hl : c.Lines lineOf) (register : Handle) (line : Addr)
    (m : ClientMiss) : Mirrored (aligned lineOf) (Lines lineOf) (c.issueFill register line m)
      ((c.aligned lineOf).issueFill register line (m.aligned lineOf)) := by
  refine Mirrored.bind (x := c.step line m.state (.processor m.request.access.operation))
    fun t => ?_
  let c₁ : PrivateCache :=
    { c with mshr := c.mshr.assign register line (.miss { m with state := t.next }) }
  let m' : ClientMiss := { m.aligned lineOf with state := t.next }
  have hassign : { c.aligned lineOf with
      mshr := (c.aligned lineOf).mshr.assign register line (.miss m') } = c₁.aligned lineOf :=
    congrArg (fun mshr => { c.aligned lineOf with mshr })
      (Mshr.assign_map (·.aligned lineOf) c.mshr register line (.miss { m with state := t.next }))
  show Mirrored _ _ (.ok (c₁.perform line t.actions)) (.ok (({ c.aligned lineOf with
    mshr := (c.aligned lineOf).mshr.assign register line (.miss m') } :
      PrivateCache).perform line t.actions))
  rw [hassign, perform_aligned]
  exact .ok (hl.congr (congrArg LineTable.layout (table_perform ..)))

theorem waitingFor?_aligned (victim : Handle) (t : ClientTransaction) :
    (t.aligned lineOf).waitingFor? victim
      = (t.waitingFor? victim).map (ClientMiss.aligned lineOf) := by
  cases t with
  | miss m =>
    simp only [ClientTransaction.aligned, ClientMiss.aligned, ClientTransaction.waitingFor?]
    split <;> rfl
  | upgrade => rfl

theorem finishEviction_mirrored (hl : c.Lines lineOf) (victim : Handle) (victimLine : Addr) :
    Mirrored (aligned lineOf) (Lines lineOf) (c.finishEviction victim victimLine)
      ((c.aligned lineOf).finishEviction victim victimLine) := by
  have hfind := Mshr.findSome?_map (·.aligned lineOf) c.mshr (f := (·.waitingFor? victim))
    (waitingFor?_aligned victim)
  change (c.aligned lineOf).mshr.findSome? _ = _ at hfind
  rw [finishEviction, finishEviction, hfind]
  cases c.mshr.findSome? (·.waitingFor? victim) with
  | none =>
    show Mirrored _ _ (.ok _) (.ok (({ c with table := (c.table.release victim).2 } :
      PrivateCache).aligned lineOf |>.wake (.evictionDone victimLine)))
    rw [wake_aligned]
    exact .ok (hl.congr rfl)
  | some found =>
    obtain ⟨register, line, m⟩ := found
    have hreplace : (c.aligned lineOf).table.replace? victim line = c.table.replace? victim line :=
      rfl
    simp only [Option.map_some, hreplace]
    cases hr : c.table.replace? victim line with
    | none => exact .error _
    | some replaced =>
      obtain ⟨old, way, table⟩ := replaced
      have hlines : ({ c with table } : PrivateCache).Lines lineOf :=
        hl.congr (LineTable.layout_of_replace? hr)
      exact (issueFill_mirrored hlines register line { m with way, awaitsVictim := false }).map
        fun d hd => ⟨wake_aligned d _, hd.congr rfl⟩

theorem startEviction_mirrored (hl : c.Lines lineOf) (victim : Handle) (victimLine : Addr)
    (e : LineEntry ClientState) : Mirrored (aligned lineOf) (Lines lineOf)
      (c.startEviction victim victimLine e)
      ((c.aligned lineOf).startEviction victim victimLine e) := by
  refine Mirrored.bind (x := c.step victimLine e.controller (.processor .evict)) fun t => ?_
  -- the cache once the victim has been told, whatever the transition posts
  let c₁ : PrivateCache := ({ c with
    table := c.table.modify victim fun e => { e with evicting := true }
    counters := { c.counters with
      evictions := c.counters.evictions + 1
      writebacks := c.counters.writebacks + e.dirty.toNat } } : PrivateCache).commit victim t.next
  have hlines : (c₁.perform victimLine t.actions).Lines lineOf :=
    hl.congr (by rw [table_perform]; rfl)
  have hperform : (c₁.aligned lineOf).perform victimLine t.actions
      = (c₁.perform victimLine t.actions).aligned lineOf := perform_aligned ..
  show Mirrored _ _ (if t.next.isInvalid then (c₁.perform victimLine t.actions).finishEviction
      victim victimLine else .ok (c₁.perform victimLine t.actions))
    (if t.next.isInvalid then ((c₁.aligned lineOf).perform victimLine t.actions).finishEviction
      victim victimLine else .ok ((c₁.aligned lineOf).perform victimLine t.actions))
  rw [hperform]
  split
  · exact finishEviction_mirrored hlines victim victimLine
  · exact .ok hlines

/-- What is decided on a request depends on its line, and on no other request but for its line. -/
theorem admission_aligned (hl : c.Lines lineOf) (r : Request) (fresh : Bool) :
    (c.aligned lineOf).admission (r.aligned lineOf) fresh = c.admission r fresh := by
  have hline : c.table.lineAddr (lineOf r.addr) = c.table.lineAddr r.addr := by
    rw [← hl r.addr]
    exact c.table.layout.lineAddr_lineAddr r.addr
  have hfree := Mshr.free?_map (·.aligned lineOf) c.mshr
  have htracks := Mshr.tracks_map (·.aligned lineOf) c.mshr
  simp only [admission, admissionResident, admissionAbsent, aligned, Request.aligned, hline, hfree,
    htracks]
  rfl

/-- The table of an admission, if it has one, is laid out as that of the cache. -/
theorem layout_of_admission {fresh : Bool} {table : LineTable ClientState}
    (h : c.admission r fresh = .ok (.fill register way table)) : table.layout = c.table.layout := by
  unfold admission at h
  dsimp only at h
  split at h
  · cases h
  split at h
  · unfold admissionResident at h
    split at h
    · cases h
    obtain ⟨t, -, h⟩ := bind_eq_ok.1 h
    split at h
    · cases h
    split at h <;> cases h
  · have hreserve := c.table.layout_reserve (c.table.lineAddr r.addr)
    unfold admissionAbsent at h
    split at h
    · cases h
    split at h
    · next hres =>
      cases h
      rw [hres] at hreserve
      exact hreserve
    · cases h
    · dsimp only at h
      split at h <;> cases h

theorem startUpgrade_aligned (c : PrivateCache) (r : Request) (line : Addr)
    (register way : Handle) (t : ClientTransition) :
    (c.aligned lineOf).startUpgrade (r.aligned lineOf) line register way t
      = (c.startUpgrade r line register way t).aligned lineOf := by
  have hassign := Mshr.assign_map (·.aligned lineOf) c.mshr register line (.upgrade way r)
  let c₁ : PrivateCache :=
    { c.countMiss with mshr := c.mshr.assign register line (.upgrade way r) }.commit way t.next
  have hopened : { (c.aligned lineOf).countMiss with
      mshr := (c.aligned lineOf).mshr.assign register line (.upgrade way (r.aligned lineOf)) }
      = ({ c.countMiss with mshr := c.mshr.assign register line (.upgrade way r) } :
        PrivateCache).aligned lineOf :=
    congrArg (fun mshr => { (c.aligned lineOf).countMiss with mshr }) hassign
  rw [startUpgrade, hopened]
  exact perform_aligned { c₁ with table := c₁.table.touch way } line t.actions

/-- A decision is carried out alike. -/
theorem carryOut_mirrored (hl : c.Lines lineOf) (r : Request) (line : Addr) {a : Admission}
    (ha : ∀ register way table, a = .fill register way table → table.layout = c.table.layout) :
    Mirrored (aligned lineOf) (Lines lineOf) (c.carryOut r line a)
      ((c.aligned lineOf).carryOut (r.aligned lineOf) line a) := by
  cases a with
  | park reason watch =>
    show Mirrored _ _ (.ok _) (.ok _)
    rw [park_aligned]
    exact .ok (hl.congr rfl)
  | hit way next =>
    show Mirrored _ _ (.ok _) (.ok _)
    rw [serve_aligned]
    exact .ok (hl.congr (LineTable.touch_touches (c.commit way next).table way).layout)
  | upgrade register way t =>
    show Mirrored _ _ (.ok (c.startUpgrade r line register way t)) (.ok _)
    rw [startUpgrade_aligned]
    refine .ok (hl.congr ?_)
    rw [startUpgrade, table_perform]
    exact (LineTable.touch_touches (c.commit way t.next).table way).layout
  | fill register way table =>
    have hlines : ({ c.countMiss with table } : PrivateCache).Lines lineOf :=
      hl.congr (ha register way table rfl)
    exact issueFill_mirrored hlines register line
      { state := .I, way, request := r, awaitsVictim := false }
  | replace register victim victimLine e =>
    let m : ClientMiss := { state := .I, way := victim, request := r, awaitsVictim := true }
    have hassign := Mshr.assign_map (·.aligned lineOf) c.mshr register line (.miss m)
    have hopened : { (c.aligned lineOf).countMiss with
        mshr := (c.aligned lineOf).mshr.assign register line (.miss (m.aligned lineOf)) }
        = ({ c.countMiss with mshr := c.mshr.assign register line (.miss m) } :
          PrivateCache).aligned lineOf :=
      congrArg (fun mshr => { (c.aligned lineOf).countMiss with mshr }) hassign
    have hlines : ({ c.countMiss with mshr := c.mshr.assign register line (.miss m) } :
      PrivateCache).Lines lineOf := hl.congr rfl
    show Mirrored _ _ _ (({ (c.aligned lineOf).countMiss with
      mshr := (c.aligned lineOf).mshr.assign register line (.miss (m.aligned lineOf)) } :
        PrivateCache).startEviction victim victimLine e)
    rw [hopened]
    exact startEviction_mirrored hlines victim victimLine e

theorem process_mirrored (hl : c.Lines lineOf) (r : Request) (fresh : Bool) :
    Mirrored (aligned lineOf) (Lines lineOf) (c.process r fresh)
      ((c.aligned lineOf).process (r.aligned lineOf) fresh) := by
  have hline : (c.aligned lineOf).table.lineAddr (r.aligned lineOf).addr
      = c.table.lineAddr r.addr := by
    show c.table.lineAddr (lineOf r.addr) = _
    rw [← hl r.addr]
    exact c.table.layout.lineAddr_lineAddr r.addr
  rw [process_eq, process_eq, admission_aligned hl, hline]
  cases ha : c.admission r fresh with
  | error e => exact .error e
  | ok a =>
    refine carryOut_mirrored hl r _ fun register way table hfill => ?_
    rw [hfill] at ha
    exact layout_of_admission ha

/-- The next request that is tried again is tried alike. -/
theorem drain_aligned_cons {x : Parked Request} {rest : List (Parked Request)}
    (hq : c.backlog.retries = x :: rest) :
    (c.aligned lineOf).drain = (Work.ofExcept ((c.retrying rest).aligned lineOf)
      (((c.retrying rest).aligned lineOf).process (x.item.aligned lineOf) false)).andThen drain := by
  have hq' : (c.aligned lineOf).backlog.retries
      = x.map (·.aligned lineOf) :: rest.map (·.map (·.aligned lineOf)) :=
    congrArg (List.map _) hq
  have hretrying : (c.aligned lineOf).retrying (rest.map (·.map (·.aligned lineOf)))
      = (c.retrying rest).aligned lineOf := rfl
  rw [drain_cons hq', hretrying]
  rfl

/-- Woken requests are tried again alike. -/
theorem drain_mirrors (hl : c.Lines lineOf) :
    Work.Mirrors (aligned lineOf) (Lines lineOf) c.drain (c.aligned lineOf).drain := by
  induction c using drain.induct with
  | case1 c hq =>
    have hq' : (c.aligned lineOf).backlog.retries = [] := congrArg (List.map _) hq
    rw [drain_nil hq, drain_nil hq']
    exact .done hl []
  | case2 c x rest hq fault hp =>
    have hretry := process_mirrored (c := c.retrying rest) (hl.congr rfl) x.item false
    rw [drain_cons hq, drain_aligned_cons hq]
    rw [hp] at hretry ⊢
    generalize ((c.retrying rest).aligned lineOf).process _ false = result at hretry ⊢
    cases hretry
    exact .faulted _ fault
  | case3 c x rest hq d hp hdec ih =>
    have hretry := process_mirrored (c := c.retrying rest) (hl.congr rfl) x.item false
    rw [drain_cons hq, drain_aligned_cons hq]
    rw [hp] at hretry ⊢
    generalize ((c.retrying rest).aligned lineOf).process _ false = result at hretry ⊢
    cases hretry with
    | ok hd =>
      simp only [Work.ofExcept, Work.andThen_done]
      exact ih hd

/-! ## Messages -/

/-- The table of a cache does not change when a request is concluded. -/
theorem completeFill_mirrored (hl : c.Lines lineOf) (register : Handle) (line : Addr)
    (m : ClientMiss) : Mirrored (aligned lineOf) (Lines lineOf) (c.completeFill register line m)
      ((c.aligned lineOf).completeFill register line (m.aligned lineOf)) := by
  have hinstall (e : LineEntry ClientState) :
      (c.aligned lineOf).table.install? m.way e = c.table.install? m.way e := rfl
  have hsettled : settled m.state (m.request.aligned lineOf) = settled m.state m.request := rfl
  simp only [completeFill, ClientMiss.aligned, hsettled, hinstall]
  generalize hi : c.table.install? m.way _ = installed
  cases installed with
  | none => exact .error _
  | some table =>
    have hlines : ({ c with table } : PrivateCache).Lines lineOf :=
      hl.congr (LineTable.layout_of_install? hi)
    show Mirrored _ _ (.ok _)
      (.ok ((({ c with table } : PrivateCache).aligned lineOf).conclude register line _))
    rw [conclude_aligned]
    exact .ok (hlines.congr rfl)

theorem completeUpgrade_aligned (c : PrivateCache) (register way : Handle) (line : Addr)
    (s : ClientState) (r : Request) :
    (c.aligned lineOf).completeUpgrade register way line s (r.aligned lineOf)
      = (c.completeUpgrade register way line s r).aligned lineOf := by
  rw [completeUpgrade, completeUpgrade, ← conclude_aligned]
  rfl

theorem drop_aligned (c : PrivateCache) (way : Handle) (line : Addr) :
    (c.aligned lineOf).drop way line = (c.drop way line).aligned lineOf := by
  rw [drop, drop, ← wake_aligned]
  rfl

theorem handleMiss_mirrored (hl : c.Lines lineOf) (register : Handle) (line : Addr)
    (m : ClientMiss) (event : ClientEvent) : Mirrored (aligned lineOf) (Lines lineOf)
      (c.handleMiss register line m event)
      ((c.aligned lineOf).handleMiss register line (m.aligned lineOf) event) := by
  refine Mirrored.bind (x := c.step line m.state event) fun t => ?_
  let m₁ : ClientMiss := { m with state := t.next }
  let c₁ : PrivateCache := { c with mshr := c.mshr.modify register fun _ => .miss m₁ }
  have hmodify : { c.aligned lineOf with
      mshr := (c.aligned lineOf).mshr.modify register fun _ => .miss (m₁.aligned lineOf) }
      = c₁.aligned lineOf :=
    congrArg (fun mshr => { c.aligned lineOf with mshr })
      (Mshr.modify_map (·.aligned lineOf) c.mshr register (f := fun _ => .miss m₁) fun _ => rfl)
  have hlines : (c₁.perform line t.actions).Lines lineOf :=
    hl.congr (congrArg LineTable.layout (table_perform ..))
  show Mirrored _ _ (if t.next.isStable && !t.next.isInvalid then
      (c₁.perform line t.actions).completeFill register line m₁
      else .ok (c₁.perform line t.actions))
    (if t.next.isStable && !t.next.isInvalid then
      (({ c.aligned lineOf with
        mshr := (c.aligned lineOf).mshr.modify register fun _ => .miss (m₁.aligned lineOf) } :
          PrivateCache).perform line t.actions).completeFill register line (m₁.aligned lineOf)
      else .ok (({ c.aligned lineOf with
        mshr := (c.aligned lineOf).mshr.modify register fun _ => .miss (m₁.aligned lineOf) } :
          PrivateCache).perform line t.actions))
  rw [hmodify, perform_aligned]
  split
  · exact completeFill_mirrored hlines register line m₁
  · exact .ok hlines

theorem handleResident_mirrored (hl : c.Lines lineOf) (line : Addr) (way : Handle)
    (e : LineEntry ClientState) (upgrade : Option (Handle × Request)) (event : ClientEvent) :
    Mirrored (aligned lineOf) (Lines lineOf) (c.handleResident line way e upgrade event)
      ((c.aligned lineOf).handleResident line way e
        (upgrade.map fun (register, r) => (register, r.aligned lineOf)) event) := by
  refine Mirrored.bind (x := c.step line e.controller event) fun t => ?_
  let d := (c.commit way t.next).perform line t.actions
  have hd : ((c.aligned lineOf).commit way t.next).perform line t.actions = d.aligned lineOf :=
    perform_aligned (c.commit way t.next) line t.actions
  have hlines : d.Lines lineOf := hl.congr (by
    show ((c.commit way t.next).perform line t.actions).table.layout = _
    rw [table_perform]
    rfl)
  rw [hd]
  by_cases hev : e.evicting
  · rw [if_pos hev, if_pos hev]
    split
    · exact finishEviction_mirrored hlines way line
    · exact .ok hlines
  · rw [if_neg hev, if_neg hev]
    cases upgrade with
    | none =>
      dsimp only [Option.map_none]
      split
      · show Mirrored _ _ (.ok _) (.ok _)
        rw [drop_aligned]
        exact .ok (hlines.congr rfl)
      · exact .ok hlines
    | some u =>
      obtain ⟨register, r⟩ := u
      dsimp only [Option.map_some]
      split
      · show Mirrored _ _ (.ok _) (.ok _)
        rw [completeUpgrade_aligned]
        exact .ok (hlines.congr rfl)
      · exact .ok hlines

theorem handle_mirrored (hl : c.Lines lineOf) (msg : CoherenceMessage) :
    Mirrored (aligned lineOf) (Lines lineOf) (c.handle msg) ((c.aligned lineOf).handle msg) := by
  have hout := Mshr.outstanding?_map (·.aligned lineOf) c.mshr (c.table.lineAddr msg.addr)
  change (c.aligned lineOf).mshr.outstanding? ((c.aligned lineOf).table.lineAddr msg.addr) = _
    at hout
  have habsent : Mirrored (aligned lineOf) (Lines lineOf)
      (if msg.op = .demandI then .ok (c.send .unblockI (c.table.lineAddr msg.addr) msg.src)
        else .error (.unexpectedReply c.id msg.op (c.table.lineAddr msg.addr)))
      (if msg.op = .demandI then
        .ok ((c.aligned lineOf).send .unblockI (c.table.lineAddr msg.addr) msg.src)
        else .error (.unexpectedReply c.id msg.op (c.table.lineAddr msg.addr))) := by
    split
    · exact .ok (d := c.send .unblockI (c.table.lineAddr msg.addr) msg.src) (hl.congr rfl)
    · exact .error _
  have hresident : (c.aligned lineOf).table.resident? ((c.aligned lineOf).table.lineAddr msg.addr)
      = c.table.resident? (c.table.lineAddr msg.addr) := rfl
  simp only [handle, hout, hresident]
  cases c.mshr.outstanding? (c.table.lineAddr msg.addr) with
  | none =>
    cases c.table.resident? (c.table.lineAddr msg.addr) with
    | none => exact habsent
    | some found => exact handleResident_mirrored hl _ found.1 found.2 none _
  | some o =>
    obtain ⟨register, transaction⟩ := o
    cases transaction with
    | miss m => exact handleMiss_mirrored hl register _ m _
    | upgrade way r =>
      cases c.table.resident? (c.table.lineAddr msg.addr) with
      | none => exact habsent
      | some found =>
        exact handleResident_mirrored hl _ found.1 found.2 (some (register, r)) _

/-! ## A cycle -/

theorem takeCredit_mirrors (hl : c.Lines lineOf) :
    Work.Mirrors (aligned lineOf) (Lines lineOf) c.takeCredit (c.aligned lineOf).takeCredit := by
  have harrived : (c.aligned lineOf).outlet.link.creditArrived? = c.outlet.link.creditArrived? := rfl
  simp only [takeCredit, harrived]
  cases c.outlet.link.creditArrived? with
  | none => exact ⟨rfl, rfl, rfl, nofun⟩
  | some arrived => exact ⟨rfl, rfl, rfl, fun _ => hl.congr rfl⟩

theorem dispatch_mirrors (hl : c.Lines lineOf) (p : Packet) :
    Work.Mirrors (aligned lineOf) (Lines lineOf) (c.dispatch p) ((c.aligned lineOf).dispatch p) := by
  have htags : (c.aligned lineOf).tags = c.tags := rfl
  have hrefused : Work.Mirrors (aligned lineOf) (Lines lineOf)
      (.faulted c (c.tags.refuse c.id p)) (.faulted (c.aligned lineOf) (c.tags.refuse c.id p)) :=
    .faulted c _
  unfold dispatch
  cases p.payload with
  | credit =>
    dsimp only
    rw [htags]
    split
    · exact takeCredit_mirrors hl
    · exact hrefused
  | coherence msg =>
    dsimp only
    rw [htags]
    split
    · have hgiven : Work.Mirrors (aligned lineOf) (Lines lineOf) (c.giveCredit p.src)
          ((c.aligned lineOf).giveCredit p.src) := ⟨rfl, rfl, rfl, fun _ => hl.congr rfl⟩
      exact hgiven.andThen fun n hn => .ofExcept (handle_mirrored hn msg)
    · exact hrefused
  | memory msg => exact hrefused

theorem react_mirrors (hl : c.Lines lineOf) (input : ClientInput) :
    Work.Mirrors (aligned lineOf) (Lines lineOf) (c.react input)
      ((c.aligned lineOf).react (input.aligned lineOf)) := by
  cases input with
  | request r =>
    have hlines : (c.countRequest r).Lines lineOf := by
      unfold countRequest
      cases r.access <;> exact hl.congr rfl
    rw [ClientInput.aligned, react, react, countRequest_aligned]
    exact (Work.Mirrors.ofExcept (process_mirrored hlines r true)).andThen
      fun n hn => drain_mirrors hn
  | packet p => exact (dispatch_mirrors hl p).andThen fun n hn => drain_mirrors hn

/-- In a cycle an aligned cache does the same, and answers the same requests, aligned. -/
theorem tick_mirrors (hl : c.Lines lineOf) :
    Work.Mirrors (aligned lineOf) (Lines lineOf) c.tick.1 (c.aligned lineOf).tick.1 ∧
      (c.aligned lineOf).tick.2 = c.tick.2.map (·.aligned lineOf) := by
  have hbegin : (c.aligned lineOf).beginCycle = c.beginCycle.aligned lineOf := by
    have hoccupancy := Mshr.occupancy_map (·.aligned lineOf) c.mshr
    exact congrArg (fun n => { c.aligned lineOf with
      cycle := c.cycle + 1, counters := c.counters.sample c.table.occupancy n }) hoccupancy
  let setQueue (c : PrivateCache) (queue : List ClientInput) := { c with inbound := queue }
  have hset (n : PrivateCache) (queue : List ClientInput) : setQueue (n.aligned lineOf)
      (queue.map (·.aligned lineOf)) = (setQueue n queue).aligned lineOf := rfl
  have hlines (n : PrivateCache) (queue : List ClientInput) (hn : n.Lines lineOf) :
      (setQueue n queue).Lines lineOf := hn.congr rfl
  have hbegun : c.beginCycle.Lines lineOf := hl.congr rfl
  have hhandled : Work.Mirrors (aligned lineOf) (Lines lineOf)
      (.through setQueue react c.beginCycle c.beginCycle.inbound)
      (.through setQueue react (c.beginCycle.aligned lineOf)
        (c.beginCycle.inbound.map (·.aligned lineOf))) :=
    .through hset hlines (fun n e hn => react_mirrors hn e) hbegun c.beginCycle.inbound
  have hflush (n : PrivateCache) (hn : n.Lines lineOf) :
      Work.Mirrors (aligned lineOf) (Lines lineOf) n.flush (n.aligned lineOf).flush :=
    ⟨rfl, rfl, rfl, fun _ => hn.congr rfl⟩
  have hevents := hhandled.andThen hflush
  unfold tick
  rw [hbegin]
  dsimp only
  change Work.Mirrors _ _ ((Work.through _ react c.beginCycle c.beginCycle.inbound).andThen flush)
    ((Work.through _ react (c.beginCycle.aligned lineOf)
      (c.beginCycle.aligned lineOf).inbound).andThen flush) at hevents
  generalize (Work.through _ react c.beginCycle c.beginCycle.inbound).andThen flush = w
    at hevents ⊢
  generalize (Work.through _ react (c.beginCycle.aligned lineOf) _).andThen flush = w'
    at hevents ⊢
  rw [hevents.fault]
  cases hf : w.fault with
  | some e => exact ⟨hevents, rfl⟩
  | none =>
    refine ⟨⟨?_, hevents.sent, rfl, fun _ => (hevents.holds hf).congr rfl⟩, ?_⟩
    · show w'.node.collect = w.node.collect.aligned lineOf
      rw [hevents.node]
      exact congrArg (fun responses => { w.node.aligned lineOf with responses })
        (DelayLine.remaining_map _ w.node.responses w.node.cycle)
    · show w'.node.answered = w.node.answered.map _
      rw [hevents.node]
      exact DelayLine.arrived_map _ w.node.responses w.node.cycle

end PrivateCache

end CacheCoherence
