import CacheCoherence.Proofs.PrivateCache.Accesses

/-!
# Receipt — what a message does to the lines of a private cache

A message about a line meets one state, wherever the line stands, and moves it as the
table says. Whatever else the cache then does (a response, the next fetch, a store that
was waiting) is a run of accesses. A message that the table has no entry for is the only
fault.
-/

namespace CacheCoherence

open Function (update update_self update_of_ne)

namespace ClientState

/-- A message keeps a stable line stable. -/
theorem stable_of_onMessage {s : ClientState} {op : Opcode} {fwd : Option NodeId}
    {t : ClientTransition} (hs : s.isStable = true) (h : s.onMessage op fwd = some t) :
    t.next.isStable = true := by
  cases s <;> simp [isStable] at hs <;> cases op <;> cases fwd <;> simp [onMessage] at h <;>
    subst h <;> rfl

/-- A line that is not there is only ever asked to be given up. -/
theorem onMessage_I {op : Opcode} {fwd : Option NodeId} {t : ClientTransition}
    (h : I.onMessage op fwd = some t) :
    op = .demandI ∧ t = { next := .I, actions := [.toManager .unblockI] } := by
  cases op <;> simp [onMessage] at h
  exact ⟨rfl, h.symm⟩

/-- A line that has been asked for is there, or is still asked for. -/
theorem onMessage_IE {op : Opcode} {fwd : Option NodeId} {t : ClientTransition}
    (h : IE.onMessage op fwd = some t) :
    t.next = .IE ∨ t.next.isStable = true ∧ t.next.isInvalid = false := by
  cases op <;> simp [onMessage] at h <;> subst h <;> simp [isStable, isInvalid]

/-- Whatever a line that waits to leave hears, it is gone. -/
theorem onMessage_departs {s : ClientState} {op : Opcode} {fwd : Option NodeId}
    {t : ClientTransition} (hs : s.departs = true) (h : s.onMessage op fwd = some t) :
    t.next = .I := by
  cases s <;> simp [departs] at hs <;> cases op <;> cases fwd <;> simp [onMessage] at h <;>
    subst h <;> rfl

end ClientState

namespace PrivateCache

variable {P : Wiring} {c d : PrivateCache} {place : Addr → Place ClientState ClientTransaction}
  {X V : Addr} {i r : Nat} {e : LineEntry ClientState} {t : ClientTransition} {m : ClientMiss}
  {q : Request} {op : Opcode} {src : NodeId} {fwd : Option NodeId}

/-- Once the line is there, a store that waited for it is done if that takes no message. -/
theorem settled_cases (s : ClientState) (hs : s.isStable = true) (q : Request) :
    settled s q = s ∨ ∃ u : ClientTransition, s.onProcessor q.access.operation = some u ∧
      u.actions = [] ∧ settled s q = u.next ∧ u.next.isStable = true := by
  unfold settled
  cases q.access with
  | read => exact .inl rfl
  | write =>
    cases s <;> simp [ClientState.isStable] at hs
    · exact .inl rfl
    · exact .inl rfl
    · exact .inr ⟨_, rfl, rfl, rfl, rfl⟩
    · exact .inl rfl

theorem settled_stable {s : ClientState} (hs : s.isStable = true) (q : Request) :
    (settled s q).isStable = true := by
  rcases settled_cases s hs q with h | ⟨u, -, -, h, hu⟩
  · rw [h, hs]
  · rw [h, hu]

/-- Settling a line is an access, if it is anything. -/
theorem settled_run (v : Addr → ClientState) (out : Multiset Packet) (me : NodeId)
    (hX : P.lineOf X = X) (hs : (v X).isStable = true) (q : Request) :
    Relation.ReflTransGen (ClientView.Access P me) (v, out)
      (update v X (settled (v X) q), out) := by
  rcases settled_cases (v X) hs q with h | ⟨u, hu, hacts, h, -⟩
  · rw [h, Function.update_eq_self]
  · rw [h]
    have hstep : ClientView.Access P me (v, out)
        (update v X u.next, out + P.clientPosts me X u.actions) :=
      .mk hX hu
    rw [hacts] at hstep
    exact .single (by simpa [Wiring.clientPosts] using hstep)

/-! ## Lines that are being fetched -/

/-- A fetched line is filed, and what waited goes on. -/
theorem completeFill_reaches (hf : Follows P c) (h : Guards P none c place)
    (hcalm : ∀ Y, Y ≠ X → Calm (place Y)) (hp : place X = .reserved i r (.miss m))
    (hs : m.state.isStable = true) :
    ∃ d, c.completeFill (c.mshr.slots.handleAt r) X m = .ok d ∧
      Reaches P c (view place, c.out) d := by
  obtain ⟨_, ⟨⟩, -, hway⟩ := miss_of_reserved h.toFiled hp
  have hline : c.table.lineAddr X = X := h.aligned_of hp nofun
  let e : LineEntry ClientState :=
    { haveData := true
      dirty := (settled m.state m.request).isDirty
      evicting := false
      controller := settled m.state m.request }
  obtain ⟨table, hinstall, hw⟩ := LineTable.install?_writes (h.content_reserved hp) e
  have hrel := Mshr.release_sets (m := c.mshr) (r := r)
    (by rw [h.content_register (X := X) (r := r) (v := .miss m) (by rw [hp]; rfl)]; exact nofun)
  have hled := h.fill hp hrel hw rfl (settled_stable hs m.request)
  let d := ({ c with table } : PrivateCache).conclude (c.mshr.slots.handleAt r) X m.request
  have hd : Rests P none d (update place X (.filed i e none)) :=
    ⟨⟨⟨hled, h.unasked.update (by nofun)⟩, h.guarded.leave _ (by rw [hp]; rfl)⟩,
      calm_update hcalm (calm_of_staying rfl
        (ClientState.not_departs_of_stable (settled_stable hs m.request)))⟩
  refine ⟨d, ?_, ⟨rfl, rfl, rfl, hw.layout, rfl, rfl⟩, _, hd, ?_⟩
  · unfold completeFill
    dsimp only
    rw [hway, hinstall]
  · have hX : view place X = m.state := by rw [view, hp]; rfl
    have hrun := settled_run (view place) c.out c.id
      (by rw [← hf.lineOf, hline]) (by rw [hX, hs]) m.request
    rw [hX] at hrun
    rw [view_update]
    exact hrun

/-- A message about a line that is being fetched. -/
theorem handleMiss_reaches (hf : Follows P c) (h : Rests P none c place)
    (hp : place X = .reserved i r (.miss m) ∨ place X = .waiting i r (.miss m))
    (ht : m.state.onMessage op fwd = some t) :
    ∃ d, c.handleMiss (c.mshr.slots.handleAt r) X m (.message op src fwd) = .ok d ∧
      Reaches P c (update (view place) X t.next, c.out + P.clientPosts c.id X t.actions) d := by
  have hreg : c.mshr.slots.contentAt r = .filled X (.miss m) := by
    rcases hp with hp | hp <;> exact h.content_register (by rw [hp]; rfl)
  let m' : ClientMiss := { m with state := t.next }
  have hset := Mshr.modify_sets hreg fun _ => ClientTransaction.miss m'
  let d : PrivateCache :=
    { c with mshr := c.mshr.modify (c.mshr.slots.handleAt r) fun _ => .miss m' }
  have hk : Kept c d := ⟨rfl, rfl, rfl, rfl, rfl, rfl⟩
  have hhandle := Mshr.handleAt_modify (m := c.mshr) (c.mshr.slots.handleAt r)
    (fun _ => ClientTransaction.miss m') r
  obtain ⟨o, k, hperf, hk', ho⟩ := perform_kept (hf.kept hk) X t.actions
  let d' : PrivateCache := { d with outlet := o, counters := k }
  have hmiss : c.handleMiss (c.mshr.slots.handleAt r) X m (.message op src fwd)
      = if t.next.isStable && !t.next.isInvalid then
          d'.completeFill (c.mshr.slots.handleAt r) X m'
        else .ok d' := by
    have hgo : c.handleMiss (c.mshr.slots.handleAt r) X m (.message op src fwd)
        = if t.next.isStable && !t.next.isInvalid then
            (d.perform X t.actions).completeFill (c.mshr.slots.handleAt r) X m'
          else .ok (d.perform X t.actions) := by
      rw [handleMiss, step_message ht]
      rfl
    rw [hgo, hperf]
  rw [hmiss]
  rcases hp with hp | hp
  · let place' := update place X (.reserved i r (.miss m'))
    have hd' : Guards P none d' place' :=
      ⟨⟨h.advance hp hset rfl, h.unasked.update (by nofun)⟩,
        h.guarded.advance hset h.registers (by rw [hp]; rfl) rfl⟩
    have hcalm : ∀ Y, Y ≠ X → Calm (place' Y) := calm_elsewhere h.calm X _
    have hview : view place' = update (view place) X t.next := view_update ..
    have hnow : (update (view place) X t.next, c.out + P.clientPosts c.id X t.actions)
        = (view place', d'.out) := Prod.ext hview.symm ho.symm
    -- either the line is there now, or it has been asked for as before
    by_cases hgo : (t.next.isStable && !t.next.isInvalid) = true
    · rw [if_pos hgo]
      obtain ⟨d'', hfill, hreach⟩ := completeFill_reaches (hf.kept (hk.trans hk')) hd' hcalm
        (update_self ..) (show m'.state.isStable = true by simp at hgo; exact hgo.1)
      rw [show d'.mshr.slots.handleAt r = c.mshr.slots.handleAt r from hhandle] at hfill
      exact ⟨d'', hfill, .resume (hk.trans hk') hnow hreach⟩
    · rw [if_neg hgo]
      have hasked : m.state = .IE := by
        have hX := h.calm X
        rwa [hp] at hX
      rw [hasked] at ht
      have hstays : t.next = .IE :=
        (ClientState.onMessage_IE ht).resolve_right fun hdone => hgo (by simp [hdone])
      exact ⟨_, rfl, .of_eq ⟨hd', calm_update (fun Y _ => h.calm Y) hstays⟩ (hk.trans hk') hnow⟩
  · -- nothing has been asked for, so the line is still not there
    have hs : m.state = .I := h.unasked X i r m hp
    rw [hs] at ht
    obtain ⟨-, rfl⟩ := ClientState.onMessage_I ht
    have hd' : Rests P none d' (update place X (.waiting i r (.miss m'))) :=
      ⟨⟨⟨h.amend hp hset rfl, h.unasked.update (by rintro _ _ _ ⟨⟩; rfl)⟩,
        h.guarded.advance hset h.registers (by rw [hp]; rfl) rfl⟩,
        calm_update (fun Y _ => h.calm Y) trivial⟩
    refine ⟨_, rfl, .of_eq hd' (hk.trans hk') (Prod.ext ?_ ho.symm)⟩
    rw [view_update]
    rfl

/-! ## Resident lines -/

/-- A line that was taken away is dropped. -/
theorem drop_reaches (h : Rests P none c place) (hp : place X = .filed i e none)
    (hev : e.evicting = false) (hI : e.controller = .I) :
    Reaches P c (view place, c.out) (c.drop (c.table.slots.handleAt i) X) := by
  obtain ⟨-, hret⟩ := LineTable.release_retires (t := c.table) (i := i)
    (by rw [h.content_filed hp]; exact nofun)
  have hgone : view (update place X .absent) = view place :=
    view_update_same (by rw [hp]; exact hI.symm)
  have hd : Rests P none (c.drop (c.table.slots.handleAt i) X) (update place X .absent) :=
    ⟨⟨⟨Ledger.drop h.toLedger hp hev hret, h.unasked.update (by nofun)⟩, h.guarded.drop hp hev⟩,
      calm_update (fun Y _ => h.calm Y) trivial⟩
  exact .of_eq hd ⟨rfl, rfl, rfl, hret.layout, rfl, rfl⟩ (by rw [hgone]; rfl)

/-- A message about a resident line that nothing is awaited for. -/
theorem handleResident_idle_reaches (hf : Follows P c) (h : Rests P none c place)
    (hp : place X = .filed i e none) (ht : e.controller.onMessage op fwd = some t) :
    ∃ d, c.handleResident X (c.table.slots.handleAt i) e none (.message op src fwd) = .ok d ∧
      Reaches P c (update (view place) X t.next, c.out + P.clientPosts c.id X t.actions) d := by
  have hw := commit_writes h.toFiled hp t.next
  -- nothing is awaited for the line, and a message leaves that so
  have hst : e.evicting = false → t.next.isStable = true := fun hev => by
    have hfit : Place.Fits discipline c.table X (.filed i e none) := hp ▸ h.fits X
    exact ClientState.stable_of_onMessage (hfit.2 hev) ht
  let place' := update place X (.filed i (committed e t.next) none)
  have hk : Kept c (c.commit (c.table.slots.handleAt i) t.next) :=
    ⟨rfl, rfl, rfl, hw.layout, rfl, rfl⟩
  obtain ⟨o, k, hperf, hk', ho⟩ := perform_kept (hf.kept hk) X t.actions
  let d : PrivateCache :=
    { c.commit (c.table.slots.handleAt i) t.next with outlet := o, counters := k }
  have hd : Guards P none d place' :=
    ⟨⟨h.modify hp hw rfl hst, h.unasked.update (by nofun)⟩,
      h.guarded.mono (Blockers.ofPlaces_le_filed hp fun hev => hev)⟩
  have hcalm : ∀ Y, Y ≠ X → Calm (place' Y) := calm_elsewhere h.calm X _
  have hhandle : d.table.slots.handleAt i = c.table.slots.handleAt i := congrFun hw.handle i
  have hview : view place' = update (view place) X t.next := view_update ..
  have hnow : (update (view place) X t.next, c.out + P.clientPosts c.id X t.actions)
      = (view place', d.out) := Prod.ext hview.symm ho.symm
  have hresident : c.handleResident X (c.table.slots.handleAt i) e none (.message op src fwd)
      = if e.evicting then
          if t.next.isInvalid then d.finishEviction (c.table.slots.handleAt i) X else .ok d
        else if t.next.isInvalid then .ok (d.drop (c.table.slots.handleAt i) X) else .ok d := by
    rw [handleResident, step_message ht]
    show (let d := (c.commit (c.table.slots.handleAt i) t.next).perform X t.actions
      if e.evicting then
        if t.next.isInvalid then d.finishEviction (c.table.slots.handleAt i) X else .ok d
      else if t.next.isInvalid then .ok (d.drop (c.table.slots.handleAt i) X) else .ok d) = _
    rw [hperf]
  rw [hresident]
  by_cases hev : e.evicting = true
  · -- the line waited for a word, and this is it
    rw [if_pos hev]
    have hleaves : e.controller.departs = true := by
      have hX := h.calm X
      rw [hp] at hX
      exact hX.trans hev
    have hI : t.next = .I := ClientState.onMessage_departs hleaves ht
    obtain ⟨d', hfin, hreach⟩ := finishEviction_reaches (hf.kept (hk.trans hk')) hd hcalm
      (update_self ..) hev hI
    rw [hhandle] at hfin
    rw [if_pos (by rw [hI]; rfl)]
    exact ⟨d', hfin, .resume (hk.trans hk') hnow hreach⟩
  · rw [if_neg hev]
    have hev : e.evicting = false := by simpa using hev
    have hrests : Rests P none d place' :=
      ⟨hd, calm_update (fun Y _ => h.calm Y)
        (calm_of_staying hev (ClientState.not_departs_of_stable (hst hev)))⟩
    by_cases hI : t.next.isInvalid = true
    · have hctrl : (committed e t.next).controller = .I := by
        simpa [ClientState.isInvalid, committed] using hI
      have hdrop := drop_reaches hrests (update_self ..) hev hctrl
      rw [hhandle] at hdrop
      exact ⟨_, if_pos hI, .resume (hk.trans hk') hnow hdrop⟩
    · exact ⟨_, if_neg hI, .of_eq hrests (hk.trans hk') hnow⟩

/-- The end of an upgrade changes the line, frees the register and answers the request. -/
theorem completeUpgrade_eq (c : PrivateCache) (register way : Handle) (X : Addr) (s : ClientState)
    (q : Request) : ∃ rs, c.completeUpgrade register way X s q = { c with
      table := (c.table.modify way (committed · (settled s q))).modify way
        fun e => { e with haveData := true }
      mshr := (c.mshr.release register).2
      backlog := (c.backlog.wake .registerReleased).wake (.transactionDone X)
      responses := rs } :=
  ⟨_, rfl⟩

/-- A message about a resident line that waits for more permission. -/
theorem handleResident_upgrade_reaches (hf : Follows P c) (h : Rests P none c place)
    {way : Handle} (hp : place X = .filed i e (some (r, .upgrade way q)))
    (ht : e.controller.onMessage op fwd = some t) :
    ∃ d, c.handleResident X (c.table.slots.handleAt i) e (some (c.mshr.slots.handleAt r, q))
        (.message op src fwd) = .ok d ∧
      Reaches P c (update (view place) X t.next, c.out + P.clientPosts c.id X t.actions) d := by
  obtain ⟨hev, -⟩ := upgrade_of_filed h.toFiled hp
  have hw := commit_writes h.toFiled hp t.next
  have hk : Kept c (c.commit (c.table.slots.handleAt i) t.next) :=
    ⟨rfl, rfl, rfl, hw.layout, rfl, rfl⟩
  have hresident : c.handleResident X (c.table.slots.handleAt i) e
        (some (c.mshr.slots.handleAt r, q))
        (.message op src fwd)
      = let d := (c.commit (c.table.slots.handleAt i) t.next).perform X t.actions
        if t.next.isStable then
          .ok (d.completeUpgrade (c.mshr.slots.handleAt r) (c.table.slots.handleAt i) X t.next q)
        else .ok d := by
    rw [handleResident, step_message ht]
    show (if e.evicting = true then _ else _) = _
    rw [if_neg (by simp [hev])]
    rfl
  rw [hresident]
  dsimp only
  obtain ⟨o, k, hperf, hk', ho⟩ := perform_kept (hf.kept hk) X t.actions
  have hlink : o.link = c.outlet.link := hk'.link
  have hout : (o.toList : Multiset Packet) = c.out + P.clientPosts c.id X t.actions := ho
  by_cases hs : t.next.isStable = true
  · rw [if_pos hs, hperf]
    have hw' := (hw.modify (committed · (settled t.next q))).modify
      fun e => { e with haveData := true }
    have hrel := Mshr.release_sets (m := c.mshr) (r := r)
      (by rw [h.content_register (X := X) (r := r) (by rw [hp]; rfl)]; exact nofun)
    have hled := h.close hp hrel hw' hev (settled_stable hs q)
    obtain ⟨rs, hdone⟩ := completeUpgrade_eq
      ({ c.commit (c.table.slots.handleAt i) t.next with outlet := o, counters := k } :
        PrivateCache)
      (c.mshr.slots.handleAt r) (c.table.slots.handleAt i) X t.next q
    rw [hdone]
    have hguarded := fun p => h.guarded.leave (c.mshr.release (c.mshr.slots.handleAt r)).2
      (X := X) (p := p) (by rw [hp, Ledger.leaves?_filed hev])
    have hcalm := calm_update (X := X) (fun Y _ => h.calm Y)
      (calm_of_staying (i := i) (x := none)
        (e := { committed (committed e t.next) (settled t.next q) with haveData := true }) hev
        (ClientState.not_departs_of_stable (settled_stable hs q)))
    refine ⟨_, rfl, ⟨rfl, rfl, rfl, hw'.layout, hlink, rfl⟩, _,
      ⟨⟨⟨hled, h.unasked.update (by nofun)⟩, hguarded _⟩, hcalm⟩, ?_⟩
    -- the message first, then the access that waited for it
    have hX : P.lineOf X = X := by
      rw [← hf.lineOf]
      exact h.aligned_of hp nofun
    have hrun := settled_run (update (view place) X t.next)
      (c.out + P.clientPosts c.id X t.actions) c.id hX (by rw [update_self, hs]) q
    rw [update_self, Function.update_idem, ← hout] at hrun
    rw [view_update, ← hout]
    exact hrun
  · rw [if_neg hs, hperf]
    have hst : (committed e t.next).evicting = false →
        (committed e t.next).controller.isStable =
          (some (r, ClientTransaction.upgrade way q)).isNone :=
      fun _ => by simpa [committed] using hs
    have hled := h.modify hp hw rfl hst
    have hguarded := h.guarded.mono
      (Blockers.ofPlaces_le_filed (f := committed e t.next) hp fun hev => hev)
    have hcalm := calm_update (X := X) (fun Y _ => h.calm Y)
      (calm_of_staying (i := i) (e := committed e t.next) (x := some (r, .upgrade way q)) hev
        (ClientState.not_departs_of_onMessage ht))
    refine ⟨_, rfl, .of_eq ⟨⟨⟨hled, h.unasked.update (by nofun)⟩, hguarded⟩, hcalm⟩
      ⟨rfl, rfl, rfl, hw.layout, hlink, rfl⟩ ?_⟩
    rw [view_update]
    exact Prod.ext rfl hout.symm

/-! ## Messages -/

/-- A message that the table of its line accepts is taken, and work goes on from there. A
demand for a line that is not there is answered to the node that sent it, which is the line's
manager. -/
theorem handle_reaches (hf : Follows P c) (h : Rests P none c place) {msg : CoherenceMessage}
    (hX : P.lineOf msg.addr = X)
    (hsrc : place X = .absent → msg.op = .demandI → msg.src = P.home X)
    (ht : (view place X).onMessage msg.op msg.forwardTo = some t) :
    ∃ d, c.handle msg = .ok d ∧
      Reaches P c (update (view place) X t.next, c.out + P.clientPosts c.id X t.actions) d := by
  have hline : c.table.lineAddr msg.addr = X := by rw [hf.lineOf, hX]
  have hout := h.outstanding?_eq X
  have hres := h.resident?_eq X
  rw [hf.lineOf, ← hX, P.lineOf_lineOf, hX] at hres
  unfold handle
  dsimp only
  rw [hline, hout, hres]
  cases hp : place X with
  -- only a demand reaches a line that is not there, and it is answered all the same
  | absent =>
    rw [view, hp] at ht
    obtain ⟨hop, rfl⟩ := ClientState.onMessage_I ht
    have hd : Rests P none (c.send .unblockI X msg.src) place := h.congr rfl rfl rfl
    refine ⟨c.send .unblockI X msg.src, by simp [Place.register?, Place.resident?, hop], ?_⟩
    refine .of_eq hd ⟨rfl, rfl, rfl, rfl, rfl, rfl⟩ (Prod.ext ?_ ?_)
    · have hI : view place X = .I := by rw [view, hp]; rfl
      show update (view place) X .I = view place
      rw [← hI, Function.update_eq_self]
    · show c.out + _ = ((c.outlet.post _ _).toList : Multiset Packet)
      rw [Outlet.toList_post, ← Multiset.coe_add, hsrc hp hop, hf.tags]
      rfl
  | filed i e tx =>
    have hstate : view place X = e.controller := by rw [view, hp]; rfl
    rw [hstate] at ht
    cases tx with
    | none => exact handleResident_idle_reaches hf h hp ht
    | some rv =>
      obtain ⟨r, v⟩ := rv
      obtain ⟨-, way, q, rfl⟩ := upgrade_of_filed h.toFiled hp
      exact handleResident_upgrade_reaches hf h hp ht
  | reserved i r v =>
    obtain ⟨m, rfl, -⟩ := miss_of_reserved h.toFiled hp
    have hstate : view place X = m.state := by rw [view, hp]; rfl
    rw [hstate] at ht
    exact handleMiss_reaches hf h (.inl hp) ht
  | waiting i r v =>
    obtain ⟨m, rfl, -⟩ := miss_of_waiting h.toFiled hp
    have hstate : view place X = m.state := by rw [view, hp]; rfl
    rw [hstate] at ht
    exact handleMiss_reaches hf h (.inr hp) ht

/-- A message about a line that is not there changes no line. A demand is answered, and nothing
else is expected. -/
theorem handle_absent (hf : Follows P c) (h : Filed c place) {msg : CoherenceMessage}
    (hX : P.lineOf msg.addr = X) (hp : place X = .absent) :
    c.handle msg = if msg.op = .demandI then .ok (c.send .unblockI X msg.src)
      else .error (.unexpectedReply c.id msg.op X) := by
  have hout := h.outstanding?_eq X
  have hres := h.resident?_eq X
  rw [hf.lineOf, ← hX, P.lineOf_lineOf, hX] at hres
  rw [hp] at hout hres
  unfold handle
  dsimp only
  rw [show c.table.lineAddr msg.addr = X by rw [hf.lineOf, hX], hout, hres]
  rfl

/-- The fault of a message that the table of its line has no entry for: the table's word,
or, where there is no line, that nothing was asked for. -/
theorem handle_refused (hf : Follows P c) (h : Filed c place) {msg : CoherenceMessage}
    (hX : P.lineOf msg.addr = X)
    (ht : (view place X).onMessage msg.op msg.forwardTo = none) :
    c.handle msg = .error (.clientViolation c.id X
        { state := view place X, event := .message msg.op msg.src msg.forwardTo }) ∨
      view place X = .I ∧ c.handle msg = .error (.unexpectedReply c.id msg.op X) := by
  have hline : c.table.lineAddr msg.addr = X := by rw [hf.lineOf, hX]
  have hout := h.outstanding?_eq X
  have hres := h.resident?_eq X
  rw [hf.lineOf, ← hX, P.lineOf_lineOf, hX] at hres
  unfold handle
  dsimp only
  rw [hline, hout, hres]
  cases hp : place X with
  -- nothing here refuses a demand, so the message is one that nobody asked for
  | absent =>
    right
    have hI : view place X = .I := by rw [view, hp]; rfl
    refine ⟨hI, ?_⟩
    rw [hI] at ht
    have hop : msg.op ≠ .demandI := by
      intro hop
      simp [hop, ClientState.onMessage] at ht
    simp [Place.register?, Place.resident?, hop]
  | filed i e tx =>
    left
    have hstate : view place X = e.controller := by rw [view, hp]; rfl
    rw [hstate] at ht ⊢
    cases tx with
    | none =>
      show c.handleResident X _ e none _ = _
      rw [handleResident, step_message_refused ht]
      rfl
    | some rv =>
      obtain ⟨r, v⟩ := rv
      obtain ⟨-, way, q, rfl⟩ := upgrade_of_filed h hp
      show c.handleResident X _ e _ _ = _
      rw [handleResident, step_message_refused ht]
      rfl
  | reserved i r v =>
    left
    obtain ⟨m, rfl, -⟩ := miss_of_reserved h hp
    have hstate : view place X = m.state := by rw [view, hp]; rfl
    rw [hstate] at ht ⊢
    show c.handleMiss _ X m _ = _
    rw [handleMiss, step_message_refused ht]
    rfl
  | waiting i r v =>
    left
    obtain ⟨m, rfl, -⟩ := miss_of_waiting h hp
    have hstate : view place X = m.state := by rw [view, hp]; rfl
    rw [hstate] at ht ⊢
    show c.handleMiss _ X m _ = _
    rw [handleMiss, step_message_refused ht]
    rfl

end PrivateCache

end CacheCoherence
