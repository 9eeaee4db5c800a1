import CacheCoherence.Proofs.Driven
import CacheCoherence.Proofs.Hierarchy.Balance

/-!
# Runs — what becomes of a cache or a bank, cycle by cycle

A cache that is driven has a record of what it was asked and of what it has answered. Where the
events of every cycle are given as lists, the run can be computed, with that record beside it.
-/

namespace CacheCoherence

/-- What a computation leaves is the value of a success. -/
theorem eq_ok_of_toOption {ε α : Type} {x : Except ε α} {a : α} (h : x.toOption = some a) :
    x = .ok a := by
  cases x with
  | error e => cases h
  | ok a' =>
    cases h
    rfl

/-! ## Caches -/

namespace PrivateCache

/-- The cache `c` has been built and driven. It was given the requests `asked` and has answered
`answered`, each in order. -/
inductive Served : List Request → List Request → PrivateCache → Prop
  | create {id : NodeId} {config : NodeConfig} {tags : MessageTags} {route : Route}
      {c : PrivateCache} (hc : create? id config tags route = .ok c) : Served [] [] c
  | request {asked answered : List Request} {c : PrivateCache} (hs : Served asked answered c)
      (r : Request) : Served (asked ++ [r]) answered (c.request r)
  | receive {asked answered : List Request} {c : PrivateCache} (hs : Served asked answered c)
      (p : Packet) : Served asked answered (c.receive p)
  | tick {asked answered : List Request} {c : PrivateCache} (hs : Served asked answered c)
      (hf : c.tick.1.fault = none) : Served asked (answered ++ c.tick.2) c.tick.1.node

theorem Served.driven {asked answered : List Request} {c : PrivateCache}
    (h : Served asked answered c) : c.Driven := by
  induction h with
  | create hc => exact .create hc
  | request _ r ih => exact ih.request r
  | receive _ p ih => exact ih.receive p
  | tick _ hf ih => exact ih.tick hf

/-- Of a driven cache there is a record of what it was given and has answered. -/
theorem Driven.served {c : PrivateCache} (h : c.Driven) :
    ∃ asked answered, Served asked answered c := by
  induction h with
  | create hc => exact ⟨[], [], .create hc⟩
  | request _ r ih =>
    obtain ⟨asked, answered, ih⟩ := ih
    exact ⟨asked ++ [r], answered, ih.request r⟩
  | receive _ p ih =>
    obtain ⟨asked, answered, ih⟩ := ih
    exact ⟨asked, answered, ih.receive p⟩
  | tick _ hf ih =>
    obtain ⟨asked, answered, ih⟩ := ih
    exact ⟨asked, _, ih.tick hf⟩

/-- The record accounts for every request. -/
theorem Served.accounts {asked answered : List Request} {c : PrivateCache}
    (h : Served asked answered c) : Accounts (asked : Multiset Request) answered c := by
  induction h with
  | create hc => exact accounts_create? hc
  | request _ r ih => exact ih.request r
  | receive _ p ih => exact ih.receive p
  | tick _ hf ih =>
    obtain ⟨hdone, -⟩ := ih.tick hf
    exact hdone

/-- The cache after one cycle for each of some lists of events that arrive before it, unless one
meets a fault, and the requests answered meanwhile. -/
def after? (c : PrivateCache) : List (List ClientInput) → Option (PrivateCache × List Request)
  | [] => some (c, [])
  | events :: rest =>
      match PrivateCache.tick { c with inbound := c.inbound ++ events } with
      | ({ node, fault := none, .. }, answered) =>
          (node.after? rest).map fun (d, more) => (d, answered ++ more)
      | _ => none

theorem Served.arrive {asked answered : List Request} {c : PrivateCache}
    (h : Served asked answered c) (events : List ClientInput) :
    Served (asked ++ events.filterMap ClientInput.request?) answered
      { c with inbound := c.inbound ++ events } := by
  induction events generalizing c asked with
  | nil => simpa using h
  | cons event rest ih =>
    have hlist : c.inbound ++ event :: rest = c.inbound ++ [event] ++ rest := by simp
    rw [hlist]
    cases event with
    | request r =>
      have hall := ih (h.request r)
      rw [List.append_assoc] at hall
      exact hall
    | packet p => exact ih (h.receive p)

theorem Served.after? {asked answered more : List Request} {c d : PrivateCache}
    {rounds : List (List ClientInput)} (h : Served asked answered c)
    (hd : c.after? rounds = some (d, more)) :
    Served (asked ++ rounds.flatten.filterMap ClientInput.request?) (answered ++ more) d := by
  induction rounds generalizing c asked answered more with
  | nil =>
    cases hd
    simpa using h
  | cons events rest ih =>
    unfold PrivateCache.after? at hd
    split at hd
    · next node sent answered' htick =>
      obtain ⟨⟨d', more'⟩, hrest, heq⟩ := Option.map_eq_some_iff.1 hd
      cases heq
      have hnode := (h.arrive events).tick
      rw [htick] at hnode
      have hall := ih (hnode rfl) hrest
      simpa [List.filterMap_append] using hall
    · cases hd

/-- What is computed of a cache that is built and driven holds of a cache with such a record. -/
theorem exists_served {id : NodeId} {config : NodeConfig} {tags : MessageTags} {route : Route}
    {rounds : List (List ClientInput)} {α : Type} {x : α}
    (f : PrivateCache × List Request → α)
    (hx : (create? id config tags route).toOption.bind (fun c => (c.after? rounds).map f)
      = some x) :
    ∃ c answered, Served (rounds.flatten.filterMap ClientInput.request?) answered c ∧
      f (c, answered) = x := by
  obtain ⟨c, hc, hx⟩ := Option.bind_eq_some_iff.1 hx
  obtain ⟨⟨d, answered⟩, hd, rfl⟩ := Option.map_eq_some_iff.1 hx
  exact ⟨d, answered, (Served.create (eq_ok_of_toOption hc)).after? hd, rfl⟩

theorem exists_driven {id : NodeId} {config : NodeConfig} {tags : MessageTags} {route : Route}
    {rounds : List (List ClientInput)} {α : Type} {x : α} (f : PrivateCache → α)
    (hx : (create? id config tags route).toOption.bind
      (fun c => (c.after? rounds).map fun d => f d.1) = some x) : ∃ c, Driven c ∧ f c = x := by
  obtain ⟨c, answered, hs, hc⟩ := exists_served (fun d => f d.1) hx
  exact ⟨c, hs.driven, hc⟩

end PrivateCache

/-! ## Banks -/

namespace SharedBank

/-- The bank after one cycle for each of some lists of packets that arrive before it, unless one
meets a fault. -/
def after? (c : SharedBank) : List (List Packet) → Option SharedBank
  | [] => some c
  | packets :: rest =>
      match SharedBank.tick { c with inbound := c.inbound ++ packets } with
      | { node, fault := none, .. } => node.after? rest
      | _ => none

theorem Driven.arrive {c : SharedBank} (h : c.Driven) (packets : List Packet) :
    Driven { c with inbound := c.inbound ++ packets } := by
  induction packets generalizing c with
  | nil => simpa using h
  | cons p rest ih =>
    have hone : Driven { c with inbound := c.inbound ++ [p] } := h.receive p
    simpa using ih hone

theorem Driven.after? {c d : SharedBank} {rounds : List (List Packet)} (h : c.Driven)
    (hd : c.after? rounds = some d) : d.Driven := by
  induction rounds generalizing c with
  | nil =>
    cases hd
    exact h
  | cons packets rest ih =>
    unfold SharedBank.after? at hd
    split at hd
    · next node sent htick =>
      have hnode := (h.arrive packets).tick
      rw [htick] at hnode
      exact ih (hnode rfl) hd
    · cases hd

/-- What is computed of a bank that is built and driven holds of a driven bank. -/
theorem exists_driven {id : NodeId} {config : NodeConfig} {tags : MessageTags} {route : Route}
    {rounds : List (List Packet)} {α : Type} {x : α} (f : SharedBank → α)
    (hx : (create? id config tags route).toOption.bind
      (fun c => (c.after? rounds).map f) = some x) : ∃ c, Driven c ∧ f c = x := by
  obtain ⟨c, hc, hx⟩ := Option.bind_eq_some_iff.1 hx
  obtain ⟨d, hd, rfl⟩ := Option.map_eq_some_iff.1 hx
  exact ⟨d, (Driven.create (eq_ok_of_toOption hc)).after? hd, rfl⟩

/-! How often woken requests are tried again in a cycle is not known beforehand. Where it is at most
a given number of times after every packet, the run can be computed just as well. -/

/-- The bank once its woken requests have been tried again, unless it takes more than `n` trials or
one meets a fault. -/
def drainWithin? (c : SharedBank) : Nat → Option SharedBank
  | 0 => if c.backlog.retries.isEmpty then some c else none
  | n + 1 =>
      match c.backlog.retries with
      | [] => some c
      | e :: rest =>
          match (c.retrying rest).process e.item false with
          | .ok d => d.drainWithin? n
          | .error _ => none

/-- The bank once it has handled the packets, with at most `n` trials after each, and what it has
sent. -/
def handleWithin? (n : Nat) (c : SharedBank) : List Packet → Option (SharedBank × List Packet)
  | [] => some (c, [])
  | p :: rest =>
      match ({ c with inbound := rest } : SharedBank).dispatch p with
      | { node, sent, fault := none } =>
          (node.drainWithin? n).bind fun d =>
            (d.handleWithin? n rest).map fun (e, more) => (e, sent ++ more)
      | _ => none

/-- The bank after one cycle, with at most `n` trials after each packet, and what it has sent. -/
def tickWithin? (n : Nat) (c : SharedBank) : Option (SharedBank × List Packet) :=
  (c.beginCycle.handleWithin? n c.beginCycle.inbound).map fun (d, sent) =>
    (d.flush.node, sent ++ d.flush.sent)

/-- The bank after one cycle for each of some lists of packets that arrive before it, with at most
`n` trials after each packet, and what it has sent. -/
def afterWithin? (n : Nat) (c : SharedBank) :
    List (List Packet) → Option (SharedBank × List Packet)
  | [] => some (c, [])
  | packets :: rest =>
      (({ c with inbound := c.inbound ++ packets } : SharedBank).tickWithin? n).bind
        fun (d, sent) => (d.afterWithin? n rest).map fun (e, more) => (e, sent ++ more)

variable {c d : SharedBank} {n : Nat} {sent : List Packet}

theorem drain_of_drainWithin? (h : c.drainWithin? n = some d) : c.drain = .done d := by
  induction n generalizing c with
  | zero =>
    obtain ⟨hq, h⟩ := Option.ite_none_right_eq_some.1 h
    cases h
    exact drain_nil (List.isEmpty_iff.1 hq)
  | succ n ih =>
    unfold drainWithin? at h
    split at h
    · next hq =>
      cases h
      exact drain_nil hq
    · next e rest hq =>
      split at h
      · next d' hd =>
        rw [drain_cons hq, hd]
        exact (Work.andThen_done ..).trans (ih h)
      · cases h

theorem through_of_handleWithin? {ps : List Packet} (h : c.handleWithin? n ps = some (d, sent)) :
    Work.through (fun c queue => { c with inbound := queue }) react c ps = .done d sent := by
  induction ps generalizing c sent with
  | nil =>
    cases h
    rfl
  | cons p rest ih =>
    unfold handleWithin? at h
    split at h
    · next node sent' hdispatch =>
      obtain ⟨d', hdrain, h⟩ := Option.bind_eq_some_iff.1 h
      obtain ⟨⟨e, more⟩, hrest, heq⟩ := Option.map_eq_some_iff.1 h
      cases heq
      have hreact : ({ c with inbound := rest } : SharedBank).react p = .done d' sent' := by
        rw [react, hdispatch, Work.andThen, drain_of_drainWithin? hdrain]
        simp [Work.done]
      rw [Work.through, hreact]
      show Work.andThen (.done d' sent') _ = _
      simp only [Work.andThen, Work.done, ih hrest]
    · cases h

theorem tick_of_tickWithin? (h : c.tickWithin? n = some (d, sent)) : c.tick = .done d sent := by
  obtain ⟨⟨d', sent'⟩, hhandled, heq⟩ := Option.map_eq_some_iff.1 h
  cases heq
  rw [tick, through_of_handleWithin? hhandled]
  rfl

end SharedBank

/-! ## Little room -/

/-- Two sets of one way each and two registers. -/
def NodeConfig.narrow : NodeConfig :=
  { cache := { sizeBytes := 64, lineBytes := 32, ways := 1, hitTime := 0, lookupTime := 0 }
    mshrEntries := 2 }

/-- A packet with a message about a line. -/
def Packet.about (line : Addr) (op : Opcode) (src dst : NodeId) : Packet :=
  { tag := 1, src, dst, payload := .coherence (.build op line src) }

/-- A packet with memory's reply about a line. -/
def Packet.supplied (line : Addr) (src dst : NodeId) : Packet :=
  { tag := 2, src, dst, payload := .memory { op := .reply, addr := line, src } }

/-- A write to an address. -/
def Request.write (a : Addr) : Request := { core := 0, access := .write, addr := a }

/-- The processor writes to an address. -/
def ClientInput.write (a : Addr) : ClientInput := .request (.write a)

end CacheCoherence
