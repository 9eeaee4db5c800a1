import CacheCoherence.Proofs.Protocol.Acceptance
import CacheCoherence.Proofs.Protocol.Naming

/-!
# Exchange — one line over ordered channels

A manager and any number of clients exchange messages about one line. Between any
two nodes messages keep their order, and nothing else is said about when they arrive.
The manager answers replies at once and takes requests up one at a time, in the order
of their arrival, whenever its line is stable.
-/

namespace CacheCoherence

open Function (update update_self update_of_ne)

/-- A manager and its clients. -/
structure Parties where
  home : NodeId
  clients : List NodeId
  home_notMem : home ∉ clients

/-- One line: the clients, the manager's record, the channels between all nodes, and
the requests that the manager has yet to take up. -/
structure Exchange where
  client : NodeId → ClientState
  line : ManagerLine
  /-- The notes on their way from one node to another, oldest first. -/
  channel : NodeId → NodeId → List Note
  /-- The requests that have arrived, oldest first. -/
  queue : List Note

/-- What may happen next. -/
inductive ExchangeEvent where
  /-- The processor of a client loads, stores or evicts. -/
  | access (c : NodeId) (op : ProcessorOp)
  /-- A client takes the oldest note from `src`. -/
  | receive (c src : NodeId)
  /-- The manager takes the oldest note from `src`. -/
  | collect (src : NodeId)
  /-- The manager takes a request up. -/
  | serve
  /-- The manager's own cache replaces the line. -/
  | replace
deriving DecidableEq, Repr

/-- The event for which a table has no entry. -/
inductive Refusal where
  | client (r : ClientRejection)
  | manager (r : ManagerRejection)
deriving DecidableEq, Repr

namespace Exchange

variable (p : Parties)

/-- At the start nobody holds the line and nothing is on its way. -/
def initial : Exchange :=
  { client := fun _ => .I, line := .initial, channel := fun _ _ => [], queue := [] }

/-- Puts notes on their way. -/
def post (x : Exchange) (notes : List Note) : Exchange :=
  { x with channel := fun s d => x.channel s d ++ notes.filter fun n => n.src = s ∧ n.dst = d }

/-- Leaves `rest` on the way from `src` to `dst`. -/
def leave (x : Exchange) (src dst : NodeId) (rest : List Note) : Exchange :=
  { x with channel := fun s d => if s = src ∧ d = dst then rest else x.channel s d }

/-- A transition of client `c`. -/
def clientStep (x : Exchange) (c : NodeId) (event : ClientEvent) : Except Refusal Exchange :=
  match (x.client c).transition event with
  | .ok t => .ok (({ x with client := update x.client c t.next }).post (t.notes p.home c))
  | .error r => .error (.client r)

/-- A transition of the manager. -/
def managerStep (x : Exchange) (event : ManagerEvent) : Except Refusal Exchange :=
  match x.line.transition event with
  | .ok t => .ok (({ x with line := t.next }).post (t.notes p.home))
  | .error r => .error (.manager r)

/-- What an event leads to: `none` when it cannot happen now. -/
def react (x : Exchange) : ExchangeEvent → Option (Except Refusal Exchange)
  | .access c op =>
      if c ∈ p.clients ∧ (x.client c).isStable then some (x.clientStep p c (.processor op)) else none
  | .receive c src =>
      match x.channel src c with
      | n :: rest =>
          if c ∈ p.clients then
            some ((x.leave src c rest).clientStep p c (.message n.op src n.forwardTo))
          else none
      | [] => none
  | .collect src =>
      match x.channel src p.home with
      | n :: rest =>
          let x := x.leave src p.home rest
          match n.op.kind with
          | .request => some (.ok { x with queue := x.queue ++ [n] })
          | .reply => some (x.managerStep p (.reply n.op src))
      | [] => none
  | .serve =>
      match x.queue with
      | n :: rest =>
          if x.line.isStable then
            some (({ x with queue := rest }).managerStep p (.request n.op n.src))
          else none
      | [] => none
  | .replace => if x.line.isStable then some (x.managerStep p .evict) else none

/-- `x` comes about by a run of accepted events. -/
inductive Reachable : Exchange → Prop
  | initial : Reachable initial
  | next {x y : Exchange} {e : ExchangeEvent} (h : Reachable x) (he : x.react p e = some (.ok y)) :
      Reachable y

/-! ## What is on its way -/

/-- What is on its way, requests that are yet to be taken up included. -/
def flight (x : Exchange) : Flight := fun n => (x.channel n.src n.dst).count n + x.queue.count n

/-- The requests and notices of client `c` that the manager has not taken up, oldest
first. -/
def opened (x : Exchange) (c : NodeId) : List Opcode :=
  ((x.queue ++ x.channel c p.home).filter fun n => n.src = c ∧ n.op.opens).map (·.op)

theorem flight_post (x : Exchange) (notes : List Note) (n : Note) :
    (x.post notes).flight n = x.flight n + notes.count n := by
  simp only [flight, post, List.count_append]
  rw [List.count_filter (by simp)]
  omega

theorem flight_leave {x : Exchange} {src dst : NodeId} {n : Note} {rest : List Note}
    (h : x.channel src dst = n :: rest) (hn : n.src = src ∧ n.dst = dst) (k : Note) :
    (x.leave src dst rest).flight k + [n].count k = x.flight k := by
  simp only [flight, leave]
  by_cases hk : k.src = src ∧ k.dst = dst
  · rw [if_pos hk, hk.1, hk.2, h]
    simp only [List.count_cons, List.count_nil]
    omega
  · have hne : [n].count k = 0 := by
      refine List.count_eq_zero.2 fun hmem => hk ?_
      rw [List.mem_singleton.1 hmem]
      exact hn
    rw [if_neg hk, hne, Nat.add_zero]

theorem opened_post (x : Exchange) (notes : List Note) (c : NodeId) :
    (x.post notes).opened p c = x.opened p c ++
      (notes.filter fun n => (n.src = c ∧ n.dst = p.home) ∧ n.op.opens).map (·.op) := by
  simp only [opened, post, List.filter_append, List.map_append, List.filter_filter,
    List.append_assoc]
  congr 4
  funext n
  by_cases h1 : n.src = c <;> by_cases h2 : n.dst = p.home <;> simp [h1, h2]

end Exchange

end CacheCoherence
