import CacheCoherence.Proofs.PrivateCache.Filed
import CacheCoherence.Proofs.SharedBank.Orderly

/-!
# Scene — all nodes at once, seen from outside

A scene holds what is seen of every node, the packets that are about to leave some node,
and the packets that have left one and are not handled yet. A hierarchy moves from scene
to scene in small steps: a node handles one packet, does one thing by itself, or lets one
packet leave. In which order nodes and packets take turns is not fixed here.
-/

namespace CacheCoherence

open Function (update update_self update_of_ne)

/-- What is seen of a node. A client has states, a bank has records. -/
structure NodeView where
  state : Addr → ClientState := fun _ => .I
  line : Addr → Option BankLine := fun _ => none
  held : Multiset CoherenceMessage := 0
  credits : Nat := 0

/-- What is seen of all nodes. -/
structure Scene where
  node : NodeId → NodeView
  /-- Packets that are about to leave a node. -/
  outgoing : Multiset Packet
  /-- Packets that have left a node and are not handled yet. -/
  transit : Multiset Packet

namespace Scene

variable (P : Plan)

/-- The bank `b` in a scene. -/
def bank (s : Scene) (b : NodeId) : BankView where
  line := (s.node b).line
  held := (s.node b).held
  out := s.outgoing

/-- The states of one line at all clients. -/
def clients (s : Scene) (X : Addr) : NodeId → ClientState := fun c => (s.node c).state X

/-- The bank `b` has become `w`. -/
def setBank (s : Scene) (b : NodeId) (w : BankView) : Scene :=
  { s with
    node := update s.node b { s.node b with line := w.line, held := w.held }
    outgoing := w.out }

/-- The client `n` has made a transition on the line `X`. -/
def moveClient (s : Scene) (n : NodeId) (X : Addr) (t : ClientTransition) : Scene :=
  { s with
    node := update s.node n { s.node n with state := update (s.node n).state X t.next }
    outgoing := s.outgoing + P.clientPosts n X t.actions }

/-- A packet is taken by its receiver, who returns a credit; `T` are the others. -/
def consume (s : Scene) (p : Packet) (T : Multiset Packet) : Scene :=
  { s with transit := P.creditTo p.dst p.src ::ₘ T }

/-- The credits of the node `n` have changed. -/
def setCredits (s : Scene) (n : NodeId) (k : Nat) : Scene :=
  { s with node := update s.node n { s.node n with credits := k } }

/-- One step of a node in the role `r`. -/
inductive Step : Role → Scene → Scene → Prop
  /-- A processor accesses a line, or its cache evicts one. -/
  | access {s : Scene} {n : NodeId} {X : Addr} {op : ProcessorOp} {t : ClientTransition}
      (hn : P.role n = some .client) (hX : P.lineOf X = X)
      (ht : ((s.node n).state X).onProcessor op = some t) :
      Step .client s (s.moveClient P n X t)
  /-- A client takes a message. -/
  | message {s : Scene} {p : Packet} {m : CoherenceMessage} {X : Addr} {t : ClientTransition}
      {T : Multiset Packet} (hn : P.role p.dst = some .client) (hp : s.transit = p ::ₘ T)
      (hm : p.payload = .coherence m) (hX : P.lineOf m.addr = X)
      (ht : ((s.node p.dst).state X).onMessage m.op m.forwardTo = some t) :
      Step .client s ((s.consume P p T).moveClient P p.dst X t)
  /-- A bank does something by itself. -/
  | work {s : Scene} {b : NodeId} {w : BankView} (hb : P.role b = some .bank)
      (h : BankView.Step P b (s.bank b) w) : Step .bank s (s.setBank b w)
  /-- A bank takes a request up. -/
  | arrive {s : Scene} {p : Packet} {m : CoherenceMessage} {T : Multiset Packet}
      (hb : P.role p.dst = some .bank) (hp : s.transit = p ::ₘ T)
      (hm : p.payload = .coherence m) (hk : m.kind = .request) :
      Step .bank s ((s.consume P p T).setBank p.dst ((s.bank p.dst).hold m))
  /-- A bank takes a client's reply. -/
  | reply {s : Scene} {p : Packet} {m : CoherenceMessage} {X : Addr} {l : ManagerLine} {d : Bool}
      {t : ManagerTransition} {T : Multiset Packet} (hb : P.role p.dst = some .bank)
      (hp : s.transit = p ::ₘ T) (hm : p.payload = .coherence m) (hX : P.lineOf m.addr = X)
      (hl : (s.bank p.dst).line X = some { controller := l, dirty := d })
      (ht : l.onReply m.op m.src = some t) :
      Step .bank s ((s.consume P p T).setBank p.dst ((s.bank p.dst).put X
        (some { controller := t.next, dirty := d || t.returnsData })
        (P.managerPosts p.dst X t.actions)))
  /-- A bank takes memory's reply. -/
  | fetched {s : Scene} {p : Packet} {m : MemoryMessage} {q : CoherenceMessage} {X : Addr}
      {l : ManagerLine} {d : Bool} {t : ManagerTransition} {T : Multiset Packet}
      (hb : P.role p.dst = some .bank) (hp : s.transit = p ::ₘ T)
      (hm : p.payload = .memory m) (hX : P.lineOf m.addr = X)
      (hl : (s.bank p.dst).line X
        = some { controller := l, dirty := d, request := some q, asked := true })
      (ht : l.onRequest q.op q.src = some t) :
      Step .bank s ((s.consume P p T).setBank p.dst ((s.bank p.dst).put X
        (some { controller := t.next, dirty := d || t.returnsData })
        (P.managerPosts p.dst X t.actions)))
  /-- Memory reads a line. -/
  | read {s : Scene} {p : Packet} {m : MemoryMessage} {T : Multiset Packet}
      (hr : P.role p.dst = some .memory) (hp : s.transit = p ::ₘ T)
      (hm : p.payload = .memory m) (hop : m.op = .read) :
      Step .memory s { s.consume P p T with
        outgoing := s.outgoing + {P.suppliedPacket m.addr} }
  /-- Memory takes a line back. -/
  | write {s : Scene} {p : Packet} {m : MemoryMessage} {T : Multiset Packet}
      (hr : P.role p.dst = some .memory) (hp : s.transit = p ::ₘ T)
      (hm : p.payload = .memory m) (hop : m.op = .write) :
      Step .memory s (s.consume P p T)
  /-- A node takes a credit back. -/
  | refund {s : Scene} {r : Role} {p : Packet} {T : Multiset Packet}
      (hr : P.role p.dst = some r) (hp : s.transit = p ::ₘ T) (hm : p.payload = .credit) :
      Step r s { s.setCredits p.dst ((s.node p.dst).credits + 1) with transit := T }
  /-- A packet leaves its node for a credit. -/
  | leave {s : Scene} {r : Role} {p : Packet} {R : Multiset Packet} {k : Nat}
      (hr : P.role p.src = some r) (hp : s.outgoing = p ::ₘ R) (hc : p.isCredit = false)
      (hk : (s.node p.src).credits = k + 1) :
      Step r s { s.setCredits p.src k with outgoing := R, transit := p ::ₘ s.transit }

/-- A run of steps of nodes in the role `r`. -/
def Run (r : Role) : Scene → Scene → Prop := Relation.ReflTransGen (Step P r)

/-! ## Nodes -/

variable {P} {s : Scene} {n b : NodeId} {X : Addr}

theorem bank_setBank (w : BankView) : (s.setBank b w).bank b = w := by
  simp [bank, setBank]

theorem bank_setBank_ne {c : NodeId} (h : c ≠ b) (w : BankView) :
    (s.setBank b w).bank c = (s.bank c).withOut w.out := by
  simp [bank, setBank, h, BankView.withOut]

theorem bank_moveClient (c : NodeId) (t : ClientTransition) :
    (s.moveClient P n X t).bank c
      = (s.bank c).withOut (s.outgoing + P.clientPosts n X t.actions) := by
  by_cases h : c = n
  · subst h
    simp [bank, moveClient, BankView.withOut]
  · simp [bank, moveClient, h, BankView.withOut]

theorem bank_setCredits (c : NodeId) (k : Nat) : (s.setCredits n k).bank c = s.bank c := by
  by_cases h : c = n
  · subst h
    simp [bank, setCredits]
  · simp [bank, setCredits, h]

theorem clients_moveClient (t : ClientTransition) :
    (s.moveClient P n X t).clients X = update (s.clients X) n t.next := by
  funext c
  by_cases h : c = n
  · subst h
    simp [clients, moveClient]
  · simp [clients, moveClient, h]

theorem clients_moveClient_ne {Y : Addr} (h : Y ≠ X) (t : ClientTransition) :
    (s.moveClient P n X t).clients Y = s.clients Y := by
  funext c
  by_cases hc : c = n
  · subst hc
    simp [clients, moveClient, h]
  · simp [clients, moveClient, hc]

theorem clients_setBank (w : BankView) : (s.setBank b w).clients X = s.clients X := by
  funext c
  by_cases h : c = b
  · subst h
    simp [clients, setBank]
  · simp [clients, setBank, h]

theorem clients_setCredits (k : Nat) : (s.setCredits n k).clients X = s.clients X := by
  funext c
  by_cases h : c = n
  · subst h
    simp [clients, setCredits]
  · simp [clients, setCredits, h]

theorem credits_setBank (w : BankView) (c : NodeId) :
    ((s.setBank b w).node c).credits = (s.node c).credits := by
  by_cases h : c = b
  · subst h
    simp [setBank]
  · simp [setBank, h]

theorem credits_moveClient (t : ClientTransition) (c : NodeId) :
    ((s.moveClient P n X t).node c).credits = (s.node c).credits := by
  by_cases h : c = n
  · subst h
    simp [moveClient]
  · simp [moveClient, h]

end Scene

end CacheCoherence
