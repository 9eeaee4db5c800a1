import CacheCoherence.Proofs.Protocol.Naming
import CacheCoherence.Proofs.Scene.Plan

/-!
# Fits — packets that are addressed to the right node

In a hierarchy requests and answers go from clients to the bank of their line, what
clients take goes to clients, and memory messages go between the bank and the controller
of their line. What the tables make a node send is of this kind again.
-/

namespace CacheCoherence

namespace Packet

/-- The packet stands for a credit of the node `n`: the node sent it, or gets the credit
back with it. -/
def standsFor (n : NodeId) (p : Packet) : Bool := if p.isCredit then p.dst == n else p.src == n

/-- The packet asks memory for the line `X` or answers that. -/
def fetches (X : Addr) (p : Packet) : Bool :=
  match p.payload with
  | .memory m => m.addr == X && m.op != .write
  | _ => false

/-- How many packets satisfy `q`. -/
def tally (q : Packet → Bool) (ps : Multiset Packet) : Nat := ps.countP (q · = true)

variable {q : Packet → Bool}

theorem tally_add (ps ps' : Multiset Packet) : tally q (ps + ps') = tally q ps + tally q ps' :=
  Multiset.countP_add ..

theorem tally_cons (p : Packet) (ps : Multiset Packet) :
    tally q (p ::ₘ ps) = (q p).toNat + tally q ps := by
  rw [tally, Multiset.countP_cons, ← tally, Nat.add_comm]
  cases q p <;> rfl

@[simp] theorem tally_zero : tally q 0 = 0 := Multiset.countP_zero _

theorem tally_singleton (p : Packet) : tally q {p} = (q p).toNat := by
  rw [← Multiset.cons_zero, tally_cons, tally_zero, Nat.add_zero]

theorem tally_eq_zero {ps : Multiset Packet} (h : ∀ p ∈ ps, q p = false) : tally q ps = 0 :=
  Multiset.countP_eq_zero.2 fun p hp => by simp [h p hp]

end Packet

namespace Plan

open Wiring (letter clientPacket managerPacket? clientPosts managerPosts memoryPacket creditTo)

variable (P : Plan)

/-- A request of a client for a line of the bank `b`. -/
structure Asks (b : NodeId) (m : CoherenceMessage) : Prop where
  src : P.role m.src = some .client
  opens : m.op.opens = true
  forwardTo : m.forwardTo = none
  home : P.home (P.lineOf m.addr) = b

/-- Memory's reply about the line `X`. -/
def suppliedPacket (X : Addr) : Packet :=
  { tag := P.tags.memory
    src := P.store X
    dst := P.home X
    payload := .memory { op := .reply, addr := X, src := P.store X } }

/-- A packet that may be on its way. -/
inductive Fits : Packet → Prop
  | credit {me peer : NodeId} (h : P.role peer ≠ none) : Fits (P.creditTo me peer)
  | request {b : NodeId} {m : CoherenceMessage} (h : P.Asks b m) (hk : m.kind = .request) :
      Fits (P.letter m.src b m)
  | answer {m : CoherenceMessage} (hs : P.role m.src = some .client) (hop : m.op.answers = true)
      (hf : m.forwardTo = none) (hk : m.kind = .reply) :
      Fits (P.letter m.src (P.home (P.lineOf m.addr)) m)
  | order {dst : NodeId} {m : CoherenceMessage} (hs : P.role m.src ≠ none)
      (hd : P.role dst = some .client) (hop : m.op.toClient = true)
      (hf : ∀ r, m.forwardTo = some r → P.role r = some .client)
      (hdem : m.op = .demandI → m.src = P.home (P.lineOf m.addr)) : Fits (P.letter m.src dst m)
  | ask {op : MemoryOp} {X : Addr} (hX : P.lineOf X = X) (hop : op ≠ .reply) :
      Fits (P.memoryPacket (P.home X) op X)
  | supplied {X : Addr} (hX : P.lineOf X = X) : Fits (P.suppliedPacket X)

variable {P} {X Y : Addr} {me : NodeId} {p : Packet}

/-- There is a node for every packet that fits. -/
theorem Fits.role_dst (h : P.Fits p) : P.role p.dst ≠ none := by
  cases h with
  | credit h => exact h
  | request h => simp [letter, ← h.home, P.role_home]
  | answer => simp [letter, P.role_home]
  | order _ hd => simp [letter, hd]
  | ask => simp [memoryPacket, P.role_store]
  | supplied => simp [suppliedPacket, P.role_home]

theorem Fits.role_src (h : P.Fits p) (hc : p.isCredit = false) : P.role p.src ≠ none := by
  cases h with
  | credit => simp [creditTo, Packet.isCredit] at hc
  | request h => simp [letter, h.src]
  | answer hs => simp [letter, hs]
  | order hs => exact hs
  | ask => simp [memoryPacket, P.role_home]
  | supplied => simp [suppliedPacket, P.role_store]

/-! ## What the tables make a node send -/

theorem mem_clientPosts {t : ClientTransition} (hp : p ∈ P.clientPosts me X t.actions) :
    ∃ n ∈ t.notes (P.home X) me, p = P.letter me n.dst (.build n.op X me) := by
  obtain ⟨a, ha, rfl⟩ := List.mem_map.1 hp
  cases a with
  | toManager op => exact ⟨_, List.mem_map.2 ⟨_, ha, rfl⟩, rfl⟩
  | toPeer op dest => exact ⟨_, List.mem_map.2 ⟨_, ha, rfl⟩, rfl⟩

theorem mem_managerPosts {t : ManagerTransition} (hp : p ∈ P.managerPosts me X t.actions) :
    ∃ n ∈ t.notes me,
      p = P.letter me n.dst { CoherenceMessage.build n.op X me with forwardTo := n.forwardTo } := by
  obtain ⟨a, ha, hp⟩ := List.mem_filterMap.1 hp
  cases a <;> cases hp
  exact ⟨_, List.mem_filterMap.2 ⟨_, ha, rfl⟩, rfl⟩

/-- An access makes a client send requests. -/
theorem fits_of_onProcessor (hme : P.role me = some .client) (hX : P.lineOf X = X)
    {s : ClientState} {op : ProcessorOp} {t : ClientTransition} (ht : s.onProcessor op = some t)
    (hp : p ∈ P.clientPosts me X t.actions) : P.Fits p ∧ p.src = me ∧ p.isCredit = false := by
  obtain ⟨n, hn, rfl⟩ := mem_clientPosts hp
  obtain ⟨-, hdst, -, hop⟩ := ClientState.onProcessor_names (P.home X) me ht n hn
  refine ⟨.request (m := .build n.op X me) ⟨hme, hop, rfl, ?_⟩ ?_, rfl, rfl⟩
  · rw [hdst, CoherenceMessage.build, hX]
  · show n.op.kind = .request
    cases h : n.op <;> simp [h, Opcode.opens] at hop <;> rfl

/-- A message makes a client answer the bank, or send data to another client. -/
theorem fits_of_onMessage (hme : P.role me = some .client) (hX : P.lineOf X = X)
    {s : ClientState} {op : Opcode} {fwd : Option NodeId} {t : ClientTransition}
    (hf : ∀ r, fwd = some r → P.role r = some .client) (ht : s.onMessage op fwd = some t)
    (hp : p ∈ P.clientPosts me X t.actions) : P.Fits p ∧ p.src = me ∧ p.isCredit = false := by
  obtain ⟨n, hn, rfl⟩ := mem_clientPosts hp
  have hme' : P.role (CoherenceMessage.build n.op X me).src = some .client := hme
  obtain ⟨-, -, ⟨hop, hdst⟩ | ⟨hop, hdst⟩⟩ :=
    ClientState.onMessage_names (P := fun c => P.role c = some .client) (P.home X) me ht hf n hn
  · refine ⟨?_, rfl, rfl⟩
    have hfit : P.Fits (P.letter me (P.home (P.lineOf X)) (.build n.op X me)) := by
      refine .answer (m := .build n.op X me) hme' hop rfl ?_
      show n.op.kind = .reply
      cases h : n.op <;> simp [h, Opcode.answers] at hop <;> rfl
    rwa [hX, ← hdst] at hfit
  · refine ⟨.order (m := .build n.op X me) (by simp [hme']) hdst hop (fun r hr => by cases hr) ?_, rfl, rfl⟩
    intro hdem
    exact absurd hdem (ClientState.not_demandI_of_onMessage _ _ ht n hn)

/-- What a bank sends to a client that it knows fits. -/
theorem fits_of_note {n : Note} (hX : P.lineOf X = X) (hme : P.home X = me)
    (hn : n.Names fun c => P.role c = some .client) (hop : n.op.toClient = true) :
    P.Fits (P.letter me n.dst
      { CoherenceMessage.build n.op X me with forwardTo := n.forwardTo }) := by
  refine .order (m := { CoherenceMessage.build n.op X me with forwardTo := n.forwardTo }) ?_ hn.dst
    hop hn.forwardTo fun _ => ?_
  · show P.role me ≠ none
    rw [← hme, P.role_home]
    exact nofun
  · show me = P.home (P.lineOf X)
    rw [hX, hme]

end Plan

end CacheCoherence
