import CacheCoherence.Proofs.Protocol.Notes
import CacheCoherence.Proofs.Scene.Wiring
import CacheCoherence.Routing
import Mathlib.Data.Multiset.Filter

/-!
# Plan — who is who, and what a packet says about a line

The nodes of a hierarchy share a few fixed data: the tags, the size of a line, the bank
and the memory controller of every line. With these a packet can be read as a note
about one line, and the actions of a transition can be written as packets. What is on
its way is collected without an order.
-/

namespace CacheCoherence

/-- What a node is. -/
inductive Role where
  | client
  | bank
  | memory
deriving DecidableEq, Repr

/-- What the nodes of a hierarchy have in common, and what each of them is. -/
structure Plan extends Wiring where
  /-- What each node is. -/
  role : NodeId → Option Role
  /-- The credits that a node holds when nothing is on its way. -/
  quota : NodeId → Nat
  role_home : ∀ X, role (home X) = some .bank
  role_store : ∀ X, role (store X) = some .memory

/-- A node does not need to know what the others are. -/
instance : Coe Plan Wiring := ⟨Plan.toWiring⟩

namespace Plan

open Wiring (letter clientPacket managerPacket? clientPosts managerPosts)

variable (P : Plan)

/-! ## Reading packets -/

/-- What a packet says about the line `X`. -/
def note? (X : Addr) (p : Packet) : Option Note :=
  match p.payload with
  | .coherence m =>
      if P.lineOf m.addr = X then
        some { src := m.src, dst := p.dst, op := m.op, forwardTo := m.forwardTo }
      else none
  | _ => none

/-- How often the note `n` about the line `X` stands in packets. -/
def count (X : Addr) (ps : Multiset Packet) (n : Note) : Nat :=
  ps.countP fun p => P.note? X p = some n

variable {P} {X Y : Addr} {me : NodeId} {n : Note}

theorem count_add (ps qs : Multiset Packet) :
    P.count X (ps + qs) n = P.count X ps n + P.count X qs n :=
  Multiset.countP_add ..

theorem count_cons (p : Packet) (ps : Multiset Packet) :
    P.count X (p ::ₘ ps) n = (P.note? X p).toList.count n + P.count X ps n := by
  rw [count, Multiset.countP_cons, ← count, Nat.add_comm]
  congr 1
  cases h : P.note? X p with
  | none => simp
  | some k => by_cases hk : k = n <;> simp [hk]

@[simp] theorem count_zero : P.count X 0 n = 0 := Multiset.countP_zero _

theorem count_coe (ps : List Packet) :
    P.count X (ps : Multiset Packet) n = (ps.filterMap (P.note? X)).count n := by
  induction ps with
  | nil => rfl
  | cons p ps ih =>
    rw [← Multiset.cons_coe, count_cons, ih]
    cases h : P.note? X p <;> simp [h, List.count_cons, Nat.add_comm]

/-- A packet that is there is counted. -/
theorem count_pos {ps : Multiset Packet} {p : Packet} (hp : p ∈ ps) (h : P.note? X p = some n) :
    0 < P.count X ps n :=
  Multiset.countP_pos.2 ⟨p, hp, h⟩

@[simp] theorem note?_credit (peer : NodeId) : P.note? X (P.creditTo me peer) = none := rfl

theorem note?_letter (src dst : NodeId) (m : CoherenceMessage) :
    P.note? X (P.letter src dst m) =
      if P.lineOf m.addr = X then
        some { src := m.src, dst, op := m.op, forwardTo := m.forwardTo }
      else none := rfl

/-- The packets of a client's transition carry its notes. -/
theorem count_clientPosts (hX : P.lineOf X = X) (t : ClientTransition) :
    P.count X (P.clientPosts me X t.actions) n = (t.notes (P.home X) me).count n := by
  rw [clientPosts, count_coe, ClientTransition.notes, List.filterMap_map]
  congr 1
  rw [← List.filterMap_eq_map]
  refine List.filterMap_congr fun a _ => ?_
  cases a <;> simp [clientPacket, note?_letter, CoherenceMessage.build, hX]

theorem count_clientPosts_ne (hX : P.lineOf X = X) (hXY : X ≠ Y) (actions : List ClientAction) :
    P.count Y (P.clientPosts me X actions) n = 0 := by
  rw [clientPosts, count_coe, List.filterMap_map, List.count_eq_zero]
  intro hmem
  obtain ⟨a, -, ha⟩ := List.mem_filterMap.1 hmem
  cases a <;> simp [clientPacket, note?_letter, CoherenceMessage.build, hX, hXY] at ha

/-- The packets of a manager's transition carry its notes. -/
theorem count_managerPosts (hX : P.lineOf X = X) (t : ManagerTransition) :
    P.count X (P.managerPosts me X t.actions) n = (t.notes me).count n := by
  rw [managerPosts, count_coe, ManagerTransition.notes, List.filterMap_filterMap]
  congr 1
  refine List.filterMap_congr fun a _ => ?_
  cases a <;> simp [managerPacket?, note?_letter, CoherenceMessage.build, hX, ManagerAction.note?]

theorem count_managerPosts_ne (hX : P.lineOf X = X) (hXY : X ≠ Y) (actions : List ManagerAction) :
    P.count Y (P.managerPosts me X actions) n = 0 := by
  rw [managerPosts, count_coe, List.filterMap_filterMap, List.count_eq_zero]
  intro hmem
  obtain ⟨a, -, ha⟩ := List.mem_filterMap.1 hmem
  cases a <;> simp [managerPacket?, note?_letter, CoherenceMessage.build, hX, hXY] at ha

end Plan

end CacheCoherence
