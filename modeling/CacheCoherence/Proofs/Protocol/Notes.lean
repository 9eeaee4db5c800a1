import CacheCoherence.Protocol.Manager
import Mathlib.Logic.Function.Basic

/-!
# Notes — the messages about one line

The protocol treats every line by itself, so what is said about one line is
said without its address. A *note* is a message about the line at hand, from
one node to another. What is on its way is counted by note and not ordered:
the order of delivery is a matter of the channels, and most of the protocol
does not depend on it.
-/

namespace CacheCoherence

/-- A message about the line at hand. -/
structure Note where
  src : NodeId
  dst : NodeId
  op : Opcode
  /-- The client to which a forward request sends the data. -/
  forwardTo : Option NodeId := none
deriving DecidableEq, Repr

/-- The opcodes by which a client opens a transaction: it asks for a copy or
gives one up. -/
def Opcode.opens : Opcode → Bool
  | .getS | .getE | .putE | .putM => true
  | _ => false

/-- The opcodes by which a client asks for a copy. -/
def Opcode.asks : Opcode → Bool
  | .getS | .getE => true
  | _ => false

/-- The opcodes that a client takes: the manager's demands and grants, and data
from another client. -/
def Opcode.toClient : Opcode → Bool
  | .fwdS | .fwdE | .demandI | .grantS | .grantE | .grantI | .dataS | .dataE | .dataM => true
  | _ => false

/-- The opcodes by which a client answers the manager. -/
def Opcode.answers : Opcode → Bool
  | .unblockS | .unblockE | .unblockI | .unblockDirty | .clean | .writeback => true
  | _ => false

/-- A reply goes to the manager unless it is for a client. -/
theorem Opcode.answers_of_reply {op : Opcode} (hk : op.kind = .reply) (hc : op.toClient = false) :
    op.answers = true := by
  cases op <;> simp_all [kind, toClient, answers]

/-- The notes that a client transition sends. -/
def ClientTransition.notes (t : ClientTransition) (home me : NodeId) : List Note :=
  t.actions.map fun
    | .toManager op => { src := me, dst := home, op }
    | .toPeer op dest => { src := me, dst := dest, op }

/-- The note that a manager action sends. -/
def ManagerAction.note? (home : NodeId) : ManagerAction → Option Note
  | .send op dest forwardTo => some { src := home, dst := dest, op, forwardTo }
  | _ => none

/-- The notes that a manager transition sends. -/
def ManagerTransition.notes (t : ManagerTransition) (home : NodeId) : List Note :=
  t.actions.filterMap (·.note? home)

/-! ## What is on its way -/

/-- How many copies of each note are on their way. -/
abbrev Flight := Note → Nat

namespace Flight

/-- `g` is what is on its way once, out of `f`, the notes `taken` have arrived and
the notes `out` have been sent. -/
def Moves (f g : Flight) (taken out : List Note) : Prop :=
  ∀ n, g n + taken.count n = f n + out.count n

/-- One move after another. -/
theorem Moves.trans {f g h : Flight} {taken out taken' out' : List Note}
    (hm : f.Moves g taken out) (hm' : g.Moves h taken' out') :
    f.Moves h (taken ++ taken') (out ++ out') := by
  intro n
  have := hm n
  have := hm' n
  simp only [List.count_append]
  omega

/-- What arrives was on its way, unless it is sent in the same move. -/
theorem Moves.pos {f g : Flight} {taken out : List Note} (hm : f.Moves g taken out) {n : Note}
    (ht : n ∈ taken) (ho : n ∉ out) : 0 < f n := by
  have := hm n
  have := List.count_pos_iff.2 ht
  have := List.count_eq_zero.2 ho
  omega

/-- Opening notes apart, exactly the notes `l` are on their way. -/
def Carries (f : Flight) (l : List Note) : Prop :=
  ∀ n, n.op.opens = false → f n = l.count n

theorem Carries.mem {f : Flight} {l : List Note} {n : Note} (h : f.Carries l) (hn : 0 < f n)
    (ho : n.op.opens = false) : n ∈ l := by
  rw [h n ho] at hn
  exact List.count_pos_iff.1 hn

/-- Taking a note out of `l` and sending `out` leaves `l'` on its way. -/
theorem Carries.moves {f g : Flight} {l l' taken out : List Note} (h : f.Carries l)
    (hm : f.Moves g taken out)
    (hl : ∀ n, n.op.opens = false → l'.count n + taken.count n = l.count n + out.count n) :
    g.Carries l' := by
  intro n hn
  have hf := h n hn
  have hg := hm n
  have hc := hl n hn
  omega

/-- Opening notes do not count. -/
theorem Carries.opens {f g : Flight} {l taken out : List Note} (h : f.Carries l)
    (hm : f.Moves g taken out) (ht : ∀ n ∈ taken, n.op.opens = true)
    (ho : ∀ n ∈ out, n.op.opens = true) : g.Carries l := by
  refine h.moves hm fun n hn => ?_
  have h1 : taken.count n = 0 := List.count_eq_zero.2 fun hmem => by simp [ht n hmem] at hn
  have h2 : out.count n = 0 := List.count_eq_zero.2 fun hmem => by simp [ho n hmem] at hn
  omega

end Flight

end CacheCoherence
