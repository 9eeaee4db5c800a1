import CacheCoherence.Proofs.Scene.Sound

/-!
# Silence — a scene in which nothing is on its way

In a silent scene no packet is on its way or about to leave a node. All that the agreement on a
line still counts are the requests that its bank holds back. They only ask for something, so
the manager of the line waits for nobody; and where the bank holds back nothing, no client
waits for anything either.
-/

namespace CacheCoherence

namespace Plan

variable {P : Plan} {b : NodeId} {X : Addr} {n : Note} {ms : Multiset CoherenceMessage}

/-- What is held back does nothing but ask. -/
theorem count_letters_of_asks (hms : ∀ m ∈ ms, P.Asks b m) (hn : n.op.opens = false) :
    P.count X (P.letters b ms) n = 0 := by
  refine Multiset.countP_eq_zero.2 fun p hp heq => ?_
  obtain ⟨m, hm, rfl⟩ := Multiset.mem_map.1 hp
  rw [note?_letter] at heq
  split at heq
  · cases heq
    have hopens := (hms m hm).opens
    rw [show m.op.opens = false from hn] at hopens
    cases hopens
  · cases heq

end Plan

namespace Scene

/-- Nothing is on its way, and nothing is about to be. -/
structure Silent (s : Scene) : Prop where
  outgoing : s.outgoing = 0
  transit : s.transit = 0

variable {P : Plan} {s : Scene} {b : NodeId} {X : Addr} {l : BankLine}

namespace Silent

/-- Only what banks hold back is counted. -/
theorem count_eq (h : s.Silent) (b : NodeId) (X : Addr) (n : Note) :
    P.count X (s.transit + (s.bank b).traffic P b X) n
      = P.count X (P.letters b ((s.bank b).held + BankLine.pending ((s.bank b).line X))) n := by
  rw [h.transit, Multiset.zero_add, BankView.traffic, show (s.bank b).out = 0 from h.outgoing,
    Multiset.zero_add]

/-- Of a line that a bank keeps, the manager waits for nobody, and memory is not asked for it. -/
theorem line_settled (h : s.Silent) (hs : s.Sound P) (hl : (s.bank b).line X = some l) :
    l.controller.isStable = true ∧ l.asked = false := by
  have horderly := hs.orderly b
  obtain rfl : P.home X = b := (horderly.lines X l hl).home
  constructor
  · -- all that is counted is requests, so the manager has nobody's word to wait for
    have hagree := hs.agree X
    rw [BankView.Agrees, BankView.manager_eq hl] at hagree
    refine hagree.stable_of_quiet fun n hn => ?_
    rw [h.count_eq]
    refine Plan.count_letters_of_asks (fun m hm => ?_) hn
    rcases Multiset.mem_add.1 hm with hm | hm
    · exact horderly.held m hm
    · rw [hl, BankLine.pending, Multiset.mem_coe, Option.mem_toList] at hm
      exact ((horderly.lines X l hl).request m hm).1
  · -- memory owes what it has been asked for, and neither question nor answer is on its way
    have hfetches := hs.fetches X
    rw [h.outgoing, h.transit, Packet.tally_zero, hl] at hfetches
    simpa [BankLine.isAsked] using hfetches.symm

/-- Where the bank of a line holds back nothing, no client waits for the line. -/
theorem client_settled (h : s.Silent) (hs : s.Sound P) (hheld : (s.bank (P.home X)).held = 0)
    (hl : ∀ l, (s.bank (P.home X)).line X = some l → l.request = none) (c : NodeId) :
    (s.clients X c).isStable = true := by
  refine (hs.agree X).settled_of_silent (fun n => ?_) c
  have hpending : BankLine.pending ((s.bank (P.home X)).line X) = 0 := by
    cases hline : (s.bank (P.home X)).line X with
    | none => rfl
    | some l =>
      rw [BankLine.pending, Option.bind_some, hl l hline]
      rfl
  rw [h.count_eq, hheld, hpending]
  exact Plan.count_zero

end Silent

end Scene

end CacheCoherence
