import CacheCoherence.Proofs.Hierarchy.Blueprint
import CacheCoherence.Proofs.PrivateCache.Events
import CacheCoherence.Proofs.SharedBank.Events
import CacheCoherence.Proofs.Table.Entries

/-!
# Driven — caches and banks on their own

A cache or a bank need not stand in a hierarchy. It can be given any requests and any packets,
and does its cycles with whatever has arrived. Until it meets a fault, it keeps its lines in
order all the same.
-/

namespace CacheCoherence

/-! ## Transactions -/

/-- The way of the resident line that the transaction is about, if it is about one. -/
def ClientTransaction.resident? : ClientTransaction → Option Handle
  | miss _ => none
  | upgrade way _ => some way

/-- The way of the resident line that the transaction is about, if it is about one. -/
def ManagerTransaction.resident? : ManagerTransaction → Option Handle
  | miss _ => none
  | resident way => some way

theorem ClientTransaction.claim_eq_resident (v : ClientTransaction) (way : Handle) :
    v.claim = .resident way ↔ v.resident? = some way := by
  cases v with
  | miss m => simp only [claim, resident?]; split <;> simp
  | upgrade => simp [claim, resident?]

theorem ManagerTransaction.claim_eq_resident (v : ManagerTransaction) (way : Handle) :
    v.claim = .resident way ↔ v.resident? = some way := by
  cases v with
  | miss m => simp only [claim, resident?]; split <;> simp
  | resident => simp [claim, resident?]

/-! ## Caches -/

namespace PrivateCache

/-- A cache that has been built and then given requests, packets and cycles without a fault. -/
inductive Driven : PrivateCache → Prop
  | create {id : NodeId} {config : NodeConfig} {tags : MessageTags} {route : Route}
      {c : PrivateCache} (hc : create? id config tags route = .ok c) : Driven c
  | request {c : PrivateCache} (hd : Driven c) (r : Request) : Driven (c.request r)
  | receive {c : PrivateCache} (hd : Driven c) (p : Packet) : Driven (c.receive p)
  | tick {c : PrivateCache} (hd : Driven c) (hf : c.tick.1.fault = none) : Driven c.tick.1.node

theorem Driven.settled {c : PrivateCache} (h : Driven c) : Settled c := by
  induction h with
  | create hc => exact ⟨_, _, ⟨rfl, fun _ => rfl, fun _ => rfl⟩, rests_create? (W := wiring _) hc⟩
  | request _ r ih => exact ih.congr rfl rfl rfl rfl rfl
  | receive _ p ih => exact ih.congr rfl rfl rfl rfl rfl
  | tick _ hf ih => exact ih.tick.node hf

end PrivateCache

/-! ## Banks -/

namespace SharedBank

/-- A bank that has been built and then given packets and cycles without a fault. -/
inductive Driven : SharedBank → Prop
  | create {id : NodeId} {config : NodeConfig} {tags : MessageTags} {route : Route}
      {c : SharedBank} (hc : create? id config tags route = .ok c) : Driven c
  | receive {c : SharedBank} (hd : Driven c) (p : Packet) : Driven (c.receive p)
  | tick {c : SharedBank} (hd : Driven c) (hf : c.tick.fault = none) : Driven c.tick.node

theorem Driven.settled {c : SharedBank} (h : Driven c) : Settled c := by
  induction h with
  | create hc => exact ⟨_, _, ⟨rfl, fun _ => rfl, fun _ => rfl⟩, rests_create? (W := wiring _) hc⟩
  | receive _ p ih => exact ih.congr rfl rfl rfl rfl rfl
  | tick _ hf ih => exact ih.tick.node hf

end SharedBank

/-! ## One entry for a line -/

/-- However a cache or a bank is driven, it has at most one entry for every line. -/
theorem single_entry_of_driven :
    (∀ c : PrivateCache, c.Driven → ∀ X,
      SingleEntry ClientTransaction.resident? ClientState.isStable c.table c.mshr X) ∧
    (∀ c : SharedBank, c.Driven → ∀ X,
      SingleEntry ManagerTransaction.resident? ManagerLine.isStable c.table c.mshr X) := by
  constructor
  · intro c hc X
    obtain ⟨P, place, -, hrests⟩ := hc.settled
    exact hrests.toFiling.single ClientTransaction.claim_eq_resident X
  · intro c hc X
    obtain ⟨P, place, -, hrests⟩ := hc.settled
    exact hrests.toFiling.single ManagerTransaction.claim_eq_resident X

/-- A table of two ways and one register. -/
def NodeConfig.tiny : NodeConfig :=
  { cache := { sizeBytes := 64, lineBytes := 32, ways := 2, hitTime := 0, lookupTime := 0 }
    mshrEntries := 1 }

/-- A cache and a bank that have been asked for a line each have an entry for it. -/
theorem single_entry_of_asked : ∃ c b, PrivateCache.Driven c ∧ SharedBank.Driven b ∧
    (c.mshr.slots.listed 0).length = 1 ∧ (b.mshr.slots.listed 0).length = 1 ∧
    SingleEntry ClientTransaction.resident? ClientState.isStable c.table c.mshr 0 ∧
    SingleEntry ManagerTransaction.resident? ManagerLine.isStable b.table b.mshr 0 := by
  let peer : NodeId := { index := 1 }
  let r : Request := { core := 0, access := .write, addr := 0 }
  let p : Packet :=
    { tag := 1, src := peer, dst := { index := 0 }, payload := .coherence (.build .getE 0 peer) }
  obtain ⟨c, hc, hcache⟩ := map_eq_ok
    (show (PrivateCache.create? { index := 0 } .tiny {} (.single peer)).map (fun c =>
        ((c.request r).tick.1.fault, ((c.request r).tick.1.node.mshr.slots.listed 0).length))
      = .ok (none, 1) by cbv)
  obtain ⟨b, hb, hbank⟩ := map_eq_ok
    (show (SharedBank.create? { index := 0 } .tiny {} (.single peer)).map (fun b =>
        ((b.receive p).tick.fault, ((b.receive p).tick.node.mshr.slots.listed 0).length))
      = .ok (none, 1) by cbv)
  obtain ⟨hcf, hcl⟩ := Prod.mk.inj hcache
  obtain ⟨hbf, hbl⟩ := Prod.mk.inj hbank
  have hcd : PrivateCache.Driven (c.request r).tick.1.node :=
    .tick (.request (.create hc) r) hcf
  have hbd : SharedBank.Driven (b.receive p).tick.node :=
    .tick (.receive (.create hb) p) hbf
  exact ⟨_, _, hcd, hbd, hcl, hbl, single_entry_of_driven.1 _ hcd 0,
    single_entry_of_driven.2 _ hbd 0⟩

end CacheCoherence
