import CacheCoherence.Proofs.Driven.Runs

/-!
# Answers — every request is answered once

A request that a cache is given is queued, parked, held by a register or on its way back until it
is answered. It is in one of these places at a time, so it is neither lost nor answered twice.
-/

namespace CacheCoherence.PrivateCache

/-- However a cache is driven, the requests that it was given are those that are queued, parked,
held by registers or on their way back, and those that have been answered. It has counted a hit
or a miss for every request that it has taken up and does not hold back. -/
theorem Served.balance {asked answered : List Request} {c : PrivateCache}
    (h : Served asked answered c) :
    (asked : Multiset Request) = (c.inbound.filterMap ClientInput.request? : List Request)
      + (c.backlog.parked.toList.map Parked.item : List Request)
      + (c.mshr.entries.map fun x => x.2.2.request : List Request)
      + (c.responses.toList : List Request) + (answered : Multiset Request) ∧
    c.counters.processorReads + c.counters.processorWrites
      = c.counters.hits + c.counters.misses + c.backlog.parked.size ∧
    c.responses.size + answered.length + c.mshr.occupancy
      = c.counters.hits + c.counters.misses := by
  have hacc := h.accounts
  have hitems : c.backlog.items = (c.backlog.parked.toList.map Parked.item : List Request) := by
    rw [Backlog.items, hacc.tried, Multiset.coe_nil, add_zero, Multiset.map_coe]
  have hregisters : c.mshr.requests
      = (c.mshr.entries.map fun x => x.2.2.request : List Request) := by
    rw [Mshr.requests, Mshr.transactions, Multiset.map_coe, List.map_map]
    rfl
  have haccesses : c.counters.hits + c.counters.misses
      = c.mshr.occupancy + c.responses.size + answered.length := hacc.accesses
  and_intros
  · rw [hacc.sum, queued, held, hitems, hregisters]
    abel
  · have hrequests : c.counters.processorReads + c.counters.processorWrites
        = c.held.card + answered.length := hacc.requests
    have hheld : c.held.card = c.backlog.parked.size + c.mshr.occupancy + c.responses.size := by
      rw [held, Multiset.card_add, Multiset.card_add, hitems, Mshr.requests, Multiset.card_map,
        Mshr.card_transactions, Multiset.coe_card, Multiset.coe_card, List.length_map,
        ParkingBuffer.size_eq_length_toList, DelayLine.toList, List.length_map]
      rfl
    omega
  · omega

/-- Of eight writes two are answered, two are held by registers and four are parked. -/
theorem Served.balance_of_writes : ∃ c answered,
    Served ([0, 0, 64, 0, 128, 64, 32, 96].map Request.write) answered c ∧
    (answered.length, c.mshr.occupancy, c.backlog.parked.size) = (2, 2, 4) ∧
    (([0, 0, 64, 0, 128, 64, 32, 96].map Request.write : List Request) : Multiset Request)
      = (c.inbound.filterMap ClientInput.request? : List Request)
        + (c.backlog.parked.toList.map Parked.item : List Request)
        + (c.mshr.entries.map fun x => x.2.2.request : List Request)
        + (c.responses.toList : List Request) + (answered : Multiset Request) ∧
    c.counters.processorReads + c.counters.processorWrites
      = c.counters.hits + c.counters.misses + c.backlog.parked.size ∧
    c.responses.size + answered.length + c.mshr.occupancy
      = c.counters.hits + c.counters.misses := by
  let node : NodeId := { index := 0 }
  let near : NodeId := { index := 1 }
  -- the first write fetches line 0, the second finds it there
  obtain ⟨c, answered, hs, hc⟩ := exists_served
    (fun d => (d.2.length, d.1.mshr.occupancy, d.1.backlog.parked.size))
    (show (create? node .narrow {} (.single near)).toOption.bind (fun c =>
        (c.after? [[.write 0], [.packet (.about 0 .grantE near node), .write 0],
          [.write 64, .write 0, .write 128, .write 64, .write 32, .write 96]]).map fun d =>
            (d.2.length, d.1.mshr.occupancy, d.1.backlog.parked.size))
      = some (2, 2, 4) by cbv)
  exact ⟨c, answered, hs, hc, hs.balance⟩

end CacheCoherence.PrivateCache
