import CacheCoherence.Packet.Json
import CacheCoherence.Proofs.Json.Written

/-!
# Packets — packets as texts

A packet may be given in several ways: as an object or as an array, with a forward target that is
left out or `null`. It is written in one, and from what is written the packet is read again.
-/

namespace CacheCoherence

open Json (Written)

theorem Json.written_ofWord (n : UInt64) : Written (.ofWord n) := .nat _

theorem Json.written_ofHalf (n : UInt32) : Written (.ofHalf n) := .nat _

theorem NodeId.written_toJson (n : NodeId) : Written n.toJson := Json.written_ofHalf _

theorem NodeId.written_optionToJson (n : Option NodeId) : Written (NodeId.optionToJson n) := by
  cases n with
  | none => exact .null
  | some n => exact n.written_toJson

theorem CoherenceMessage.written_toJson (m : CoherenceMessage) : Written m.toJson :=
  .object (by simp [Written.text, Written.bool, Json.written_ofWord, NodeId.written_toJson,
    NodeId.written_optionToJson])

theorem MemoryMessage.written_toJson (m : MemoryMessage) : Written m.toJson :=
  .object (by simp [Written.text, Json.written_ofWord, NodeId.written_toJson])

theorem Payload.written_toJson (p : Payload) : Written p.toJson := by
  cases p with
  | coherence m => exact .object (by simpa using m.written_toJson)
  | memory m => exact .object (by simpa using m.written_toJson)
  | credit => exact .text _

theorem Packet.written_toJson (p : Packet) : Written p.toJson :=
  .object (by simp [Json.written_ofHalf, NodeId.written_toJson, Payload.written_toJson])

/-- A packet that is written is read again, both as a value and as a text. So it is with whatever
packet a text gives. -/
theorem Packet.roundtrip :
    (∀ p : Packet, ofJson? p.toJson = some p ∧ parse? p.toJson.print = some p) ∧
    ∀ text p, parse? text = some p → parse? p.toJson.print = some p := by
  have hwritten : ∀ p : Packet, parse? p.toJson.print = some p := by
    intro p
    rw [parse?, Json.parse?_print p.written_toJson, Option.bind_some, ofJson?_toJson]
  exact ⟨fun p => ⟨p.ofJson?_toJson, hwritten p⟩, fun _ p _ => hwritten p⟩

/-- So it is with a packet given as an array, with the greatest address and no forward target. -/
theorem Packet.roundtrip_of_array :
    let p : Packet :=
      { tag := 7, src := ⟨0⟩, dst := ⟨8⟩
        payload := .coherence (.build .getE 0xffffffffffffffff ⟨0⟩) }
    let text := "[7, 0, 8, \x7b\"Coherence\": [\"Request\", \"IToE\", "
      ++ "18446744073709551615, 0, null, true]\x7d]"
    parse? text = some p ∧ parse? p.toJson.print = some p := by
  intro p text
  have hread : parse? text = some p := by decide
  exact ⟨hread, roundtrip.2 text p hread⟩

end CacheCoherence
