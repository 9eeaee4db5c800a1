import CacheCoherence.Json.Reader
import CacheCoherence.Packet

/-!
# Packets as JSON

A packet is a record; its payload is an object with one member, named for the kind
of contents, and a credit, which has no contents, may be just that name. All
members must be there except the forward target, which may also be `null`.
-/

namespace CacheCoherence

open Json (Record)

/-! ## Writing -/

def NodeId.toJson (n : NodeId) : Json := .ofHalf n.index

/-- A node id, or `null`. -/
def NodeId.optionToJson : Option NodeId → Json
  | none => .null
  | some n => n.toJson

def CoherenceMessage.toJson (m : CoherenceMessage) : Json := .ofMembers [
  ("kind", .text m.kind.ident),
  ("op", .text m.op.ident),
  ("addr", .ofWord m.addr),
  ("src", m.src.toJson),
  ("forward_to", NodeId.optionToJson m.forwardTo),
  ("write", .bool m.write)]

def MemoryMessage.toJson (m : MemoryMessage) : Json := .ofMembers [
  ("op", .text m.op.ident),
  ("addr", .ofWord m.addr),
  ("src", m.src.toJson)]

def Payload.toJson : Payload → Json
  | .coherence m => .ofMembers [("Coherence", m.toJson)]
  | .memory m => .ofMembers [("Memory", m.toJson)]
  | .credit => .text "Credit"

def Packet.toJson (p : Packet) : Json := .ofMembers [
  ("tag", .ofHalf p.tag),
  ("src", p.src.toJson),
  ("dst", p.dst.toJson),
  ("payload", p.payload.toJson)]

/-! ## Reading -/

def NodeId.ofJson? (v : Json) : Option NodeId := v.half?.map NodeId.mk

def CoherenceMessage.ofJson? (v : Json) : Option CoherenceMessage := do
  let r ← v.record? ["kind", "op", "addr", "src", "forward_to", "write"]
  return {
    kind := ← r.member? "kind" (Json.name? MessageKind.ofIdent?)
    op := ← r.member? "op" (Json.name? Opcode.ofIdent?)
    addr := ← r.member? "addr" Json.word?
    src := ← r.member? "src" NodeId.ofJson?
    forwardTo := ← r.memberOr? "forward_to" (Json.nullable? NodeId.ofJson?) none
    write := ← r.member? "write" Json.bool? }

def MemoryMessage.ofJson? (v : Json) : Option MemoryMessage := do
  let r ← v.record? ["op", "addr", "src"]
  return {
    op := ← r.member? "op" (Json.name? MemoryOp.ofIdent?)
    addr := ← r.member? "addr" Json.word?
    src := ← r.member? "src" NodeId.ofJson? }

def Payload.ofJson? : Json → Option Payload
  | .object [(some "Coherence", v)] => (CoherenceMessage.ofJson? v).map .coherence
  | .object [(some "Memory", v)] => (MemoryMessage.ofJson? v).map .memory
  | .object [(some "Credit", .null)] => some .credit
  | .str (some "Credit") => some .credit
  | _ => none

def Packet.ofJson? (v : Json) : Option Packet := do
  let r ← v.record? ["tag", "src", "dst", "payload"]
  return {
    tag := ← r.member? "tag" Json.half?
    src := ← r.member? "src" NodeId.ofJson?
    dst := ← r.member? "dst" NodeId.ofJson?
    payload := ← r.member? "payload" Payload.ofJson? }

/-- The packet that a text gives. -/
def Packet.parse? (text : String) : Option Packet := (Json.parse? text).bind Packet.ofJson?

/-! ## Reading what was written -/

@[simp] theorem NodeId.ofJson?_toJson (n : NodeId) : ofJson? n.toJson = some n := by
  simp [ofJson?, toJson]

@[simp] theorem NodeId.nullable?_optionToJson (n : Option NodeId) :
    (optionToJson n).nullable? ofJson? = some n := by
  cases n with
  | none => rfl
  | some n =>
    show (ofJson? n.toJson).map some = some (some n)
    simp

@[simp] theorem Json.name?_text {α : Type} (ofName : String → Option α) (s : String) :
    (Json.text s).name? ofName = ofName s := rfl

@[simp] theorem CoherenceMessage.ofJson?_toJson (m : CoherenceMessage) :
    ofJson? m.toJson = some m := by
  rw [ofJson?, toJson, Json.record?_ofMembers]
  · simp [Record.member?_cons_self, Record.member?_cons_ne, Record.memberOr?_cons_self,
      Record.memberOr?_cons_ne, MessageKind.ofIdent?_ident, Opcode.ofIdent?_ident, Json.bool?]
  · rfl
  · decide

@[simp] theorem MemoryMessage.ofJson?_toJson (m : MemoryMessage) : ofJson? m.toJson = some m := by
  rw [ofJson?, toJson, Json.record?_ofMembers]
  · simp [Record.member?_cons_self, Record.member?_cons_ne, MemoryOp.ofIdent?_ident]
  · rfl
  · decide

@[simp] theorem Payload.ofJson?_toJson (p : Payload) : ofJson? p.toJson = some p := by
  cases p with
  | coherence m => simp [ofJson?, toJson, Json.ofMembers]
  | memory m => simp [ofJson?, toJson, Json.ofMembers]
  | credit => rfl

@[simp] theorem Packet.ofJson?_toJson (p : Packet) : ofJson? p.toJson = some p := by
  rw [ofJson?, toJson, Json.record?_ofMembers]
  · simp [Record.member?_cons_self, Record.member?_cons_ne]
  · rfl
  · decide

end CacheCoherence
