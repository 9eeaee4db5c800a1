import CacheCoherence.Json.Token

/-!
# Reading JSON — from tokens to a value

The tokens are taken one at a time. `Progress` says what may come next and keeps
the arrays and objects that are still open, innermost first; it never looks ahead,
and however deep a value is nested, reading it is one walk along its tokens.
-/

namespace CacheCoherence.Json

/-- An open array or object around the value that is being read. Items and members
are kept in reverse. -/
inductive Frame where
  | array (items : List Json)
  /-- The member `name` is being read. -/
  | object (members : List (JsonText × Json)) (name : JsonText)

/-- What may come next. -/
inductive Progress where
  /-- A value. -/
  | value (frames : List Frame)
  /-- The first item of an array, or its end. -/
  | firstItem (frames : List Frame)
  /-- A comma, or the end of an array. -/
  | afterItem (items : List Json) (frames : List Frame)
  /-- The first member of an object, or its end. -/
  | firstMember (frames : List Frame)
  /-- A member of an object. -/
  | member (members : List (JsonText × Json)) (frames : List Frame)
  /-- The colon behind the name of a member. -/
  | afterName (members : List (JsonText × Json)) (name : JsonText) (frames : List Frame)
  /-- A comma, or the end of an object. -/
  | afterMember (members : List (JsonText × Json)) (frames : List Frame)
  /-- Nothing. -/
  | finished (v : Json)

namespace Progress

/-- Goes on after the value `v` has been read inside `frames`. -/
def deliver (v : Json) : List Frame → Progress
  | [] => finished v
  | .array items :: frames => afterItem (v :: items) frames
  | .object members name :: frames => afterMember ((name, v) :: members) frames

/-- Takes a token with which a value starts. -/
def start (frames : List Frame) : Token → Option Progress
  | .openArray => some (firstItem frames)
  | .openObject => some (firstMember frames)
  | .string s => some (deliver (.str s) frames)
  | .scalar v => some (deliver v frames)
  | _ => none

/-- Takes one token. -/
def push : Progress → Token → Option Progress
  | value frames, t => start frames t
  | firstItem frames, .closeArray => some (deliver (.array []) frames)
  | firstItem frames, t => start (.array [] :: frames) t
  | afterItem items frames, .comma => some (value (.array items :: frames))
  | afterItem items frames, .closeArray => some (deliver (.array items.reverse) frames)
  | firstMember frames, .closeObject => some (deliver (.object []) frames)
  | firstMember frames, .string name => some (afterName [] name frames)
  | member members frames, .string name => some (afterName members name frames)
  | afterName members name frames, .colon => some (value (.object members name :: frames))
  | afterMember members frames, .comma => some (member members frames)
  | afterMember members frames, .closeObject => some (deliver (.object members.reverse) frames)
  | _, _ => none

end Progress

/-- The value that a text denotes. -/
def parse? (s : String) : Option Json := do
  let tokens ← tokens? s.toList
  match ← tokens.foldlM Progress.push (.value []) with
  | .finished v => some v
  | _ => none

end CacheCoherence.Json
