/-!
# JSON — values and the records in them

A value is what a text denotes as far as this library looks at it: of numbers only
those written as plain digits have a value, since nothing here is measured in
fractions. A string may name a UTF-16 surrogate that has no partner; such a string
denotes no text, which matters only where the text is asked for.

A record, a value with named members, is written as an object, or as an array of
its members in order. `record?` reads both forms; members that it does not know are
passed over, and a known member may be given only once.
-/

namespace CacheCoherence

/-- The text of a JSON string, if it denotes one. -/
abbrev JsonText := Option String

/-- A JSON value. -/
inductive Json where
  | null
  | bool (b : Bool)
  /-- A number written as plain digits. -/
  | nat (n : Nat)
  /-- A number with a sign, a fraction or an exponent. -/
  | otherNumber
  | str (s : JsonText)
  | array (items : List Json)
  /-- The members in the order of the text, repeated names included. -/
  | object (members : List (JsonText × Json))
deriving Repr

namespace Json

/-- The string of a text. -/
def text (s : String) : Json := str (some s)

/-- The object of members with given names. -/
def ofMembers (members : List (String × Json)) : Json :=
  object (members.map fun (name, v) => (some name, v))

/-- The number of a machine word. -/
def ofWord (n : UInt64) : Json := nat n.toNat

/-- The number of a half word. -/
def ofHalf (n : UInt32) : Json := nat n.toNat

/-! ## Reading single values -/

/-- A machine word. -/
def word? : Json → Option UInt64
  | nat n => if n < UInt64.size then some (UInt64.ofNat n) else none
  | _ => none

/-- A half word. -/
def half? : Json → Option UInt32
  | nat n => if n < UInt32.size then some (UInt32.ofNat n) else none
  | _ => none

/-- A truth value. -/
def bool? : Json → Option Bool
  | bool b => some b
  | _ => none

/-- A value or `null`. -/
def nullable? {α : Type} (read : Json → Option α) : Json → Option (Option α)
  | null => some none
  | v => (read v).map some

/-- One of several names, written as a string or as the only member of an object
whose value is `null`. -/
def name? {α : Type} (ofName : String → Option α) : Json → Option α
  | str (some s) => ofName s
  | object [(some s, null)] => ofName s
  | _ => none

@[simp] theorem word?_ofWord (n : UInt64) : (ofWord n).word? = some n := by
  simp [word?, ofWord, UInt64.toNat_lt n]

@[simp] theorem half?_ofHalf (n : UInt32) : (ofHalf n).half? = some n := by
  simp [half?, ofHalf, UInt32.toNat_lt n]

/-! ## Reading records -/

/-- The members of a record by name, each name at most once. -/
abbrev Record := List (String × Json)

/-- The members of `v` among `names`. -/
def record? (names : List String) : Json → Option Record
  | array items => if items.length ≤ names.length then some (names.zip items) else none
  | object members => do
      let members ← members.mapM fun (name, v) => name.map (·, v)
      let known := members.filter fun (name, _) => names.contains name
      if (known.map (·.1)).Nodup then some known else none
  | _ => none

/-- Reads a member that must be there. -/
def Record.member? {α : Type} (r : Record) (name : String) (read : Json → Option α) : Option α :=
  (r.lookup name).bind read

/-- Reads a member that may be left out. -/
def Record.memberOr? {α : Type} (r : Record) (name : String) (read : Json → Option α)
    (default : α) : Option α :=
  match r.lookup name with
  | some v => read v
  | none => some default

/-- An object that has exactly the expected members is read as it stands. -/
theorem record?_ofMembers {names : List String} {members : List (String × Json)}
    (hnames : members.map (·.1) = names) (hnodup : names.Nodup) :
    (ofMembers members).record? names = some members := by
  have hread (ms : List (String × Json)) :
      (ms.map fun (name, v) => (some name, v)).mapM
        (fun ((name, v) : JsonText × Json) => name.map (·, v)) = some ms := by
    induction ms with
    | nil => rfl
    | cons m rest ih => simp [ih]
  have hknown : (members.filter fun (name, _) => names.contains name) = members := by
    rw [List.filter_eq_self]
    intro m hm
    subst hnames
    simpa using ⟨m.2, hm⟩
  subst hnames
  show (do
    let ms ← (members.map fun (name, v) => (some name, v)).mapM
      fun ((name, v) : JsonText × Json) => name.map (·, v)
    let known := ms.filter fun (name, _) => (members.map (·.1)).contains name
    if (known.map (·.1)).Nodup then some known else none) = some members
  rw [hread]
  simp only [Option.bind_eq_bind, Option.bind_some, hknown, if_pos hnodup]

theorem Record.member?_cons_self {α : Type} (r : Record) (name : String) (v : Json)
    (read : Json → Option α) : Record.member? ((name, v) :: r) name read = read v := by
  simp [member?]

theorem Record.member?_cons_ne {α : Type} (r : Record) {name other : String} (v : Json)
    (read : Json → Option α) (h : name ≠ other) :
    Record.member? ((other, v) :: r) name read = Record.member? r name read := by
  simp [member?, List.lookup_cons, beq_false_of_ne h]

theorem Record.memberOr?_cons_self {α : Type} (r : Record) (name : String) (v : Json)
    (read : Json → Option α) (default : α) :
    Record.memberOr? ((name, v) :: r) name read default = read v := by
  simp [memberOr?]

theorem Record.memberOr?_cons_ne {α : Type} (r : Record) {name other : String} (v : Json)
    (read : Json → Option α) (default : α) (h : name ≠ other) :
    Record.memberOr? ((other, v) :: r) name read default = Record.memberOr? r name read default := by
  simp [memberOr?, List.lookup_cons, beq_false_of_ne h]

end Json

end CacheCoherence
