import CacheCoherence.Request
import CacheCoherence.Text.Blank
import CacheCoherence.Text.Numeral

/-!
# Trace — the accesses of every core

A trace holds one access per line: the core, `R` or `W`, and the byte address, in
decimal or, after `0x`, in hexadecimal digits. What follows a `#` is a comment, and
lines without fields are skipped.

    # core op addr
    0 R 0x1000
    1 W 4096
-/

namespace CacheCoherence

/-- One access of a trace. -/
structure TraceEntry where
  core : UInt64
  access : Access
  addr : Addr
deriving DecidableEq, Repr, Inhabited

/-- What is wrong with a line of a trace. -/
inductive TraceProblem where
  /-- The line does not have three fields. -/
  | fieldCount (line : String)
  | core (field : String) (e : Text.NumeralError)
  | access (field : String)
  | address (field : String) (e : Text.NumeralError)
deriving DecidableEq, Repr

/-- The text shown for a wrong line. -/
def TraceProblem.message : TraceProblem → String
  | fieldCount line => s!"expected `<core> <R|W> <addr>`, got `{line}`"
  | core field e => s!"bad core `{field}`: {e.message}"
  | access field => s!"bad access `{field}`, expected R or W"
  | address field e => s!"bad address `{field}`: {e.message}"

/-- The first wrong line of a trace, counted from one. -/
structure TraceError where
  line : Nat
  problem : TraceProblem
deriving DecidableEq, Repr

/-- The text shown for a wrong trace. -/
def TraceError.message (e : TraceError) : String := s!"trace line {e.line}: {e.problem.message}"

/-- The accesses of every core, in the order of the text. -/
structure Trace where
  entries : List TraceEntry
deriving DecidableEq, Repr

namespace Trace

/-! ## Reading -/

/-- The kind of access that a field names. -/
def access? : List Char → Option Access
  | ['R'] | ['r'] => some .read
  | ['W'] | ['w'] => some .write
  | _ => none

/-- Reads the core of an access. -/
def readCore (field : List Char) : Except TraceProblem UInt64 :=
  match Text.readNat 10 UInt64.size field with
  | .ok n => .ok (UInt64.ofNat n)
  | .error e => .error (.core (String.ofList field) e)

/-- Reads the kind of an access. -/
def readAccess (field : List Char) : Except TraceProblem Access :=
  match access? field with
  | some a => .ok a
  | none => .error (.access (String.ofList field))

/-- The radix and the numeral of an address field. -/
def addressNumeral : List Char → Nat × List Char
  | '0' :: 'x' :: digits | '0' :: 'X' :: digits => (16, digits)
  | field => (10, field)

/-- Reads the address of an access. -/
def readAddress (field : List Char) : Except TraceProblem Addr :=
  let (radix, numeral) := addressNumeral field
  match Text.readNat radix UInt64.size numeral with
  | .ok n => .ok (UInt64.ofNat n)
  | .error e => .error (.address (String.ofList field) e)

/-- A line without its comment and the blanks around what is left. -/
def content (line : List Char) : List Char := Text.trim (line.takeWhile (· ≠ '#'))

/-- Reads one line, which may hold no access at all. -/
def readLine (line : List Char) : Except TraceProblem (Option TraceEntry) :=
  match Text.fields (content line) with
  | [] => .ok none
  | [core, access, addr] => do
      let core ← readCore core
      let access ← readAccess access
      let addr ← readAddress addr
      return some { core, access, addr }
  | _ => .error (.fieldCount (String.ofList (content line)))

/-- Reads lines, of which the first has number `n`. -/
def readLines (n : Nat) : List (List Char) → Except TraceError (List TraceEntry)
  | [] => .ok []
  | line :: rest => do
      let e ← (readLine line).mapError fun problem => { line := n, problem }
      let es ← readLines (n + 1) rest
      return e.toList ++ es

/-- Reads a trace. -/
def parse (text : String) : Except TraceError Trace := do
  let entries ← readLines 1 (Text.lines text.toList)
  return { entries }

/-! ## Looking at a trace -/

/-- How many accesses there are. -/
def size (t : Trace) : Nat := t.entries.length

/-- Whether there are no accesses. -/
def isEmpty (t : Trace) : Bool := t.entries.isEmpty

/-- The highest core that is named. -/
def maxCore? (t : Trace) : Option UInt64 := (t.entries.map (·.core)).max?

end Trace

end CacheCoherence
