import CacheCoherence.Text.Numeral

/-!
# Options — the arguments of a command

The command line is a command, `run` or `config`, with options before and after it.
An option has a long name, and most have a short one. A value stands behind an
equals sign, directly behind a short name, or in the next argument, which must
then not look like an option; short names without values can be run together. No
option may be given twice at one place, and after `--` no option is recognised.
-/

namespace CacheCoherence.CommandLine

/-- The options there are. -/
inductive OptionName where
  | trace
  | config
  | json
  | maxCycles
  | verbose
deriving DecidableEq, Repr

namespace OptionName

/-- The name behind two dashes. -/
def long : OptionName → String
  | trace => "trace"
  | config => "config"
  | json => "json"
  | maxCycles => "max-cycles"
  | verbose => "verbose"

/-- The letter behind one dash. -/
def short? : OptionName → Option Char
  | trace => some 't'
  | config => some 'c'
  | verbose => some 'v'
  | json | maxCycles => none

/-- Whether the option has a value. -/
def hasValue : OptionName → Bool
  | trace | config | maxCycles => true
  | json | verbose => false

end OptionName

/-- What is wrong with a command line. -/
inductive UsageError where
  | noCommand
  | unexpected (arg : String)
  | repeated (option : OptionName)
  | missingValue (option : OptionName)
  | needlessValue (option : OptionName)
  | badValue (option : OptionName) (value : String)
  | required (option : OptionName)
deriving DecidableEq, Repr

/-- The text shown for a wrong command line. -/
def UsageError.message : UsageError → String
  | noCommand => "a command is needed: run or config"
  | unexpected arg => s!"unexpected argument: {arg}"
  | repeated o => s!"--{o.long} is given twice"
  | missingValue o => s!"--{o.long} needs a value"
  | needlessValue o => s!"--{o.long} has no value"
  | badValue o value => s!"--{o.long} cannot be '{value}'"
  | required o => s!"--{o.long} must be given"

/-- Options with their values; an option without a value has an empty one. -/
abbrev Given := List (OptionName × String)

/-- Adds an option, which may not be there yet. -/
def Given.add (g : Given) (o : OptionName) (value : String) : Except UsageError Given :=
  if (g.lookup o).isSome then .error (.repeated o) else .ok (g ++ [(o, value)])

/-! ## Single arguments -/

/-- What an argument looks like. -/
inductive ArgForm where
  /-- Two dashes alone. -/
  | separator
  /-- A long name, and the text behind an equals sign. -/
  | long (name : String) (attached : Option String)
  /-- Letters behind one dash. -/
  | short (letters : List Char)
  /-- Anything else, a lone dash included. -/
  | plain
deriving DecidableEq, Repr

/-- The form of an argument. -/
def ArgForm.of (arg : String) : ArgForm :=
  match arg.toList with
  | ['-', '-'] => separator
  | '-' :: '-' :: rest =>
      let name := String.ofList (rest.takeWhile (· ≠ '='))
      match rest.dropWhile (· ≠ '=') with
      | _ :: value => long name (some (String.ofList value))
      | [] => long name none
  | '-' :: c :: rest => short (c :: rest)
  | _ => plain

/-- Reads letters run together behind one dash. If the last one needs a value and
has none, it is given back to take the next argument. -/
def readLetters (allowed : List OptionName) (arg : String) (g : Given) :
    List Char → Except UsageError (Given × Option OptionName)
  | [] => .ok (g, none)
  | c :: rest =>
      match allowed.find? (·.short? == some c) with
      | none => .error (.unexpected arg)
      | some o =>
          if o.hasValue then
            match rest with
            | [] => .ok (g, some o)
            | '=' :: value => do return (← g.add o (String.ofList value), none)
            | value => do return (← g.add o (String.ofList value), none)
          else do readLetters allowed arg (← g.add o "") rest

/-- Reads one argument that is an option. If it needs a value and has none, it is
given back to take the next argument. -/
def readOption (allowed : List OptionName) (arg : String) (g : Given) :
    ArgForm → Except UsageError (Given × Option OptionName)
  | .long name attached =>
      match allowed.find? (·.long == name), attached with
      | none, _ => .error (.unexpected arg)
      | some o, some value => do
          if o.hasValue then return (← g.add o value, none) else throw (.needlessValue o)
      | some o, none => do
          if o.hasValue then return (g, some o) else return (← g.add o "", none)
  | .short letters => readLetters allowed arg g letters
  | .separator | .plain => .error (.unexpected arg)

/-! ## Argument lists -/

/-- Reads options up to the first argument that is none. Gives them with the
remaining arguments. -/
def readOptions (allowed : List OptionName) (g : Given) :
    List String → Except UsageError (Given × List String)
  | [] => .ok (g, [])
  | arg :: rest =>
      match ArgForm.of arg with
      | .plain => .ok (g, arg :: rest)
      | .separator =>
          match rest with
          | [] => .ok (g, [])
          | next :: _ => .error (.unexpected next)
      | form => do
          match ← readOption allowed arg g form, rest with
          | (g, none), rest => readOptions allowed g rest
          | (_, some o), [] => throw (.missingValue o)
          | (g, some o), value :: rest =>
              if ArgForm.of value = .plain then readOptions allowed (← g.add o value) rest
              else throw (.missingValue o)

/-- Reads the options of a command, which may be followed by nothing else. -/
def readAll (allowed : List OptionName) (args : List String) : Except UsageError Given := do
  match ← readOptions allowed [] args with
  | (g, []) => return g
  | (_, arg :: _) => throw (.unexpected arg)

/-! ## Commands -/

/-- What to run, and how to report. -/
structure RunOptions where
  /-- The path of the trace. -/
  trace : String
  /-- The path of the configuration, if it is not the default one. -/
  config : Option String := none
  /-- Report as JSON. -/
  json : Bool := false
  /-- A cycle limit in place of the configured one. -/
  maxCycles : Option UInt64 := none
deriving DecidableEq, Repr

/-- A command. -/
inductive Command where
  /-- Run a trace and print what was counted. -/
  | run (o : RunOptions)
  /-- Print the default configuration. -/
  | config
deriving DecidableEq, Repr

/-- The path given for an option, which may not be empty. -/
def Given.path? (g : Given) (o : OptionName) : Except UsageError (Option String) :=
  match g.lookup o with
  | some "" => .error (.badValue o "")
  | path => .ok path

/-- The number given for an option. -/
def Given.word? (g : Given) (o : OptionName) : Except UsageError (Option UInt64) :=
  match g.lookup o with
  | none => .ok none
  | some value =>
      match Text.readNat 10 UInt64.size value.toList with
      | .ok n => .ok (some (UInt64.ofNat n))
      | .error _ => .error (.badValue o value)

/-- The command of an argument list. -/
def Command.ofArgs (args : List String) : Except UsageError Command := do
  match (← readOptions [.verbose] [] args).2 with
  | [] => throw .noCommand
  | "run" :: rest =>
      let g ← readAll [.trace, .config, .json, .maxCycles, .verbose] rest
      match ← g.path? .trace with
      | none => throw (.required .trace)
      | some trace =>
          return .run {
            trace
            config := ← g.path? .config
            json := (g.lookup .json).isSome
            maxCycles := ← g.word? .maxCycles }
  | "config" :: rest => do
      let _ ← readAll [.verbose] rest
      return .config
  | arg :: _ => throw (.unexpected arg)

end CacheCoherence.CommandLine
