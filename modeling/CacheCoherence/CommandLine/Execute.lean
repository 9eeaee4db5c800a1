import CacheCoherence.CommandLine.Options
import CacheCoherence.Config.Json
import CacheCoherence.Hierarchy.Report
import CacheCoherence.Hierarchy.Step
import CacheCoherence.Json.Printer

/-!
# Commands — what the program does

Carrying out a command reads files and gives an answer: an exit code and two
texts. Files are read through a parameter, so the same definition runs on a file
system and on a directory that is given as data. The exit code is 0 for a run that
drained, 1 for a run that could not be done, and 2 for a run that met its cycle
limit and for a wrong command line.
-/

namespace CacheCoherence.CommandLine

/-- What a command answers. -/
structure Answer where
  exitCode : UInt8 := 0
  stdout : String := ""
  stderr : String := ""
deriving DecidableEq, Repr

namespace Answer

/-- The answer of a command that could not be done. -/
def failed (message : String) : Answer := { exitCode := 1, stderr := message ++ "\n" }

/-- The answer to a wrong command line. -/
def usage (e : UsageError) : Answer := { exitCode := 2, stderr := s!"error: {e.message}\n" }

end Answer

/-- The result of reading a file: its text, or why it cannot be read. -/
abbrev FileText := Except String String

/-- The configuration in a file. -/
def configOf (path : String) : FileText → Except Answer Config
  | .error e => .error (.failed s!"Error loading config {path}: i/o error: {e}")
  | .ok text =>
      (Config.ofText text).mapError fun e => .failed s!"Error loading config {path}: {e.message}"

/-- The trace in a file. -/
def traceOf (path : String) : FileText → Except Answer Trace
  | .error e => .error (.failed s!"Error reading trace {path}: i/o error: {e}")
  | .ok text => (Trace.parse text).mapError fun e => .failed s!"Error reading trace {path}: {e.message}"

/-- The answer to a run that ended before its time. -/
def fatal (message : String) : Answer := .failed s!"\n[!] FATAL: {message}"

/-- Runs a trace on the hierarchy of a configuration. -/
def simulate (c : Config) (t : Trace) : Except Answer Report := do
  let h ← (Hierarchy.create? c).mapError fun e => fatal e.message
  match h.load t with
  | (_, some e) => throw (fatal e.message)
  | (h, none) =>
      match h.run with
      | { error := some e, .. } => throw (fatal e.message)
      | { hierarchy, error := none } => return hierarchy.report

/-- A JSON value as a text of its own. -/
def printed (v : Json) : String := v.print ++ "\n"

/-- The answer that shows a report. -/
def Answer.ofReport (json : Bool) (r : Report) : Answer :=
  { exitCode := if r.drained then 0 else 2
    stdout := if json then printed r.toJson else r.text }

variable {m : Type → Type} [Monad m]

/-- The configuration of a run. -/
def chosenConfig (read : String → m FileText) : Option String → m (Except Answer Config)
  | none => return .ok {}
  | some path => return configOf path (← read path)

/-- Runs a trace. The configuration is read first, and the trace only if the
configuration is good. -/
def run (read : String → m FileText) (o : RunOptions) : m Answer := do
  match ← chosenConfig read o.config with
  | .error a => return a
  | .ok c =>
      let c := { c with maxCycles := o.maxCycles.getD c.maxCycles }
      match traceOf o.trace (← read o.trace) >>= simulate c with
      | .error a => return a
      | .ok r => return .ofReport o.json r

/-- Carries out the command of an argument list. -/
def execute (read : String → m FileText) (args : List String) : m Answer :=
  match Command.ofArgs args with
  | .error e => return .usage e
  | .ok .config => return { stdout := printed (Config.toJson {}) }
  | .ok (.run o) => run read o

end CacheCoherence.CommandLine
