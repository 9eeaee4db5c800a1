import CacheCoherence.CommandLine.Execute

/-!
# The program

Reads the arguments and files, and prints the answer of the command.
-/

open CacheCoherence.CommandLine

/-- The text of a file, or why it cannot be read. -/
def readFile (path : String) : IO FileText := do
  try
    let text ← IO.FS.readFile path
    return .ok text
  catch e =>
    match e with
    | .noFileOrDirectory _ code details => return .error s!"{details} (os error {code})"
    | e => return .error e.toString

def main (args : List String) : IO UInt32 := do
  let answer ← execute readFile args
  (← IO.getStdout).putStr answer.stdout
  (← IO.getStderr).putStr answer.stderr
  return answer.exitCode.toUInt32
