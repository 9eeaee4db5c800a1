/-!
# Directory — files given as data

A directory holds files under their names and nothing else. A path is looked up
component by component; single dots lead nowhere else, and a path that leads out of
the directory finds nothing.
-/

namespace CacheCoherence.CommandLine

/-- A directory of files, each with its name and its text. -/
structure Directory where
  files : List (String × String)
deriving DecidableEq, Repr

namespace Directory

/-- The text shown for a file that is not there. -/
def notFound : String := "No such file or directory (os error 2)"

/-- The text shown for a path that goes through a file. -/
def notDirectory : String := "Not a directory (os error 20)"

/-- The text shown for a directory in place of a file. -/
def isDirectory : String := "Is a directory (os error 21)"

/-- Looks up what is left of a path. -/
def find (d : Directory) : List String → Except String String
  | [] => .error isDirectory
  | name :: rest =>
      if name = "" ∨ name = "." then d.find rest
      else
        match d.files.lookup name, rest with
        | some text, [] => .ok text
        | some _, _ => .error notDirectory
        | none, _ => .error notFound

/-- The text of the file at `path`. -/
def read (d : Directory) (path : String) : Except String String :=
  if path.startsWith "/" then .error notFound else d.find (path.splitOn "/")

end Directory

end CacheCoherence.CommandLine
