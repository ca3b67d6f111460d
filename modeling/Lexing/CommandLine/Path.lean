/-!
# Paths

A path is shown without empty and `.` steps. A tree of files answers what stands at a path: steps go
down to an entry of a directory or, by `..`, up again, and there is no step from a file.
-/

namespace Lexing.CommandLine

def pathSteps (path : String) : List String :=
  (path.toList.splitOn '/').map String.ofList

/-- Two leading slashes are kept, three or more count as one. -/
def pathRoot : List Char → String
  | '/' :: '/' :: '/' :: _ => "/"
  | '/' :: '/' :: _ => "//"
  | '/' :: _ => "/"
  | _ => ""

def shownPath (path : String) : String :=
  let root := pathRoot path.toList
  let steps := (pathSteps path).filter fun step => step ≠ "" ∧ step ≠ "."
  if root = "" ∧ steps = [] then "." else root ++ "/".intercalate steps

inductive Entry
  | missing
  | directory
  | file (bytes : List UInt8)
  deriving DecidableEq

/-- The directories below the root, and the files. -/
structure FileTree where
  directories : List (List String) := []
  files : List (List String × List UInt8) := []

namespace FileTree

/-- Adds a directory, its steps innermost first, and all directories above it. -/
def addDirectory (tree : FileTree) : List String → FileTree
  | [] => tree
  | step :: above =>
    let tree := tree.addDirectory above
    { tree with directories := (step :: above) :: tree.directories }

/-- Adds a directory if the name ends in a slash, a file otherwise, and the directories on the way. -/
def add (tree : FileTree) (name : String) (bytes : List UInt8) : FileTree :=
  let steps := ((pathSteps name).filter fun step => step ≠ "" ∧ step ≠ ".").reverse
  if name.toList.getLast? = some '/' then tree.addDirectory steps
  else
    let tree := tree.addDirectory steps.tail
    { tree with files := (steps, bytes) :: tree.files }

/-- The entry at some steps, innermost first. -/
def entryAt (tree : FileTree) (steps : List String) : Entry :=
  if steps = [] ∨ steps ∈ tree.directories then .directory
  else (tree.files.lookup steps).elim .missing .file

/-- Follows steps from the entry at `here`. -/
def follow (tree : FileTree) (here : List String) : List String → Entry
  | [] => tree.entryAt here
  | step :: steps =>
    if tree.entryAt here ≠ .directory then .missing
    else if step = "" ∨ step = "." then tree.follow here steps
    else if step = ".." then
      match here with
      | [] => .missing
      | _ :: above => tree.follow above steps
    else tree.follow (step :: here) steps

/-- The entry at a path relative to the root of the tree. -/
def entry (tree : FileTree) (path : String) : Entry :=
  if path = "" ∨ path.toList.head? = some '/' then .missing else tree.follow [] (pathSteps path)

end FileTree

end Lexing.CommandLine
