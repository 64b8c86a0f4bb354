import Playbook.Config
import Playbook.Text.Basic

/-! # Files

What commands ask of a file system, in any monad, and a file system in memory. In memory a directory is
there if it was made, or if something lies in it.
-/

namespace Playbook

/-- A file system. -/
structure Disk (m : Type → Type) where
  /-- The text of a file. -/
  readFile : String → m (Option String)
  /-- The names of the files that lie directly in a directory. -/
  fileNames : String → m (Option (List String))
  isThere : String → m Bool
  /-- Makes a directory with those above it; false if that is not possible. -/
  makeDirectory : String → m Bool
  writeFile : String → String → m Unit

/-- The directory in which a path lies. -/
def Path.parent (path : String) : String :=
  String.ofList ((path.toList.reverse.dropWhile (· != '/')).drop 1).reverse

/-- A file system in memory: texts and directories by their paths, which are split at slashes and seen from
a working directory. -/
structure Files where
  workingDirectory : String
  files : Dict String
  directories : List String
  deriving DecidableEq, Repr

namespace Files

/-- A path without empty and single-point segments, with two points taken back. -/
def normal (f : Files) (path : String) : String :=
  let whole := Path.join f.workingDirectory path
  let steps := (Text.split '/' whole).foldl (fun (acc : List String) s =>
    if s = "" || s = "." then acc else if s = ".." then acc.drop 1 else s :: acc) []
  "/" ++ Text.join "/" steps.reverse

/-- What lies below a directory, without the directory itself. -/
def below (dir path : String) : Option String :=
  if dir = "/" then some (String.ofList (path.toList.drop 1))
  else
    let start := dir.toList ++ ['/']
    if start.isPrefixOf path.toList then some (String.ofList (path.toList.drop start.length)) else none

def readFile (f : Files) (path : String) : Option String := f.files.get? (f.normal path)

def isFile (f : Files) (path : String) : Bool := f.files.contains (f.normal path)

def isDirectory (f : Files) (path : String) : Bool :=
  let p := f.normal path
  p = "/" || f.directories.contains p ||
    (f.files.keys ++ f.directories).any (fun q => (below p q).isSome)

def isThere (f : Files) (path : String) : Bool := f.isFile path || f.isDirectory path

def fileNames (f : Files) (path : String) : Option (List String) :=
  if f.isDirectory path then
    some ((f.files.keys.filterMap (below (f.normal path))).filter (fun n => !n.toList.contains '/'))
  else none

/-- Every file is in no other file's way. -/
def makeDirectory (f : Files) (path : String) : Bool × Files :=
  let p := f.normal path
  if f.files.keys.any (fun q => q == p || (below q p).isSome) then (false, f)
  else (true, { f with directories := p :: f.directories })

def writeFile (f : Files) (path text : String) : Files :=
  { f with files := f.files.insert (f.normal path) text }

/-- The file system that a state holds. -/
def disk : Disk (StateM Files) :=
  { readFile := fun path => do return (← get).readFile path
    fileNames := fun path => do return (← get).fileNames path
    isThere := fun path => do return (← get).isThere path
    makeDirectory := fun path => modifyGet fun f => f.makeDirectory path
    writeFile := fun path text => modify fun f => f.writeFile path text }

end Files

end Playbook
