/-
Trees of files.

A tree holds directories and files below its root, and one of its directories is
the current one.  A path is a list of names with slashes between them, followed
from the root if it starts with a slash and from the current directory if not.
The name `.` and empty names stay where they are, and `..` goes up, at the root to
the root.  Besides files there are sinks, which are always empty and take all that
is written to them.
-/
import Asm256.CommandLine.FileError

namespace Asm256

/-- A place in a tree: the names on the way from the root. -/
abbrev Route := List String

/-- Directories and files. -/
structure FileTree where
  /-- The directories besides the root. -/
  directories : List Route := []
  files : List (Route × List UInt8) := []
  sinks : List Route := []
  /-- The current directory. -/
  current : Route := []
  deriving DecidableEq, Repr

/-- A path by its parts. -/
structure Path where
  /-- The path starts with a slash. -/
  absolute : Bool
  names : List String
  /-- The path ends in a slash. -/
  slashed : Bool
  deriving DecidableEq, Repr

namespace Path

/-- The names between the slashes. -/
def split : List Char → List (List Char)
  | [] => [[]]
  | c :: cs =>
      if c = '/' then [] :: split cs
      else match split cs with
        | name :: names => (c :: name) :: names
        | [] => [[c]]

/-- The parts of a path. -/
def ofString (s : String) : Path :=
  let cs := s.toList
  { absolute := cs.head? = some '/'
    names := ((split cs).filter (!·.isEmpty)).map String.ofList
    slashed := cs.getLast? = some '/' }

end Path

namespace FileTree

/-- The longest name, in bytes. -/
def maxName : Nat := 255

/-- The longest path, in bytes. -/
def maxPath : Nat := 4095

/-- There is a directory at a place. -/
def hasDirectory (t : FileTree) (route : Route) : Bool := route.isEmpty || t.directories.contains route

/-- The contents of what can be read at a place. -/
def contents? (t : FileTree) (route : Route) : Option (List UInt8) :=
  if t.sinks.contains route then some [] else t.files.lookup route

/-- The directory that names lead to from a place. -/
def enter (t : FileTree) (route : Route) : List String → Except SystemError Route
  | [] => .ok route
  | name :: names =>
      if name = "." then t.enter route names
      else if name = ".." then t.enter route.dropLast names
      else
        let next := route ++ [name]
        if maxName < name.utf8ByteSize then .error .nameTooLong
        else if t.hasDirectory next then t.enter next names
        else if (t.contents? next).isSome then .error .notDirectory
        else .error .notFound

/-- The directory that a path leads to with all its names but the last, and that name. -/
def locate (t : FileTree) (p : Path) : Except SystemError (Route × String) :=
  let start := if p.absolute then [] else t.current
  match p.names.getLast? with
  | none => .error (if p.absolute then .isDirectory else .notFound)
  | some name => (t.enter start p.names.dropLast).map fun directory => (directory, name)

/-- The contents of a file, by the parts of its path. -/
def readAt (t : FileTree) (p : Path) : Except SystemError (List UInt8) := do
  let (directory, name) ← t.locate p
  let route := directory ++ [name]
  if name = "." || name = ".." || t.hasDirectory route then throw .isDirectory
  if maxName < name.utf8ByteSize then throw .nameTooLong
  match t.contents? route with
  | none => throw .notFound
  | some bytes => if p.slashed then throw .notDirectory else return bytes

/-- Puts contents at a place, in place of those that are there. -/
def put (route : Route) (bytes : List UInt8) : List (Route × List UInt8) → List (Route × List UInt8)
  | [] => [(route, bytes)]
  | f :: fs => if f.1 = route then (route, bytes) :: fs else f :: put route bytes fs

/-- The tree with a file written, by the parts of its path. -/
def writeAt (t : FileTree) (p : Path) (bytes : List UInt8) : Except SystemError FileTree := do
  let (directory, name) ← t.locate p
  let route := directory ++ [name]
  if p.slashed || name = "." || name = ".." || t.hasDirectory route then throw .isDirectory
  if maxName < name.utf8ByteSize then throw .nameTooLong
  if t.sinks.contains route then return t
  return { t with files := put route bytes t.files }

/-- The parts of a path that the system takes. -/
def checkPath (path : String) : Except FileError Path :=
  if path.contains '\x00' then .error .invalidPath
  else if maxPath < path.utf8ByteSize then .error (.system .nameTooLong)
  else .ok (.ofString path)

/-- The contents of a file. -/
def read (t : FileTree) (path : String) : Except FileError (List UInt8) := do
  (t.readAt (← checkPath path)).mapError .system

/-- The tree with a file written. -/
def write (t : FileTree) (path : String) (bytes : List UInt8) : Except FileError FileTree := do
  (t.writeAt (← checkPath path) bytes).mapError .system

/-- The tree with a directory, and the directories that it lies in. -/
def addDirectory (t : FileTree) (route : Route) : FileTree :=
  { t with directories := t.directories ++ ((List.range route.length).map fun n => route.take (n + 1)) }

/-- The tree with a file, and the directories that it lies in. -/
def addFile (t : FileTree) (route : Route) (bytes : List UInt8) : FileTree :=
  { t.addDirectory route.dropLast with files := put route bytes t.files }

end FileTree

end Asm256
