import BranchCursor.Bytes.Stream

/-! The files that can be opened, and what opening a path gives. The program works in a fresh
directory below `tmp`; of what lies around it only the usual directories are known, the null device
and the standard input. -/
namespace BranchCursor.CommandLine

/-- What each file gives, by its path from the root; a path through others makes directories. -/
structure FileTree where
  files : List (List String × List ByteEvent)

/-- Where a path leads: to a directory, by its path from the root, or to a file. -/
inductive Spot where
  | directory (path : List String)
  | file (input : List ByteEvent)

namespace FileTree

/-- The names between slashes, the first of them begun with some characters, the last first. -/
def split (begun : List Char) : List Char → List String
  | [] => [String.ofList begun.reverse]
  | '/' :: later => String.ofList begun.reverse :: split [] later
  | c :: later => split (c :: begun) later

/-- The names on a path; an empty one stands for a doubled or closing slash. -/
def names (path : String) : List String := split [] path.toList

/-- The working directory. Its own name is in no path, so it is left empty. -/
def home : List String := ["tmp", ""]

/-- Directories that are there on every system, by their path from the root. -/
def usual : List String :=
  ["bin", "boot", "dev", "etc", "home", "lib", "media", "mnt", "opt", "proc", "root", "run", "sbin",
    "srv", "sys", "tmp", "usr", "usr/bin", "usr/lib", "usr/local", "usr/sbin", "usr/share", "var",
    "var/lib", "var/log", "var/tmp"]

/-- Where the running program finds its standard input. -/
def input : List String := ["proc", "self", "fd", "0"]

/-- Names that stand for another place. -/
def links : List (List String × List String) := [
  (["dev", "stdin"], input), (["dev", "fd"], ["proc", "self", "fd"]),
  (["proc", "self", "cwd"], home), (["proc", "self", "root"], [])]

/-- The tree around a working directory with some files, for a program with some standard input. -/
def make (stdin : List ByteEvent) (files : List (String × List UInt8)) : FileTree where
  files := (["dev", "null"], []) :: (input, stdin) ::
    files.map fun (name, bytes) => (home ++ (names name).filter (· != ""), [.data bytes])

/-- The longest path that can be looked up, in bytes. -/
def pathLimit : Nat := 4095

/-- The longest name that can be looked up in a directory, in bytes; directories that only show
what the system knows have no such limit. -/
def nameLimit? (directory : List String) : Option Nat :=
  if directory.head? = some "proc" ∨ directory.head? = some "sys" then none else some 255

def isDirectory (tree : FileTree) (path : List String) : Bool :=
  path.isPrefixOf home || usual.any (names · == path) || tree.files.any (path.isPrefixOf ·.1)

/-- A place by its path from the root, looked up through one link if its last name is one. -/
def find (tree : FileTree) (path : List String) : Except ReadFailure Spot :=
  let place := (links.lookup path).getD path
  match tree.files.lookup place with
  | some input => .ok (.file input)
  | none => if tree.isDirectory place then .ok (.directory place) else .error .notFound

/-- One name further. From a file there is no way on, not even back; the root is around itself;
how long a name is counts before whether it is there. -/
def go (tree : FileTree) : Spot → String → Except ReadFailure Spot
  | .file _, _ => .error .notDirectory
  | .directory path, name =>
    if name == "" || name == "." then .ok (.directory path)
    else if name == ".." then .ok (.directory path.dropLast)
    else if (nameLimit? path).any (· < name.utf8ByteSize) then .error .nameTooLong
    else tree.find (path ++ [name])

/-- Opens a path: a file gives its bytes; a directory opens too and fails when it is read. -/
def events (tree : FileTree) (path : String) : Except ReadFailure (List ByteEvent) :=
  if path.isEmpty then .error .notFound
  else if pathLimit < path.utf8ByteSize then .error .nameTooLong
  else
    let start := if path.toList.head? = some '/' then [] else home
    match (names path).foldlM tree.go (.directory start) with
    | .error cause => .error cause
    | .ok (.file input) => .ok input
    | .ok (.directory _) => .ok [.failure .isDirectory]

end FileTree

example : ((FileTree.make [] [("f", [65])]).events "./f").toOption = some [.data [65]] := by
  decide +kernel
example : ((FileTree.make [] [("d/f", [])]).events "d").toOption =
    some [.failure .isDirectory] := by decide +kernel
example : ((FileTree.make [.stop] []).events "../../../dev//fd/0").toOption = some [.stop] := by
  decide +kernel

end BranchCursor.CommandLine
