import LineStore.Bytes
import LineStore.IOFault

/-!
# Files

A tree of directories and files, with a working directory.  `FileTree.read`
follows a path from there, or from the root, and answers the content of the
file, or the fault that the operating system reports.
-/

namespace LineStore

/-- Directories and files, each by the names on the way from the root. -/
structure FileTree where
  directories : List (List String)
  files : List (List String × Bytes)
  working : List String

namespace FileTree

/-- What a path leads to. -/
inductive Node
  | directory
  | file (content : Bytes)
  deriving DecidableEq, Repr

def find? (tree : FileTree) (place : List String) : Option Node :=
  if place = [] ∨ place ∈ tree.directories then some .directory
  else (tree.files.lookup place).map .file

def notFound : IOFault :=
  .numbered .notFound "No such file or directory" 2

def notADirectory : IOFault :=
  .numbered .notADirectory "Not a directory" 20

def isADirectory : IOFault :=
  .numbered .isADirectory "Is a directory" 21

def nameTooLong : IOFault :=
  .numbered .invalidFilename "File name too long" 36

def containsNul : IOFault :=
  ⟨.invalidInput, "file name contained an unexpected NUL byte"⟩

/-- The greatest length of a name, in bytes. -/
def maxName : Nat := 255

/-- The length that a path must not reach, in bytes. -/
def pathLimit : Nat := 4096

/-- Follows the parts of a path from a place. -/
def walk (tree : FileTree) : List String → List String → Except IOFault Node
  | place, [] =>
    match tree.find? place with
    | some node => .ok node
    | none => .error notFound
  | place, part :: rest =>
    match tree.find? place with
    | none => .error notFound
    | some (.file _) => .error notADirectory
    | some .directory =>
      if part = "" ∨ part = "." then walk tree place rest
      else if part = ".." then walk tree place.dropLast rest
      else if maxName < part.utf8ByteSize then .error nameTooLong
      else walk tree (place ++ [part]) rest

def resolve (tree : FileTree) (path : String) : Except IOFault Node :=
  if path.isEmpty then .error notFound
  else if path.contains '\x00' then .error containsNul
  else if pathLimit ≤ path.utf8ByteSize then .error nameTooLong
  else
    let start := if path.startsWith "/" then [] else tree.working
    tree.walk start (path.splitOn "/")

def read (tree : FileTree) (path : String) : Except IOFault Bytes := do
  match ← tree.resolve path with
  | .file content => .ok content
  | .directory => .error isADirectory

end FileTree

end LineStore
