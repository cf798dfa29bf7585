import ElfInspect.Bytes
import ElfInspect.Program.System

/-!
Disks. A disk knows of some directories and of the files in them; an open file is its location.
Opening a file that cannot be made changes nothing.
-/

namespace ElfInspect

/-! ## Paths -/

/-- The directories that paths can lead to: those some levels above the working directory, the
root, and those that stand below the root on every system. -/
inductive Folder where
  | above (levels : Nat)
  | root
  | standard (name : String)
  deriving DecidableEq, Repr

namespace Folder

/-- Where paths without a slash in front start. -/
def working : Folder := .above 0

def parent : Folder → Folder
  | .above levels => .above (levels + 1)
  | .root | .standard _ => .root

def standardNames : List String :=
  ["bin", "dev", "etc", "home", "lib", "opt", "proc", "root", "run", "sbin", "sys", "tmp", "usr",
    "var"]

end Folder

/-- A name in a directory, with a file or without. -/
structure Location where
  folder : Folder
  name : String
  deriving DecidableEq, Repr

/-- What a path leads to. -/
inductive Place where
  | folder (f : Folder)
  | entry (l : Location)
  deriving DecidableEq, Repr

/-- What `name` leads to from a directory. -/
def Folder.child (f : Folder) (name : String) : Place :=
  if f = .root ∧ name ∈ standardNames then .folder (.standard name) else .entry ⟨f, name⟩

/-- The file that holds nothing, whatever is written to it. -/
def nullDevice : Location := ⟨.standard "dev", "null"⟩

/-- The most bytes of a name in a directory. -/
def nameLimit : Nat := 255

/-- The most bytes of a path. -/
def pathLimit : Nat := 4095

/-! ## Disks -/

structure Disk where
  files : List (Location × ByteArray)
  deriving DecidableEq

namespace Disk

/-- The disk on which the working directory has the given files, and no other directory has any. -/
def ofFiles (files : List (String × ByteArray)) : Disk :=
  ⟨files.map fun f => (⟨.working, f.1⟩, f.2)⟩

def contents? (d : Disk) (l : Location) : Option ByteArray :=
  if l = nullDevice then some .empty else d.files.lookup l

def put (d : Disk) (l : Location) (bytes : ByteArray) : Disk :=
  if l = nullDevice then d else ⟨(l, bytes) :: d.files.filter (·.1 ≠ l)⟩

/-- Follows one part of a path. What is not a directory has nothing below it. -/
def step (d : Disk) : Place → String → Except FileFault Place
  | .entry l, _ => .error (if (d.contents? l).isSome then .notDirectory else .notFound)
  | .folder f, part =>
    if part = "" ∨ part = "." then .ok (.folder f)
    else if part = ".." then .ok (.folder f.parent)
    else if nameLimit < part.utf8ByteSize then .error .nameTooLong
    else .ok (f.child part)

/-- Where a path starts. -/
def origin (path : String) : Except FileFault Place :=
  if path.isEmpty then .error .notFound
  else if pathLimit < path.utf8ByteSize then .error .nameTooLong
  else .ok (.folder (if path.startsWith "/" then .root else .working))

def parts (path : String) : List String := path.splitOn "/"

/-- The parts of a path without the slashes at its end. -/
def namedParts (path : String) : List String :=
  ((parts path).reverse.dropWhile String.isEmpty).reverse

def read (d : Disk) (path : String) : Except FileFault ByteArray := do
  match ← (parts path).foldlM d.step (← origin path) with
  | .folder _ => throw .isDirectory
  | .entry l =>
    match d.contents? l with
    | some bytes => return bytes
    | none => throw .notFound

/-- The file that a path leads to, there or not. A slash at the end asks for a directory. -/
def locate (d : Disk) (path : String) : Except FileFault Location := do
  match ← (namedParts path).foldlM d.step (← origin path) with
  | .folder _ => throw .isDirectory
  | .entry l =>
    if path.endsWith "/" then throw .isDirectory
    return l

/-- The disk with more text at the end of a file. -/
def append (d : Disk) (l : Location) (text : String) : Disk :=
  d.put l ((d.contents? l).getD .empty ++ text.toUTF8)

/-- The disk as a store of files. -/
def store : FileStore Location (StateM Disk) where
  read path := do return (← get).read path
  create path := do
    match (← get).locate path with
    | .error fault => return .error fault
    | .ok l =>
      modify (·.put l .empty)
      return .ok l
  append l text := do
    modify (·.append l text)
    return .ok ()
  flush _ := return .ok ()

end Disk

end ElfInspect
