import Webserv.Lexical
import Webserv.Cxx.Stream

namespace Webserv

open Cxx

/-! A small file system without symbolic links, on which runs can be
computed. -/

inductive Node
  | directory
  | file (content : Str)
  deriving DecidableEq, Repr

/-- Where a node stands: as `Lexical.resolve` gives it. -/
abbrev Place := Bool × Nat × List Str

structure Disk where
  nodes : List (Place × Node)
  deriving DecidableEq, Repr

namespace Disk

/-- The places above everything listed are directories. -/
def node? (disk : Disk) (place : Place) : Option Node :=
  if place.2.2 = [] then some .directory else disk.nodes.lookup place

/-- Every directory a path goes through exists. -/
def passable (disk : Disk) (path : Str) : Bool :=
  ((Lexical.components path).inits.dropLast).all fun parts =>
    disk.node? (Lexical.isAbsolute path,
      Lexical.walk (Lexical.isAbsolute path) (0, []) parts) =
        some .directory

def find? (disk : Disk) (path : Str) : Option Node :=
  if path ≠ [] ∧ disk.passable path then disk.node? (Lexical.resolve path)
  else none

def stat (disk : Disk) (path : Str) : Option Stat :=
  (disk.find? path).map fun node =>
    match node with
    | .directory => ⟨.directory, true, true⟩
    | .file _ => ⟨.regular, true, true⟩

def children (disk : Disk) (place : Place) : List Str :=
  disk.nodes.filterMap fun entry =>
    if entry.1.2.2 ≠ [] ∧
        (entry.1.1, entry.1.2.1, entry.1.2.2.dropLast) = place then
      entry.1.2.2.getLast?
    else none

def readdir (disk : Disk) (path : Str) : Option (List Str) :=
  if disk.find? path = some .directory then
    some (".".toList :: "..".toList :: disk.children (Lexical.resolve path))
  else none

def openRead (disk : Disk) (path : Str) : Option Str :=
  match disk.find? path with
  | some (.file content) => some content
  | _ => none

def setNode (disk : Disk) (place : Place) (node : Node) : Disk where
  nodes := (place, node) :: disk.nodes.filter (·.1 ≠ place)

def openWrite (disk : Disk) (path : Str) : Option Disk :=
  if path = [] ∨ disk.passable path = false then none
  else
    match disk.node? (Lexical.resolve path) with
    | some .directory => none
    | _ => some (disk.setNode (Lexical.resolve path) (.file []))

def write (disk : Disk) (path bytes : Str) : Disk × Nat :=
  match disk.node? (Lexical.resolve path) with
  | some (.file content) =>
      (disk.setNode (Lexical.resolve path) (.file (content ++ bytes)),
        bytes.length)
  | _ => (disk, 0)

def remove (disk : Disk) (path : Str) : Option Disk :=
  let place := Lexical.resolve path
  if disk.find? path = none ∨ place.2.2 = [] ∨ disk.children place ≠ [] then
    none
  else some ⟨disk.nodes.filter (·.1 ≠ place)⟩

/-- A script that prints what it is given. -/
instance : Os Disk where
  stat := stat
  access disk path _ := (disk.find? path).isSome
  readdir := readdir
  openRead := openRead
  openDirectory disk path :=
    if disk.find? path = some .directory then some (2 ^ 63 - 1) else none
  openWrite := openWrite
  write := write
  remove := remove
  run disk script := (disk, .exited 0 script.input)
  nameBound disk := disk.nodes.length

def ofDirectories (paths : List Str) : Disk where
  nodes := paths.map fun path => (Lexical.resolve path, .directory)

end Disk

end Webserv
