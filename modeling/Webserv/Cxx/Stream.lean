import Webserv.Cxx.Text

namespace Webserv.Cxx

/-! File streams over an operating system that answers every call as it
pleases.  Theorems name the answers they rely on. -/

inductive FileKind
  | regular
  | directory
  | other
  deriving DecidableEq, Repr

/-- The part of `struct stat` the program reads. -/
structure Stat where
  kind : FileKind
  /-- `S_IRUSR` -/
  ownerRead : Bool
  /-- `S_IWUSR` -/
  ownerWrite : Bool
  deriving DecidableEq, Repr

inductive AccessMode
  | exists
  | read
  deriving DecidableEq, Repr

/-- A program started through `fork` and `execve`, fed through a pipe. -/
structure Script where
  interpreter : Str
  argument : Str
  environment : List Str
  input : Str
  deriving DecidableEq, Repr

/-- How a started program ended, as its parent learns it. -/
inductive ScriptOutcome
  /-- A pipe or `fork` failed. -/
  | notStarted
  | timedOut
  | signaled
  | exited (code : Nat) (output : Str)
  deriving DecidableEq, Repr

/-- The system calls of the program on a state `W` of the outside world. -/
class Os (W : Type) where
  stat : W → Str → Option Stat
  access : W → Str → AccessMode → Bool
  /-- The names `readdir` returns, when the directory can be opened. -/
  readdir : W → Str → Option (List Str)
  /-- The bytes of a file that can be opened for reading. -/
  openRead : W → Str → Option Str
  /-- Where its end is said to be, of a directory that can be opened for
  reading.  No byte is read from it. -/
  openDirectory : W → Str → Option Nat := fun _ _ => none
  /-- The world after a file was created or truncated for writing. -/
  openWrite : W → Str → Option W
  /-- The world after a write, and how many of the bytes it took. -/
  write : W → Str → Str → W × Nat
  remove : W → Str → Option W
  run : W → Script → W × ScriptOutcome
  /-- More names than any directory has entries. -/
  nameBound : W → Nat

/-- `std::ofstream`: the file it writes to, and whether `fail()` holds. -/
structure OFStream where
  path : Option Str := none
  failed : Bool := false
  deriving DecidableEq, Repr

namespace OFStream

def isOpen (file : OFStream) : Bool := file.path.isSome

/-- `open` fails on a stream that is open already and clears the failure of
earlier calls when it succeeds. -/
def openFile [Os W] (file : OFStream) (world : W) (path : Str) :
    OFStream × W :=
  if file.isOpen then ({ file with failed := true }, world)
  else
    match Os.openWrite world path with
    | some world => ({ path := some path, failed := false }, world)
    | none => ({ file with failed := true }, world)

/-- A flushed write: the bytes that reached the file are the last result.
A stream that has failed before passes nothing on. -/
def put [Os W] (file : OFStream) (world : W) (bytes : Str) :
    OFStream × W × Str :=
  match file.path with
  | none => ({ file with failed := true }, world, [])
  | some path =>
      if file.failed ∨ bytes = [] then (file, world, [])
      else
        let (world, count) := Os.write world path bytes
        ({ file with failed := count < bytes.length }, world,
          bytes.take count)

def close (file : OFStream) : OFStream := { file with path := none }

@[simp] theorem close_path (file : OFStream) : file.close.path = none := rfl

@[simp] theorem close_isOpen (file : OFStream) : file.close.isOpen = false :=
  rfl

theorem length_put_le [Os W] (file : OFStream) (world : W) (bytes : Str) :
    (file.put world bytes).2.2.length ≤ bytes.length := by
  unfold put
  split
  · simp
  · split
    · simp
    · simp only [List.length_take]
      omega

theorem isOpen_of_put [Os W] {file : OFStream} {world : W} {bytes : Str}
    (h : (file.put world bytes).1.failed = false) :
    (file.put world bytes).1.isOpen = true ∧ file.isOpen = true := by
  unfold put at h ⊢
  split
  · rename_i hpath
    rw [hpath] at h
    cases h
  · rename_i path hpath
    unfold isOpen
    split <;> simp [hpath]

end OFStream

/-- `std::ifstream`: the bytes that its file had when it was opened, the read
position and `eof()`. -/
structure IFStream where
  content : Option Str := none
  position : Nat := 0
  eof : Bool := false
  path : Str := []
  /-- Where its end is said to be, if it is a directory. -/
  directory : Option Nat := none
  deriving DecidableEq, Repr

namespace IFStream

def isOpen (file : IFStream) : Bool := file.content.isSome

def close (file : IFStream) : IFStream := { file with content := none }

/-- `open` on a closed stream, at the start of the file. -/
def openFile [Os W] (file : IFStream) (world : W) (path : Str) : IFStream :=
  match Os.openRead world path with
  | some content => { content := some content, path := path }
  | none =>
      match Os.openDirectory world path with
      | some size =>
          { content := some [], path := path, directory := some size }
      | none => file

/-- `tellg` at the end of what has been opened. -/
def size (file : IFStream) : Nat :=
  file.directory.getD (file.content.getD []).length

/-- `read` of at most `count` bytes, which meets the end of the file when
fewer are left.  On a directory it fails, and meets no end. -/
def read (file : IFStream) (count : Nat) : IFStream × Str :=
  match file.content with
  | none => (file, [])
  | some content =>
      if file.directory.isSome then (file, [])
      else
        let bytes := (content.drop file.position).take count
        ({ file with
            position := file.position + bytes.length
            eof := bytes.length < count }, bytes)

/-- Its file still has the bytes that it had when it was opened, so that `read`
finds these. -/
def AsOpened [Os W] (file : IFStream) (world : W) : Prop :=
  file.directory = none →
    ∀ content ∈ file.content, Os.openRead world file.path = some content

/-- The test goes byte by byte, so that it can be evaluated on long files. -/
instance [Os W] (file : IFStream) (world : W) :
    Decidable (file.AsOpened world) :=
  decidable_of_iff
    (file.directory = none → ∀ content ∈ file.content,
      ∃ found ∈ Os.openRead world file.path, List.beq found content = true)
    (imp_congr_right fun _ => forall₂_congr fun content _ => by
      cases Os.openRead world file.path with
      | none => simp
      | some found =>
          have hbytes : List.beq found content = true ↔ found = content :=
            @beq_iff_eq (List Char) List.instBEq _ found content
          simpa using hbytes)

structure Fresh (file : IFStream) : Prop where
  position : file.position = 0
  eof : file.eof = false
  directory : file.directory ≠ none → file.content.getD [] = []

theorem Fresh.close {file : IFStream} (h : file.Fresh) : file.close.Fresh :=
  ⟨h.position, h.eof, fun _ => rfl⟩

theorem Fresh.openFile [Os W] {file : IFStream} (h : file.Fresh) (world : W)
    (path : Str) : (file.openFile world path).Fresh := by
  unfold IFStream.openFile
  split
  · exact ⟨rfl, rfl, fun hnone => absurd rfl hnone⟩
  · split
    · exact ⟨rfl, rfl, fun _ => rfl⟩
    · exact h

end IFStream

namespace Os

variable {W : Type} [Os W]

/-- Whether `ifstream::open` succeeds. -/
def opens (world : W) (path : Str) : Bool :=
  (openRead world path).isSome || (openDirectory world path).isSome

/-- Where `tellg` finds the end of what has been opened. -/
def announced (world : W) (path : Str) : Nat :=
  match openRead world path with
  | some content => content.length
  | none => (openDirectory world path).getD 0

def readable (world : W) (path : Str) : Str :=
  (openRead world path).getD []

theorem opens_of_openRead {world : W} {path content : Str}
    (h : openRead world path = some content) :
    opens world path = true ∧ announced world path = content.length ∧
      readable world path = content := by
  unfold opens announced readable
  rw [h]
  exact ⟨rfl, rfl, rfl⟩

end Os

namespace IFStream

variable {W : Type} [Os W] {world : W} {path : Str}

theorem openFile_opened (h : Os.opens world path = true) (file : IFStream) :
    (file.openFile world path).content = some (Os.readable world path) ∧
      (file.openFile world path).size = Os.announced world path := by
  unfold Os.opens at h
  unfold openFile Os.readable Os.announced size
  cases hread : Os.openRead world path with
  | some content => exact ⟨rfl, rfl⟩
  | none =>
      rw [hread] at h
      obtain ⟨size, hsize⟩ := Option.isSome_iff_exists.mp h
      rw [hsize]
      exact ⟨rfl, rfl⟩

theorem openFile_unopened (h : Os.opens world path = false)
    (file : IFStream) : file.openFile world path = file := by
  unfold Os.opens at h
  rw [Bool.or_eq_false_iff, Option.isSome_eq_false_iff,
    Option.isSome_eq_false_iff, Option.isNone_iff_eq_none,
    Option.isNone_iff_eq_none] at h
  unfold openFile
  rw [h.1, h.2]

end IFStream

end Webserv.Cxx
