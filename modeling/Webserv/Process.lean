import Webserv.Client

namespace Webserv

open Cxx

/-! The state the whole process shares: the function-local statics, and the
outside world.  What the request handlers do to files and scripts is recorded
in the order in which it happens. -/

inductive Act
  /-- `open` of the stream in the request. -/
  | openUpload (path : Str) (ok : Bool)
  /-- Bytes that reached the file of the stream in the request. -/
  | writeUpload (bytes : Str)
  /-- `open` of the static stream of `create_file`. -/
  | openPart (path : Str) (ok : Bool)
  /-- Bytes that reached the file of the static stream. -/
  | writePart (bytes : Str)
  | remove (path : Str)
  | cgi (script body : Str)
  deriving DecidableEq, Repr

/-- An act on behalf of the connection with a descriptor. -/
structure Effect where
  client : Int
  act : Act
  deriving DecidableEq, Repr

/-- The statics of `hanlde_post_request`. -/
structure PostStatics where
  first : Nat := 0
  writed : Nat := 0
  deriving DecidableEq, Repr

/-- The statics of `boundary` and of `create_file`. -/
structure PartStatics where
  buffer : Str := []
  callCount : Nat := 0
  boundaryStr : Str := []
  processingFile : Bool := false
  file : OFStream := {}
  fileCreated : Bool := false
  deriving DecidableEq, Repr

/-- The statics of `chunked_for_cgi`. -/
structure CgiChunkStatics where
  request : Str := []
  result : Str := []
  deriving DecidableEq, Repr

/-- The two statics called `body_cgi`. -/
structure BodyCgi where
  location : Str := []
  server : Str := []
  deriving DecidableEq, Repr

structure Process (W : Type) where
  world : W
  /-- The static of `ft_generate_file_names`. -/
  index : Nat := 0
  post : PostStatics := {}
  /-- The static of `chunked`. -/
  chunkRequest : Str := []
  part : PartStatics := {}
  cgiChunk : CgiChunkStatics := {}
  bodyCgi : BodyCgi := {}
  effects : List Effect := []

namespace Process

variable {W : Type}

def log (process : Process W) (client : Client) (act : Act) : Process W :=
  { process with effects := process.effects ++ [⟨client.clientId, act⟩] }

def actsOf (process : Process W) (fd : Int) : List Act :=
  (process.effects.filter (·.client = fd)).map Effect.act

theorem actsOf_of_effects {process process' : Process W} {acts : List Act}
    {id : Int}
    (h : process'.effects = process.effects ++ acts.map (Effect.mk id))
    (fd : Int) :
    process'.actsOf fd =
      process.actsOf fd ++ (if id = fd then acts else []) := by
  unfold actsOf
  rw [h, List.filter_append, List.map_append]
  congr 1
  by_cases hid : id = fd
  · simp [hid, List.filter_map, Function.comp_def]
  · simp [hid, List.filter_map, Function.comp_def]

end Process

/-- A file the process has opened for writing, with the bytes written to it. -/
structure OutFile where
  path : Str
  content : Str
  deriving DecidableEq, Repr

/-- Bytes added to the file opened last. -/
def appendLast (bytes : Str) : List OutFile → List OutFile
  | [] => []
  | [file] => [{ file with content := file.content ++ bytes }]
  | file :: rest => file :: appendLast bytes rest

/-- The files a record of acts has created, in the order of their creation.
A stream writes to the file it opened last. -/
def uploadFiles : List Act → List OutFile
  | acts => acts.foldl (fun files act =>
      match act with
      | .openUpload path true => files ++ [⟨path, []⟩]
      | .openPart path true => files ++ [⟨path, []⟩]
      | .writeUpload bytes => appendLast bytes files
      | .writePart bytes => appendLast bytes files
      | _ => files) []

theorem appendLast_concat (bytes : Str) (files : List OutFile)
    (file : OutFile) :
    appendLast bytes (files ++ [file]) =
      files ++ [{ file with content := file.content ++ bytes }] := by
  induction files with
  | nil => rfl
  | cons first rest ih =>
      obtain ⟨next, tail, hnext⟩ :
          ∃ next tail, rest ++ [file] = next :: tail := by
        cases rest with
        | nil => exact ⟨_, _, rfl⟩
        | cons next tail => exact ⟨_, _, rfl⟩
      have hfirst : appendLast bytes (first :: (rest ++ [file])) =
          first :: appendLast bytes (rest ++ [file]) := by
        rw [hnext]
        rfl
      rw [List.cons_append, hfirst, ih]
      rfl

namespace Process

variable {W : Type}

def filesOf (process : Process W) (fd : Int) : List OutFile :=
  uploadFiles (process.actsOf fd)

theorem actsOf_log (process : Process W) (client : Client) (act : Act) :
    (process.log client act).actsOf client.clientId =
      process.actsOf client.clientId ++ [act] := by
  simp [actsOf, log]

theorem filesOf_openUpload (process : Process W) (client : Client)
    (path : Str) :
    (process.log client (.openUpload path true)).filesOf client.clientId =
      process.filesOf client.clientId ++ [⟨path, []⟩] := by
  simp [filesOf, actsOf_log, uploadFiles]

theorem filesOf_writeUpload (process : Process W) (client : Client)
    (bytes : Str) :
    (process.log client (.writeUpload bytes)).filesOf client.clientId =
      appendLast bytes (process.filesOf client.clientId) := by
  simp [filesOf, actsOf_log, uploadFiles]

theorem filesOf_openPart (process : Process W) (client : Client)
    (path : Str) :
    (process.log client (.openPart path true)).filesOf client.clientId =
      process.filesOf client.clientId ++ [⟨path, []⟩] := by
  simp [filesOf, actsOf_log, uploadFiles]

theorem filesOf_writePart (process : Process W) (client : Client)
    (bytes : Str) :
    (process.log client (.writePart bytes)).filesOf client.clientId =
      appendLast bytes (process.filesOf client.clientId) := by
  simp [filesOf, actsOf_log, uploadFiles]

end Process

def writtenBytes (acts : List Act) : Nat :=
  (acts.map fun act =>
    match act with
    | .writeUpload bytes => bytes.length
    | .writePart bytes => bytes.length
    | _ => 0).sum

theorem writtenBytes_append (acts more : List Act) :
    writtenBytes (acts ++ more) = writtenBytes acts + writtenBytes more := by
  simp [writtenBytes]

def openedPaths (acts : List Act) : List Str :=
  acts.filterMap fun act =>
    match act with
    | .openUpload path _ => some path
    | .openPart path _ => some path
    | _ => none

end Webserv
