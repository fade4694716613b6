import Webserv.Process
import Webserv.ParseRequest

namespace Webserv

open Cxx

/-! The three ways a `POST` body reaches a file. -/

/-- The value in a 32-bit `int`, where a character that is no hexadecimal
digit is passed over. -/
def hexToInt (hexStr : Str) : BitVec 32 :=
  hexStr.foldl (fun result c =>
    if '0' ≤ c ∧ c ≤ '9' then
      result * 16 + BitVec.ofNat 32 (c.toNat - '0'.toNat)
    else if 'a' ≤ c ∧ c ≤ 'f' then
      result * 16 + BitVec.ofNat 32 (c.toNat - 'a'.toNat + 10)
    else if 'A' ≤ c ∧ c ≤ 'F' then
      result * 16 + BitVec.ofNat 32 (c.toNat - 'A'.toNat + 10)
    else result) 0

section Upload

variable {W : Type} [Os W]

def generatedName (index : Nat) (extension : Str) : Str :=
  "file".toList ++ decimal index ++ ".".toList ++ extension

/-- The search for a free name, with the static `index` it stops at. -/
def ftGenerateFileNames (world : W) (extension dirname : Str) :
    Nat → Nat → Except Fault (Str × Nat)
  | 0, _ => .error .diverges
  | fuel + 1, index =>
      let name := dirname ++ "/".toList ++ generatedName index extension
      if Os.access world (cStr name) .exists = false then .ok (name, index)
      else ftGenerateFileNames world extension dirname fuel (index + 1)

def uploadExtension (request : Request) : Str :=
  let contentType := request.getMapValues "Content-Type".toList
  trimNonPrintable
    (match search? ['/'] contentType with
    | some pos => contentType.drop (pos + 1)
    | none => contentType)

/-- `file << s_request << std::flush` on the stream in the request. -/
def putUpload (process : Process W) (client : Client) : Process W × Client :=
  let (file, world, bytes) :=
    client.request.file.put process.world client.request.sRequest
  (({ process with world := world }).log client (.writeUpload bytes),
    client.setFile file)

/-- `file.open` on the stream in the request. -/
def openUpload (process : Process W) (client : Client) (fileName : Str) :
    Process W × Client :=
  let (file, world) := client.request.file.openFile process.world fileName
  (({ process with world := world }).log client
    (.openUpload fileName (!file.failed)), client.setFile file)

/-- The end of both branches of `hanlde_post_request`. -/
def finishPost (process : Process W) (client : Client) :
    Process W × Client :=
  if process.post.writed ≥ client.request.contentLength then
    ({ process with post := {} }, client.setAllRecv true)
  else (process, client)

def countWritten (process : Process W) (client : Client) : Process W :=
  { process with
    post := { process.post with
      writed := process.post.writed + client.request.sRequest.length } }

/-- The first buffer of a body, once there is a directory to write to. -/
def firstPost (process : Process W) (client : Client) (fileName : Str) :
    Process W × Client :=
  let (process, client) := openUpload process client (cStr fileName)
  if client.request.file.isOpen = false then (process, client)
  else
    let (process, client) := putUpload process client
    if client.request.file.failed then
      (process, client.setFile client.request.file.close)
    else finishPost (countWritten process client) client

/-- A later buffer; here the bytes count before the failure is looked at. -/
def nextPost (process : Process W) (client : Client) : Process W × Client :=
  if client.request.file.isOpen = false then
    (process, setResponseError process.world client 500)
  else
    let (process, client) := putUpload process client
    let process := countWritten process client
    if client.request.file.failed then
      (process, client.setFile client.request.file.close)
    else finishPost process client

def hanldePostRequest (process : Process W) (client : Client) :
    Except Fault (Process W × Client) :=
  if process.post.first = 0 then
    let found := getFileName process.world client
    do
      let (fileName, index) ← ftGenerateFileNames process.world
        (uploadExtension client.request) found.2
        (Os.nameBound process.world + 1) process.index
      let process := { process with
        index := index
        post := { process.post with first := 10 } }
      if found.2 = [] then
        return ({ process with post := {} }, found.1.setAllRecv true)
      return firstPost process found.1 fileName
  else .ok (nextPost process client)

/-- The loop of `chunked`. -/
def chunkedLoop : Nat → Process W → Client →
    Except Fault (Process W × Client)
  | 0, _, _ => .error .diverges
  | fuel + 1, process, client =>
      match search? "\r\n".toList process.chunkRequest with
      | none => .ok (process, client)
      | some pos => do
          let line ← substr process.chunkRequest 0 (pos + 2)
          let size := sizeT (hexToInt line).toInt
          let tmp ← substrFrom process.chunkRequest (pos + 2)
          if tmp.length < sizeT (size + 2) then return (process, client)
          if size = 0 then
            return ({ process with chunkRequest := [] },
              client.setAllRecv true)
          let request ← substrFrom process.chunkRequest (pos + 2)
          let chunkData ← substr request 0 size
          let (process, client) ← hanldePostRequest
            { process with chunkRequest := request }
            (client.setSRequest chunkData)
          let request ← substrFrom process.chunkRequest (sizeT (size + 2))
          chunkedLoop fuel { process with chunkRequest := request } client

def chunked (process : Process W) (client : Client) :
    Except Fault (Process W × Client) :=
  let request := process.chunkRequest ++ client.request.sRequest
  chunkedLoop (request.length + 1) { process with chunkRequest := request }
    client

/-- What `create_file` reads in the first line of a part. -/
inductive PartHead
  /-- No `Content-Disposition:`. -/
  | other
  /-- No `filename="`. -/
  | unnamed
  /-- No quote behind the file name. -/
  | unterminated
  | named (filename : Str)
  deriving DecidableEq, Repr

def partHead (buffer : Str) : Except Fault PartHead :=
  let line := (getlines buffer).headD []
  if (search? "Content-Disposition:".toList line).isSome then
    match search? "filename=\"".toList line with
    | some filenamePos => do
        let filenamePos := filenamePos + 10
        match searchFrom? "\"".toList line filenamePos with
        | none => return .unterminated
        | some fileNameEnd =>
            let filename ← substr line filenamePos
              (fileNameEnd - filenamePos)
            return .named filename
    | none => .ok .unnamed
  else .ok .other

/-- The lines behind the first blank one, read back by `std::getline`. -/
def partContent (buffer : Str) : Str :=
  joinLines (((getlines buffer).tail.dropWhile
    fun line => line ≠ [] ∧ line ≠ "\r".toList).tail)

/-- `file.write` and `flush` on the static stream. -/
def putPart (process : Process W) (client : Client) (bytes : Str) :
    Process W :=
  let (file, world, bytes) := process.part.file.put process.world bytes
  ({ process with
    world := world
    part := { process.part with file := file } }).log client
      (.writePart bytes)

/-- `file.open` on the static stream, closed before. -/
def openPart (process : Process W) (client : Client) (filename : Str) :
    Process W :=
  let (file, world) :=
    process.part.file.close.openFile process.world filename
  ({ process with
    world := world
    part := { process.part with file := file } }).log client
      (.openPart filename (!file.failed))

/-- `create_file` with a flag other than 1 and 2. -/
def createPart (process : Process W) (client : Client) (head : PartHead)
    (content : Str) : Process W × Client :=
  match head with
  | .other => (process, client)
  | .unnamed => (process, setResponseError process.world client 415)
  | .unterminated => (process, setResponseError process.world client 400)
  | .named name =>
      let (client, dirname) := getFileName process.world client
      let filename := dirname ++ "/".toList ++ name
      if filename = [] ∨ dirname = [] then (process, client.setAllRecv true)
      else
        let process := openPart process client (cStr filename)
        if process.part.file.isOpen = false then
          (process, setResponseError process.world client 500)
        else
          let process := { process with
            part := { process.part with fileCreated := true } }
          if content = [] then (process, client)
          else (putPart process client content, client)

def createFile (process : Process W) (client : Client) (buffer : Str)
    (flag : Nat) : Except Fault (Process W × Client) :=
  if flag = 2 then
    .ok ({ process with
      part := { process.part with
        file := process.part.file.close
        fileCreated := false } }, client)
  else if flag = 1 then
    if process.part.file.isOpen then
      .ok (putPart process client buffer, client)
    else .ok (process, client)
  else do
    let head ← partHead buffer
    return createPart process client head (partContent buffer)

/-- The position in an `int`, and whether the closing delimiter was seen. -/
def checkIfHaveNewBoundary (buffer boundary : Str) (startPos : Nat) :
    Int × Bool :=
  let boundaryWithPrefix := "--".toList ++ boundary
  if startPos ≥ buffer.length then (-1, false)
  else
    match searchFrom? boundaryWithPrefix buffer startPos with
    | none => (-1, false)
    | some pos =>
        let boundaryEnd := pos + boundaryWithPrefix.length
        (int32 pos,
          boundaryEnd + 1 < buffer.length ∧
            buffer[boundaryEnd]? = some '-' ∧
            buffer[boundaryEnd + 1]? = some '-')

def Process.setBuffer (process : Process W) (buffer : Str) : Process W :=
  { process with part := { process.part with buffer := buffer } }

def Process.setProcessing (process : Process W) (processing : Bool) :
    Process W :=
  { process with part := { process.part with processingFile := processing } }

/-- How many characters a delimiter line at the front takes. -/
def skipSize (buffer boundary : Str) : Nat :=
  let size := ("--".toList ++ boundary).length
  let size := if buffer[size]? = some '\r' then size + 1 else size
  if buffer[size]? = some '\n' then size + 1 else size

/-- The data in front of a delimiter, freed of one final line break. -/
def dropFinalCrlf (data : Str) : Except Fault Str :=
  if data.length ≥ 2 then do
    let final ← substrFrom data (data.length - 2)
    if final = "\r\n".toList then substr data 0 (data.length - 2)
    else return data
  else .ok data

/-- The buffer holds no delimiter: it is a head, or more content. -/
def takeBuffer (process : Process W) (client : Client) :
    Except Fault (Process W × Client) :=
  let buffer := process.part.buffer
  if process.part.processingFile = false then do
    let (process, client) ← createFile process client buffer 0
    return ((process.setProcessing true).setBuffer [], client)
  else do
    let (process, client) ← createFile process client buffer 1
    return (process.setBuffer [], client)

def closeProcessed (process : Process W) (client : Client) :
    Except Fault (Process W × Client) :=
  if process.part.processingFile then do
    let (process, client) ← createFile process client process.part.buffer 2
    return (process.setProcessing false, client)
  else .ok (process, client)

/-- The text in front of a delimiter is the rest of a part, or all of one. -/
def takeChunk (process : Process W) (client : Client) (pos : Nat) :
    Except Fault (Process W × Client) := do
  let data ← substr process.part.buffer 0 pos
  let dataChunk ← dropFinalCrlf data
  let (process, client) ← createFile process client dataChunk
    (if process.part.processingFile then 1 else 0)
  let (process, client) ← createFile process client dataChunk 2
  return (process.setProcessing false, client)

/-- The loop of `boundary`. -/
def boundaryLoop : Nat → Process W → Client →
    Except Fault (Process W × Client)
  | 0, _, _ => .error .diverges
  | fuel + 1, process, client =>
      let buffer := process.part.buffer
      let found := checkIfHaveNewBoundary buffer process.part.boundaryStr 0
      let client := if found.2 then client.setAllRecv true else client
      if found.1 = -1 then takeBuffer process client
      else if found.1 = 0 then do
        let (process, client) ← closeProcessed process client
        let rest ← substrFrom buffer
          (skipSize buffer process.part.boundaryStr)
        boundaryLoop fuel (process.setBuffer rest) client
      else do
        let (process, client) ← takeChunk process client (sizeT found.1)
        let rest ← substrFrom buffer (sizeT found.1)
        boundaryLoop fuel (process.setBuffer rest) client

def firstLineOf (buffer : Str) (firstLineEnd : Nat) : Except Fault Str := do
  let firstLine ← substr buffer 0 firstLineEnd
  if firstLine.getLast? = some '\r' then
    substr firstLine 0 (firstLine.length - 1)
  else return firstLine

/-- The first line names the boundary; without it nothing is read yet. -/
def boundaryLine (process : Process W) : Except Fault (Option (Process W)) :=
  let buffer := process.part.buffer
  match search? "\n".toList buffer with
  | none => .ok none
  | some firstLineEnd => do
      let firstLine ← firstLineOf buffer firstLineEnd
      if firstLine.length > 2 ∧ firstLine.take 2 = "--".toList then
        let rest ← substrFrom buffer (firstLineEnd + 1)
        return some { process with
          part := { process.part with
            boundaryStr := firstLine.drop 2
            buffer := rest } }
      else return none

/-- Only the first call looks for that line. -/
def startBoundary (process : Process W) :
    Except Fault (Option (Process W)) :=
  if process.part.callCount = 0 then boundaryLine process
  else .ok (some process)

/-- The end of `boundary`, once everything has been received. -/
def boundaryEnd (process : Process W) (client : Client) :
    Except Fault (Process W × Client) :=
  if client.allRecv then do
    let (process, client) ← closeProcessed process client
    return ({ process with
      part := { process.part with
        buffer := []
        boundaryStr := []
        callCount := 0
        processingFile := false } }, client)
  else .ok (process, client)

def Process.countCall (process : Process W) : Process W :=
  { process with
    part := { process.part with callCount := process.part.callCount + 1 } }

def boundary (process : Process W) (client : Client) :
    Except Fault (Process W × Client) := do
  let process := process.setBuffer
    (process.part.buffer ++ client.request.sRequest)
  match ← startBoundary process with
  | none => return (process, client)
  | some process =>
      let process := process.countCall
      let (process, client) ←
        boundaryLoop (process.part.buffer.length + 1) process client
      boundaryEnd process client

end Upload

end Webserv
