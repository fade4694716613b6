import Webserv.Session
import Webserv.Disk

namespace Webserv

open Cxx

/-! How many bytes a body brings into files, against the limit of its server. -/

section Spends

variable {W : Type}

def Process.written (process : Process W) (fd : Int) : Nat :=
  writtenBytes (process.actsOf fd)

/-- At most so many bytes reach files between two states. -/
structure Spends (process process' : Process W) (count : Nat) : Prop where
  le : ∀ fd, process'.written fd ≤ process.written fd + count

namespace Spends

variable {process process' : Process W} {count : Nat}

theorem of_effects (h : process'.effects = process.effects) :
    Spends process process' count :=
  ⟨fun fd => by simp [Process.written, Process.actsOf, h]⟩

theorem trans {process'' : Process W} {more : Nat}
    (hfirst : Spends process process' count)
    (hsecond : Spends process' process'' more) :
    Spends process process'' (count + more) := by
  refine ⟨fun fd => ?_⟩
  have hcount := hfirst.le fd
  have hmore := hsecond.le fd
  omega

theorem after {process'' : Process W} {more : Nat}
    (hsecond : Spends process' process'' more)
    (hfirst : Spends process process' count) :
    Spends process process'' (count + more) :=
  hfirst.trans hsecond

theorem mono {more : Nat} (h : Spends process process' count)
    (hle : count ≤ more) : Spends process process' more := by
  refine ⟨fun fd => ?_⟩
  have hcount := h.le fd
  omega

theorem of_finish {after : Process W} (h : Spends process process' count)
    (heffects : after.effects = process'.effects) :
    Spends process after count :=
  ⟨fun fd => by
    have hcount := h.le fd
    simpa [Process.written, Process.actsOf, heffects] using hcount⟩

theorem of_start {before : Process W} (h : Spends process process' count)
    (heffects : process.effects = before.effects) :
    Spends before process' count :=
  ⟨fun fd => by
    have hcount := h.le fd
    simpa [Process.written, Process.actsOf, heffects] using hcount⟩

theorem of_acts {acts : List Act} {id : Int}
    (h : process'.effects = process.effects ++ acts.map (Effect.mk id)) :
    Spends process process' (writtenBytes acts) := by
  refine ⟨fun fd => ?_⟩
  unfold Process.written
  rw [Process.actsOf_of_effects h, writtenBytes_append]
  split
  · exact Nat.le_refl _
  · simp [writtenBytes]

theorem log (process : Process W) (client : Client) (act : Act) :
    Spends process (process.log client act) (writtenBytes [act]) :=
  of_acts rfl

end Spends

end Spends

/-! The content that a buffer completes, for each way to take a body. -/

/-- A text without the line break in front of a delimiter. -/
def stripFinalCrlf (data : Str) : Str :=
  match dropFinalCrlf data with
  | .ok data => data
  | .error _ => []

/-- The content in a piece of a part, which is preceded by the part's head
unless the part has begun before. -/
def pieceBytes (processing : Bool) (piece : Str) : Nat :=
  if processing then piece.length else (partContent piece).length

section Content

variable {W : Type}

end Content

/-! What each handler brings into files. -/

section Handlers

variable {W : Type} [Os W] {process process' : Process W}
  {client client' : Client}

theorem getFileName_request (world : W) (client : Client) :
    (getFileName world client).1.request = client.request := by
  unfold getFileName
  simp only
  split
  · simp
  split
  · simp
  split
  · simp
  · rfl

omit [Os W] in
theorem finishPost_frame (process : Process W) (client : Client) :
    ∃ post, (finishPost process client).1 = { process with post := post } := by
  unfold finishPost
  split
  · exact ⟨_, rfl⟩
  · exact ⟨process.post, rfl⟩

theorem hanldePostRequest_frame
    (h : hanldePostRequest process client = .ok (process', client')) :
    ∃ world index post effects, process' = { process with
      world := world
      index := index
      post := post
      effects := effects } := by
  unfold hanldePostRequest at h
  split at h
  · obtain ⟨⟨fileName, index⟩, -, hnext⟩ := bind_ok h
    simp only at hnext
    split at hnext
    · obtain ⟨rfl, -⟩ := Prod.mk.inj (Except.ok.inj hnext)
      exact ⟨_, _, _, _, rfl⟩
    · have hprocess : _ = process' := congrArg Prod.fst (Except.ok.inj hnext)
      rw [← hprocess]
      unfold firstPost
      simp only
      split
      · exact ⟨_, _, _, _, rfl⟩
      split
      · exact ⟨_, _, _, _, rfl⟩
      · obtain ⟨post, hpost⟩ := finishPost_frame _ _
        rw [hpost]
        exact ⟨_, _, _, _, rfl⟩
  · have hprocess : _ = process' := congrArg Prod.fst (Except.ok.inj h)
    rw [← hprocess]
    unfold nextPost
    simp only
    split
    · exact ⟨_, _, _, _, rfl⟩
    split
    · exact ⟨_, _, _, _, rfl⟩
    · obtain ⟨post, hpost⟩ := finishPost_frame _ _
      rw [hpost]
      exact ⟨_, _, _, _, rfl⟩

theorem putPart_spends (process : Process W) (client : Client)
    (bytes : Str) :
    Spends process (putPart process client bytes) bytes.length := by
  unfold putPart
  have hput := OFStream.length_put_le process.part.file process.world bytes
  generalize process.part.file.put process.world bytes = put at *
  have hlog : Spends process (({ process with
      world := put.2.1
      part := { process.part with file := put.1 } }).log client
        (.writePart put.2.2)) (writtenBytes [.writePart put.2.2]) :=
    (Spends.log _ client _).of_start rfl
  exact hlog.mono (by simpa [writtenBytes] using hput)

theorem createPart_spends (process : Process W) (client : Client)
    (head : PartHead) (content : Str) :
    Spends process (createPart process client head content).1
      content.length := by
  cases head with
  | other => exact Spends.of_effects rfl
  | unnamed => exact Spends.of_effects rfl
  | unterminated => exact Spends.of_effects rfl
  | named name =>
      unfold createPart
      generalize getFileName process.world client = found
      obtain ⟨client₁, dirname⟩ := found
      simp only
      split
      · exact Spends.of_effects rfl
      · have hopened : Spends process (openPart process client₁
            (cStr (dirname ++ "/".toList ++ name))) 0 :=
          (Spends.log _ client₁ (.openPart _ _)).of_start rfl
        split
        · exact hopened.mono (Nat.zero_le _)
        split
        · exact (hopened.mono (Nat.zero_le _)).of_finish rfl
        · have hput := putPart_spends { openPart process client₁
              (cStr (dirname ++ "/".toList ++ name)) with
            part := { (openPart process client₁
              (cStr (dirname ++ "/".toList ++ name))).part with
                fileCreated := true } } client₁ content
          exact (hopened.trans (hput.of_start rfl)).mono (by omega)

/-- The bytes that a call of `create_file` may write. -/
def createBytes (buffer : Str) (flag : Nat) : Nat :=
  if flag = 2 then 0 else pieceBytes (flag = 1) buffer

theorem createFile_spends {buffer : Str} {flag : Nat}
    (h : createFile process client buffer flag = .ok (process', client')) :
    Spends process process' (createBytes buffer flag) := by
  unfold createFile at h
  unfold createBytes pieceBytes
  split at h
  · rename_i hflag
    obtain ⟨rfl, -⟩ := Prod.mk.inj (Except.ok.inj h)
    exact Spends.of_effects rfl
  rename_i hclose
  split at h
  · rename_i hflag
    rw [if_neg hclose, if_pos (by simpa using hflag)]
    split at h
    · obtain ⟨rfl, -⟩ := Prod.mk.inj (Except.ok.inj h)
      exact putPart_spends ..
    · obtain ⟨rfl, -⟩ := Prod.mk.inj (Except.ok.inj h)
      exact Spends.of_effects rfl
  · rename_i hwrite
    obtain ⟨head, -, h⟩ := bind_ok h
    rw [if_neg hclose, if_neg (by simpa using hwrite)]
    have hpart := createPart_spends process client head (partContent buffer)
    rw [Except.ok.inj h] at hpart
    exact hpart

theorem createFile_frame {buffer : Str} {flag : Nat}
    (h : createFile process client buffer flag = .ok (process', client')) :
    ∃ world file fileCreated effects, process' = { process with
      world := world
      part := { process.part with
        file := file
        fileCreated := fileCreated }
      effects := effects } := by
  unfold createFile at h
  split at h
  · obtain ⟨rfl, -⟩ := Prod.mk.inj (Except.ok.inj h)
    exact ⟨_, _, _, _, rfl⟩
  split at h
  · split at h
    · obtain ⟨rfl, -⟩ := Prod.mk.inj (Except.ok.inj h)
      exact ⟨_, _, _, _, rfl⟩
    · obtain ⟨rfl, -⟩ := Prod.mk.inj (Except.ok.inj h)
      exact ⟨_, process.part.file, process.part.fileCreated, _, rfl⟩
  · obtain ⟨head, -, h⟩ := bind_ok h
    have hprocess : _ = process' := congrArg Prod.fst (Except.ok.inj h)
    rw [← hprocess]
    cases head with
    | other => exact ⟨_, process.part.file, process.part.fileCreated, _, rfl⟩
    | unnamed =>
        exact ⟨_, process.part.file, process.part.fileCreated, _, rfl⟩
    | unterminated =>
        exact ⟨_, process.part.file, process.part.fileCreated, _, rfl⟩
    | named name =>
        unfold createPart
        generalize getFileName process.world client = found
        obtain ⟨client₁, dirname⟩ := found
        simp only
        split
        · exact ⟨_, process.part.file, process.part.fileCreated, _, rfl⟩
        split
        · exact ⟨_, _, _, _, rfl⟩
        split
        · exact ⟨_, _, _, _, rfl⟩
        · exact ⟨_, _, _, _, rfl⟩

theorem createFile_boundaryStr {buffer : Str} {flag : Nat}
    (h : createFile process client buffer flag = .ok (process', client')) :
    process'.part.boundaryStr = process.part.boundaryStr := by
  obtain ⟨_, _, _, _, rfl⟩ := createFile_frame h
  rfl

theorem dropFinalCrlf_eq (data : Str) :
    dropFinalCrlf data = .ok (stripFinalCrlf data) := by
  unfold stripFinalCrlf dropFinalCrlf
  split
  · rw [substrFrom_ok (by omega)]
    simp only [bind, Except.bind, substr_zero]
    split <;> rfl
  · rfl

theorem closeProcessed_spends
    (h : closeProcessed process client = .ok (process', client')) :
    Spends process process' 0 ∧
      process'.part.boundaryStr = process.part.boundaryStr ∧
      process'.part.processingFile = false := by
  unfold closeProcessed at h
  split at h
  · obtain ⟨⟨created, client₁⟩, hcreate, h⟩ := bind_ok h
    obtain ⟨rfl, -⟩ := Prod.mk.inj (Except.ok.inj h)
    have hspent : Spends process created 0 := createFile_spends hcreate
    have hboundary := createFile_boundaryStr hcreate
    exact ⟨hspent.of_finish rfl, hboundary, rfl⟩
  · rename_i hprocessing
    obtain ⟨rfl, -⟩ := Prod.mk.inj (Except.ok.inj h)
    exact ⟨.of_effects rfl, rfl, by simpa using hprocessing⟩

theorem takeChunk_spends {pos : Nat}
    (h : takeChunk process client pos = .ok (process', client')) :
    Spends process process' (pieceBytes process.part.processingFile
        (stripFinalCrlf (process.part.buffer.take pos))) ∧
      process'.part.boundaryStr = process.part.boundaryStr ∧
      process'.part.processingFile = false := by
  unfold takeChunk at h
  obtain ⟨data, hdata, h⟩ := bind_ok h
  obtain rfl := Except.ok.inj ((substr_zero ..).symm.trans hdata)
  obtain ⟨dataChunk, hchunk, h⟩ := bind_ok h
  obtain rfl := Except.ok.inj ((dropFinalCrlf_eq _).symm.trans hchunk)
  obtain ⟨⟨created, client₁⟩, hcreate, h⟩ := bind_ok h
  obtain ⟨⟨closed, client₂⟩, hclose, h⟩ := bind_ok h
  obtain ⟨rfl, -⟩ := Prod.mk.inj (Except.ok.inj h)
  have hpiece : Spends process created (pieceBytes process.part.processingFile
      (stripFinalCrlf (process.part.buffer.take pos))) := by
    have hspent := createFile_spends hcreate
    cases hprocessing : process.part.processingFile <;>
      (rw [hprocessing] at hspent
       exact hspent)
  have hclosed : Spends created closed 0 := createFile_spends hclose
  refine ⟨(hpiece.trans hclosed).of_finish rfl, ?_, rfl⟩
  exact (createFile_boundaryStr hclose).trans (createFile_boundaryStr hcreate)

theorem execScript_spends (process : Process W) (client : Client)
    (script : Script) :
    Spends process (execScript process client script).1 0 := by
  unfold execScript
  generalize Os.run process.world script = ran
  obtain ⟨world, outcome⟩ := ran
  cases outcome with
  | notStarted => exact .of_effects rfl
  | timedOut => exact .of_effects rfl
  | signaled => exact .of_effects rfl
  | exited code content =>
      simp only
      split
      · exact .of_effects rfl
      split
      · exact .of_effects rfl
      split
      · exact .of_effects rfl
      split <;> exact .of_effects rfl

theorem cgiHandler_spends (process : Process W) (client : Client)
    (body sn : Str) :
    Spends process (cgiHandler process client body sn).1 0 := by
  unfold cgiHandler
  have hlog : Spends process (process.log client (.cgi sn body)) 0 :=
    Spends.log ..
  simp only
  split
  · exact hlog.trans (execScript_spends ..)
  split
  · exact hlog.trans (execScript_spends ..)
  · exact hlog

theorem runOnBody_spends (slot : BodySlot) (process : Process W)
    (client : Client) (path : Str) :
    Spends process (runOnBody slot process client path).1 0 := by
  unfold runOnBody
  exact (cgiHandler_spends process client (process.getBody slot)
    path).of_finish (Process.setBody_effects ..)

omit [Os W] in
theorem chunkedForCgiLoop_effects {fuel : Nat} {tmp : Str}
    (h : chunkedForCgiLoop fuel process client =
      .ok (process', client', tmp)) :
    process'.effects = process.effects := by
  induction fuel generalizing process client with
  | zero => cases h
  | succ fuel ih =>
      rw [chunkedForCgiLoop] at h
      split at h
      · obtain ⟨rfl, -⟩ := Prod.mk.inj (Except.ok.inj h)
        rfl
      · obtain ⟨line, -, h⟩ := bind_ok h
        simp only at h
        split at h
        · obtain ⟨rfl, -⟩ := Prod.mk.inj (Except.ok.inj h)
          rfl
        obtain ⟨tmp, -, h⟩ := bind_ok h
        split at h
        · obtain ⟨rfl, -⟩ := Prod.mk.inj (Except.ok.inj h)
          rfl
        obtain ⟨request, -, h⟩ := bind_ok h
        obtain ⟨data, -, h⟩ := bind_ok h
        obtain ⟨rest, -, h⟩ := bind_ok h
        have heffects := ih h
        exact heffects

omit [Os W] in
theorem chunkedForCgi_effects {tmp : Str}
    (h : chunkedForCgi process client = .ok (process', client', tmp)) :
    process'.effects = process.effects := by
  unfold chunkedForCgi at h
  have hloop := chunkedForCgiLoop_effects h
  exact hloop

theorem cgiPost_spends {slot : BodySlot} {path : Str}
    (h : cgiPost slot process client path = .ok (process', client')) :
    Spends process process' 0 := by
  have hran (stored : Process W) (asked : Client) {ran : Process W}
      {answered : Client}
      (hrun : runOnBody slot stored asked path = (ran, answered)) :
      Spends stored ran 0 := by
    have hspends := runOnBody_spends slot stored asked path
    rwa [hrun] at hspends
  rcases cgiPost_cases h with ⟨taken, client₁, tmp, htaken, hnext⟩ | hnext
  · have hstored : (taken.setBody slot (taken.getBody slot ++ tmp)).effects =
        process.effects := by
      rw [Process.setBody_effects, chunkedForCgi_effects htaken]
    rcases hnext with ⟨-, hrun⟩ | ⟨-, rfl, -⟩
    · exact (hran _ _ hrun).of_start hstored
    · exact .of_effects hstored
  · rcases hnext with ⟨ran, answered, hrun, rfl, -⟩ | ⟨rfl, -⟩
    · exact (hran _ _ hrun).of_start (Process.setBody_effects ..)
    · exact .of_effects (Process.setBody_effects ..)

theorem cgiExtensions_spends {ex path : Str} {extensions : List Str}
    {bol bol' : Bool}
    (h : cgiExtensions ex path extensions process client bol =
      .ok (process', client', bol')) :
    Spends process process' 0 ∧
      (bol' = false → bol = false ∧ process' = process ∧
        client' = client) := by
  induction extensions generalizing process client bol with
  | nil =>
      obtain ⟨rfl, hrest⟩ := Prod.mk.inj (Except.ok.inj h)
      obtain ⟨rfl, rfl⟩ := Prod.mk.inj hrest
      exact ⟨.of_effects rfl, fun hbol => ⟨hbol, rfl, rfl⟩⟩
  | cons extension rest ih =>
      rw [cgiExtensions] at h
      split at h
      · split at h
        · obtain ⟨⟨posted, client₁⟩, hpost, h⟩ := bind_ok h
          obtain ⟨hrest, hfalse⟩ := ih h
          exact ⟨(cgiPost_spends hpost).trans hrest,
            fun hbol => absurd (hfalse hbol).1 (by decide)⟩
        split at h
        · obtain ⟨hrest, hfalse⟩ := ih h
          exact ⟨(cgiHandler_spends ..).trans hrest,
            fun hbol => absurd (hfalse hbol).1 (by decide)⟩
        · obtain ⟨rfl, hrest⟩ := Prod.mk.inj (Except.ok.inj h)
          obtain ⟨rfl, rfl⟩ := Prod.mk.inj hrest
          exact ⟨.of_effects rfl, fun hbol => absurd hbol (by decide)⟩
      · exact ih h

theorem checkIfHaveCgi_spends {bol : Bool}
    (h : checkIfHaveCgi process client = .ok (process', client', bol)) :
    Spends process process' 0 ∧
      (bol = false → process' = process ∧ client' = client) := by
  unfold checkIfHaveCgi at h
  simp only at h
  split at h
  · obtain ⟨rfl, hrest⟩ := Prod.mk.inj (Except.ok.inj h)
    obtain ⟨rfl, rfl⟩ := Prod.mk.inj hrest
    exact ⟨.of_effects rfl, fun _ => ⟨rfl, rfl⟩⟩
  split at h
  · obtain ⟨hspent, hfalse⟩ := cgiExtensions_spends h
    exact ⟨hspent, fun hbol => (hfalse hbol).2⟩
  · unfold cgiServer at h
    split at h
    · obtain ⟨⟨posted, client₁⟩, hpost, h⟩ := bind_ok h
      obtain ⟨rfl, hrest⟩ := Prod.mk.inj (Except.ok.inj h)
      obtain ⟨rfl, rfl⟩ := Prod.mk.inj hrest
      exact ⟨cgiPost_spends hpost, fun hbol => nomatch hbol⟩
    split at h
    · obtain ⟨rfl, hrest⟩ := Prod.mk.inj (Except.ok.inj h)
      obtain ⟨rfl, rfl⟩ := Prod.mk.inj hrest
      exact ⟨cgiHandler_spends .., fun hbol => nomatch hbol⟩
    · obtain ⟨rfl, hrest⟩ := Prod.mk.inj (Except.ok.inj h)
      obtain ⟨rfl, rfl⟩ := Prod.mk.inj hrest
      exact ⟨.of_effects rfl, fun hbol => nomatch hbol⟩

end Handlers

namespace Session

variable {W : Type} [Os W]

theorem receive_kept {process process' : Process W} {client client' : Client}
    {bytes : Str}
    (h : receive process client bytes = .ok (process', client')) :
    Client.Kept client client' := by
  unfold receive at h
  split at h
  · obtain ⟨-, rfl⟩ := Prod.mk.inj (Except.ok.inj h)
    exact .refl client
  · exact (checkRequest_kept h).after ⟨rfl, ⟨_, rfl⟩, id⟩

/-- Every client is recorded under its own descriptor. -/
def OwnIds (session : Session W) : Prop :=
  ∀ fd client, session.clients fd = some client → client.clientId = fd

def bodyDisk : Disk := .ofDirectories ["./html".toList, "./upload".toList]

def smallBlock : ServerBlock := { clientBodySize := 1 }

def connected : Session Disk :=
  (initial bodyDisk).setClient 5 (Client.connect 5 smallBlock)

end Session

end Webserv
