import Webserv.RequestRules
import Webserv.BodyLimit

namespace Webserv

open Cxx

/-! Answers keep the request, and the parser its stream. -/

def KeepsRequest (client client' : Client) : Prop :=
  client'.request = client.request ∧ client'.clientId = client.clientId

def KeepsStream (client client' : Client) : Prop :=
  client'.request.file = client.request.file ∧
    client'.clientId = client.clientId

section Kept

variable {W : Type} [Os W]

variable (W) in
theorem keepsRequest_rule : AnswerRule W KeepsRequest where
  refl _ := ⟨rfl, rfl⟩
  trans hfirst hsecond :=
    ⟨hsecond.1.trans hfirst.1, hsecond.2.trans hfirst.2⟩
  error world client status := ⟨by simp, by simp⟩
  sendFile world client path := by
    unfold sendFile
    obtain ⟨fileStream, responseStatus, hframe⟩ :=
      fillResponse_frame world client path 200
    simp only
    rw [hframe]
    exact ⟨rfl, rfl⟩
  setResponse _ _ := ⟨rfl, rfl⟩
  setResponseStatus _ _ := ⟨rfl, rfl⟩

variable (W) in
theorem keepsStream_rule : ParseRule W KeepsStream where
  refl _ := ⟨rfl, rfl⟩
  trans hfirst hsecond :=
    ⟨hsecond.1.trans hfirst.1, hsecond.2.trans hfirst.2⟩
  start _ _ := ⟨rfl, rfl⟩
  setLine _ _ _ _ := ⟨rfl, rfl⟩
  setPath _ _ := ⟨rfl, rfl⟩
  addHeader client key value := by
    obtain ⟨headersMap, keepAlive, heq, -⟩ := addHeader_eq client key value
    rw [heq]
    exact ⟨rfl, rfl⟩
  setBlock _ _ := ⟨rfl, rfl⟩
  setContentLength _ _ := ⟨rfl, rfl⟩
  error _ _ _ := ⟨by simp, by simp⟩
  refuse world client := by
    obtain ⟨response, heq, -, -⟩ := setResponseError_frame world client 400
    rw [heq]
    exact ⟨rfl, rfl⟩
  clear world client := by
    obtain ⟨response, heq, -, -⟩ := setResponseError_frame world client 400
    rw [heq]
    exact ⟨rfl, rfl⟩
  redirect world client route entry _ _ := by
    have hfile := congrArg Request.file (setResponseError_request world
      (client.setRedirection entry.1 entry.2) entry.1)
    exact ⟨hfile, setResponseError_clientId ..⟩

end Kept

/-! The rule for the handlers of a buffer, with the process: a relation that is
closed under the calls that reach the outside world holds before and behind all
that is done with a body. -/

section Rule

variable {W : Type} [Os W]

def Process.removing (process : Process W) (client : Client)
    (deleted : W × List Str × Bool) : Process W :=
  ({ process with world := deleted.1 }).logRemoved client deleted.2.1

/-- A relation that is closed under what leaves the outside world, the record of
acts and the streams alone. -/
structure StateRule {W : Type}
    (relation : Process W × Client → Process W × Client → Prop) : Prop where
  refl (state : Process W × Client) : relation state state
  trans {first second third : Process W × Client} : relation first second →
    relation second third → relation first third
  beside {process process' : Process W} {client client' : Client} :
    process'.world = process.world → process'.effects = process.effects →
      process'.part.file = process.part.file →
        client'.request.file = client.request.file →
          client'.clientId = client.clientId →
            relation (process, client) (process', client')

/-- It is closed under what is done with the two streams, too. -/
structure StreamRule (W : Type) [Os W]
    (relation : Process W × Client → Process W × Client → Prop) : Prop
    extends StateRule relation where
  /-- The names that the uploads are stored under are free. -/
  openUpload {process : Process W} {fileName : Str} (client : Client) :
    Os.access process.world fileName .exists = false →
      relation (process, client) (openUpload process client fileName)
  putUpload (process : Process W) (client : Client) :
    relation (process, client) (putUpload process client)
  closeUpload (process : Process W) (client : Client) :
    relation (process, client)
      (process, client.setFile client.request.file.close)
  openPart (process : Process W) (client : Client) (filename : Str) :
    relation (process, client) (openPart process client filename, client)
  putPart (process : Process W) (client : Client) (bytes : Str) :
    relation (process, client) (putPart process client bytes, client)
  closePart (process : Process W) (client : Client) :
    relation (process, client) ({ process with
      part := { process.part with
        file := process.part.file.close
        fileCreated := false } }, client)

structure RemovalRule (W : Type) [Os W]
    (relation : Process W × Client → Process W × Client → Prop) : Prop
    extends StateRule relation where
  remove {process : Process W} {world : W} {path : Str} (client : Client) :
    Os.remove process.world path = some world →
      relation (process, client)
        (({ process with world := world }).logRemoved client [path], client)

structure ScriptRule (W : Type) [Os W]
    (relation : Process W × Client → Process W × Client → Prop) (sn : Str) :
    Prop extends StateRule relation where
  script (process : Process W) (client : Client) (body : Str) :
    relation (process, client) (cgiHandler process client body sn)

structure HandlerRule (W : Type) [Os W]
    (relation : Process W × Client → Process W × Client → Prop) : Prop where
  streams : StreamRule W relation
  removal : RemovalRule W relation
  scripts (sn : Str) : ScriptRule W relation sn

variable {relation : Process W × Client → Process W × Client → Prop}
  {process process' : Process W} {client client' : Client}

namespace StateRule

variable (rule : StateRule relation)

include rule

omit [Os W] in
theorem after {first second third : Process W × Client}
    (hsecond : relation second third) (hfirst : relation first second) :
    relation first third :=
  rule.trans hfirst hsecond

omit [Os W] in
theorem record (process : Process W)
    (hfile : client'.request.file = client.request.file)
    (hid : client'.clientId = client.clientId) :
    relation (process, client) (process, client') :=
  rule.beside rfl rfl rfl hfile hid

omit [Os W] in
theorem setAllRecv (process : Process W) (client : Client) :
    relation (process, client) (process, client.setAllRecv true) :=
  rule.record process rfl rfl

theorem error (process : Process W) (world : W) (client : Client)
    (status : Int) :
    relation (process, client)
      (process, setResponseError world client status) :=
  rule.record process (by simp) (by simp)

theorem getFileName (process : Process W) (world : W) (client : Client) :
    relation (process, client)
      (process, (getFileName world client).1) := by
  apply rule.record
  · rw [getFileName_request]
  · exact (getFileName_served process world client).1.clientId

theorem responseToGet (h : responseToGet process.world client = .ok client') :
    relation (process, client) (process, client') := by
  obtain ⟨hrequest, hid⟩ := (keepsRequest_rule W).responseToGet h
  exact rule.record process (congrArg Request.file hrequest) hid

end StateRule

/-! Bodies that are written to one file. -/

namespace StreamRule

variable (rule : StreamRule W relation)

include rule

theorem finishPost (process : Process W) (client : Client) :
    relation (process, client) (finishPost process client) := by
  unfold Webserv.finishPost
  split
  · exact rule.beside rfl rfl rfl rfl rfl
  · exact rule.refl _

theorem firstPost {fileName : Str} (client : Client)
    (hfree : Os.access process.world (cStr fileName) .exists = false) :
    relation (process, client) (firstPost process client fileName) := by
  have hopened := rule.openUpload client hfree
  unfold Webserv.firstPost
  generalize Webserv.openUpload process client (cStr fileName) = opened at *
  obtain ⟨process₁, client₁⟩ := opened
  simp only
  split
  · exact hopened
  have hput := rule.trans hopened (rule.putUpload process₁ client₁)
  generalize Webserv.putUpload process₁ client₁ = put at *
  obtain ⟨process₂, client₂⟩ := put
  simp only at *
  split
  · exact rule.trans hput (rule.closeUpload process₂ client₂)
  · have hcounted : relation (process₂, client₂)
        (countWritten process₂ client₂, client₂) :=
      rule.beside rfl rfl rfl rfl rfl
    exact rule.trans hput (rule.trans hcounted (rule.finishPost _ _))

theorem nextPost (process : Process W) (client : Client) :
    relation (process, client) (nextPost process client) := by
  have hput := rule.putUpload process client
  unfold Webserv.nextPost
  split
  · exact rule.error ..
  generalize Webserv.putUpload process client = put at *
  obtain ⟨process₁, client₁⟩ := put
  have hcounted : relation (process, client)
      (countWritten process₁ client₁, client₁) :=
    rule.trans hput (rule.beside rfl rfl rfl rfl rfl)
  simp only at *
  split
  · exact rule.trans hcounted (rule.closeUpload _ client₁)
  · exact rule.trans hcounted (rule.finishPost _ _)

theorem hanldePostRequest
    (h : hanldePostRequest process client = .ok (process', client')) :
    relation (process, client) (process', client') := by
  unfold Webserv.hanldePostRequest at h
  split at h
  · have hfound := rule.getFileName process process.world client
    generalize Webserv.getFileName process.world client = found at *
    obtain ⟨⟨fileName, index⟩, hname, hnext⟩ := bind_ok h
    obtain ⟨-, -, hfree⟩ := ftGenerateFileNames_ok hname
    simp only at hnext
    split at hnext
    · rw [← Except.ok.inj hnext]
      exact rule.trans hfound (rule.beside rfl rfl rfl rfl rfl)
    · rw [← Except.ok.inj hnext]
      have hnamed : relation (process, client) ({ process with
          index := index
          post := { process.post with first := 10 } }, found.1) :=
        rule.trans hfound (rule.beside rfl rfl rfl rfl rfl)
      exact rule.trans hnamed (rule.firstPost _ hfree)
  · rw [← Except.ok.inj h]
    exact rule.nextPost process client

theorem chunkedLoop {fuel : Nat}
    (h : chunkedLoop fuel process client = .ok (process', client')) :
    relation (process, client) (process', client') := by
  induction fuel generalizing process client with
  | zero => cases h
  | succ fuel ih =>
      rw [Webserv.chunkedLoop] at h
      split at h
      · rw [← Except.ok.inj h]
        exact rule.refl _
      · obtain ⟨line, -, h⟩ := bind_ok h
        obtain ⟨tmp, -, h⟩ := bind_ok h
        split at h
        · rw [← Except.ok.inj h]
          exact rule.refl _
        split at h
        · rw [← Except.ok.inj h]
          exact rule.beside rfl rfl rfl rfl rfl
        obtain ⟨request, -, h⟩ := bind_ok h
        obtain ⟨chunkData, -, h⟩ := bind_ok h
        obtain ⟨⟨written, client₁⟩, hpost, h⟩ := bind_ok h
        obtain ⟨rest, -, h⟩ := bind_ok h
        have hwritten : relation (process, client) (written, client₁) :=
          rule.after (rule.hanldePostRequest hpost)
            (rule.beside rfl rfl rfl rfl rfl)
        exact rule.trans hwritten
          (rule.after (ih h) (rule.beside rfl rfl rfl rfl rfl))

theorem chunked (h : chunked process client = .ok (process', client')) :
    relation (process, client) (process', client') :=
  rule.after (rule.chunkedLoop h) (rule.beside rfl rfl rfl rfl rfl)

/-! Bodies in parts. -/

theorem createPart (process : Process W) (client : Client) (head : PartHead)
    (content : Str) :
    relation (process, client) (createPart process client head content) := by
  cases head with
  | other => exact rule.refl _
  | unnamed => exact rule.error ..
  | unterminated => exact rule.error ..
  | named name =>
      have hfound := rule.getFileName process process.world client
      unfold Webserv.createPart
      generalize Webserv.getFileName process.world client = found at *
      obtain ⟨client₁, dirname⟩ := found
      simp only at *
      split
      · exact rule.trans hfound (rule.setAllRecv ..)
      have hopened := rule.trans hfound (rule.openPart process client₁
        (cStr (dirname ++ "/".toList ++ name)))
      generalize Webserv.openPart process client₁
        (cStr (dirname ++ "/".toList ++ name)) = opened at *
      split
      · exact rule.trans hopened (rule.error ..)
      have hcreated : relation (process, client) ({ opened with
          part := { opened.part with fileCreated := true } }, client₁) :=
        rule.trans hopened (rule.beside rfl rfl rfl rfl rfl)
      split
      · exact hcreated
      · exact rule.trans hcreated (rule.putPart ..)

theorem createFile {buffer : Str} {flag : Nat}
    (h : createFile process client buffer flag = .ok (process', client')) :
    relation (process, client) (process', client') := by
  unfold Webserv.createFile at h
  split at h
  · rw [← Except.ok.inj h]
    exact rule.closePart ..
  split at h
  · split at h
    · rw [← Except.ok.inj h]
      exact rule.putPart ..
    · rw [← Except.ok.inj h]
      exact rule.refl _
  · obtain ⟨head, -, h⟩ := bind_ok h
    rw [← Except.ok.inj h]
    exact rule.createPart ..

theorem takeBuffer
    (h : takeBuffer process client = .ok (process', client')) :
    relation (process, client) (process', client') := by
  unfold Webserv.takeBuffer at h
  split at h
  · obtain ⟨⟨created, client₁⟩, hcreate, h⟩ := bind_ok h
    rw [← Except.ok.inj h]
    exact rule.trans (rule.createFile hcreate)
      (rule.beside rfl rfl rfl rfl rfl)
  · obtain ⟨⟨created, client₁⟩, hcreate, h⟩ := bind_ok h
    rw [← Except.ok.inj h]
    exact rule.trans (rule.createFile hcreate)
      (rule.beside rfl rfl rfl rfl rfl)

theorem closeProcessed
    (h : closeProcessed process client = .ok (process', client')) :
    relation (process, client) (process', client') := by
  unfold Webserv.closeProcessed at h
  split at h
  · obtain ⟨⟨created, client₁⟩, hcreate, h⟩ := bind_ok h
    rw [← Except.ok.inj h]
    exact rule.trans (rule.createFile hcreate)
      (rule.beside rfl rfl rfl rfl rfl)
  · rw [← Except.ok.inj h]
    exact rule.refl _

theorem takeChunk {pos : Nat}
    (h : takeChunk process client pos = .ok (process', client')) :
    relation (process, client) (process', client') := by
  unfold Webserv.takeChunk at h
  obtain ⟨data, -, h⟩ := bind_ok h
  obtain ⟨dataChunk, -, h⟩ := bind_ok h
  obtain ⟨⟨created, client₁⟩, hcreate, h⟩ := bind_ok h
  obtain ⟨⟨closed, client₂⟩, hclose, h⟩ := bind_ok h
  rw [← Except.ok.inj h]
  exact rule.trans (rule.createFile hcreate)
    (rule.trans (rule.createFile hclose) (rule.beside rfl rfl rfl rfl rfl))

theorem boundaryLoop {fuel : Nat}
    (h : boundaryLoop fuel process client = .ok (process', client')) :
    relation (process, client) (process', client') := by
  induction fuel generalizing process client with
  | zero => cases h
  | succ fuel ih =>
      rw [Webserv.boundaryLoop] at h
      simp only at h
      generalize checkIfHaveNewBoundary process.part.buffer
        process.part.boundaryStr 0 = found at h
      have hclosing : relation (process, client) (process,
          if found.2 then client.setAllRecv true else client) := by
        split
        · exact rule.setAllRecv ..
        · exact rule.refl _
      generalize (if found.2 then client.setAllRecv true else client) = client₀
        at h hclosing
      refine rule.trans hclosing ?_
      split at h
      · exact rule.takeBuffer h
      split at h
      · obtain ⟨⟨closed, client₁⟩, hclose, h⟩ := bind_ok h
        obtain ⟨rest, -, h⟩ := bind_ok h
        exact rule.trans (rule.closeProcessed hclose)
          (rule.after (ih h) (rule.beside rfl rfl rfl rfl rfl))
      · obtain ⟨⟨taken, client₁⟩, htake, h⟩ := bind_ok h
        obtain ⟨rest, -, h⟩ := bind_ok h
        exact rule.trans (rule.takeChunk htake)
          (rule.after (ih h) (rule.beside rfl rfl rfl rfl rfl))

theorem boundaryEnd
    (h : boundaryEnd process client = .ok (process', client')) :
    relation (process, client) (process', client') := by
  unfold Webserv.boundaryEnd at h
  split at h
  · obtain ⟨⟨closed, client₁⟩, hclose, h⟩ := bind_ok h
    rw [← Except.ok.inj h]
    exact rule.trans (rule.closeProcessed hclose)
      (rule.beside rfl rfl rfl rfl rfl)
  · rw [← Except.ok.inj h]
    exact rule.refl _

omit rule [Os W] in
theorem startBoundary_beside {started : Option (Process W)}
    (h : startBoundary process = .ok started) :
    ∀ process' ∈ started, process'.world = process.world ∧
      process'.effects = process.effects ∧
      process'.part.file = process.part.file := by
  unfold startBoundary boundaryLine at h
  split at h
  · simp only at h
    split at h
    · obtain rfl := Except.ok.inj h
      simp
    · obtain ⟨firstLine, -, h⟩ := bind_ok h
      split at h
      · obtain ⟨rest, -, h⟩ := bind_ok h
        obtain rfl := Except.ok.inj h
        simp
      · obtain rfl := Except.ok.inj h
        simp
  · obtain rfl := Except.ok.inj h
    simp

theorem boundary
    (h : boundary process client = .ok (process', client')) :
    relation (process, client) (process', client') := by
  unfold Webserv.boundary at h
  obtain ⟨started, hstart, h⟩ := bind_ok h
  have hbeside := startBoundary_beside hstart
  split at h
  · rw [← Except.ok.inj h]
    exact rule.beside rfl rfl rfl rfl rfl
  · rename_i started
    obtain ⟨hworld, heffects, hfile⟩ := hbeside started rfl
    have hstarted : relation (process, client) (started.countCall, client) :=
      rule.beside hworld heffects hfile rfl rfl
    obtain ⟨⟨looped, client₁⟩, hloop, h⟩ := bind_ok h
    exact rule.trans hstarted
      (rule.trans (rule.boundaryLoop hloop) (rule.boundaryEnd h))

theorem takeBody (h : takeBody process client = .ok (process', client')) :
    relation (process, client) (process', client') := by
  unfold Webserv.takeBody at h
  simp only at h
  split at h
  · exact rule.boundary h
  split at h
  · exact rule.chunked h
  · exact rule.hanldePostRequest h

theorem postRequest
    (h : postRequest process client = .ok (process', client')) :
    relation (process, client) (process', client') := by
  have hchecked : relation (process, client)
      (process, (checkUri process.world client).1) := by
    unfold checkUri
    split
    · exact rule.error ..
    · split
      · exact rule.error ..
      · exact rule.refl _
  unfold Webserv.postRequest at h
  simp only at h
  split at h
  · rw [← Except.ok.inj h]
    exact hchecked
  · obtain ⟨⟨taken, client₁⟩, htaken, h⟩ := bind_ok h
    rw [← Except.ok.inj h]
    refine rule.trans hchecked (rule.trans (rule.takeBody htaken) ?_)
    unfold answerCreated
    split
    · exact rule.error ..
    · exact rule.refl _

end StreamRule

/-! Removals. -/

namespace RemovalRule

variable (rule : RemovalRule W relation)

include rule

omit rule [Os W] in
theorem removing_removing (process : Process W) (client : Client)
    (deleted : W × List Str × Bool) (world : W) (more : List Str)
    (ok : Bool) :
    (process.removing client deleted).removing client (world, more, ok) =
      process.removing client (world, deleted.2.1 ++ more, ok) := by
  simp [Process.removing, Process.logRemoved]

omit rule [Os W] in
theorem removing_nil (process : Process W) (client : Client) (ok : Bool) :
    process.removing client (process.world, [], ok) = process := by
  simp [Process.removing, Process.logRemoved]

theorem deleteEntries {delete : W → Str → W × List Str × Bool}
    (hdelete : ∀ (process : Process W) path, relation (process, client)
      (process.removing client (delete process.world path), client))
    (path : Str) (names : List Str) (process : Process W) :
    relation (process, client) (process.removing client
      (deleteEntries delete path names process.world), client) := by
  induction names generalizing process with
  | nil =>
      rw [Webserv.deleteEntries, removing_nil]
      exact rule.refl _
  | cons name rest ih =>
      rw [Webserv.deleteEntries]
      split
      · exact ih process
      have hentry := hdelete process (path ++ "/".toList ++ name)
      generalize delete process.world (path ++ "/".toList ++ name) = deleted
        at *
      simp only
      split
      · exact hentry
      · have hrest := ih (process.removing client deleted)
        change relation _ ((process.removing client deleted).removing client
          (Webserv.deleteEntries delete path rest deleted.1), client) at hrest
        generalize Webserv.deleteEntries delete path rest deleted.1 = others
          at *
        obtain ⟨world, more, ok⟩ := others
        rw [removing_removing] at hrest
        exact rule.trans hentry hrest

theorem handleDeleteRequest (fuel : Nat) (process : Process W)
    (client : Client) (path : Str) :
    relation (process, client) (process.removing client
      (handleDeleteRequest fuel process.world path), client) := by
  induction fuel generalizing process path with
  | zero =>
      rw [Webserv.handleDeleteRequest, removing_nil]
      exact rule.refl _
  | succ fuel ih =>
      have hnone (ok : Bool) : relation (process, client)
          (process.removing client (process.world, [], ok), client) := by
        rw [removing_nil]
        exact rule.refl _
      rw [Webserv.handleDeleteRequest]
      split
      · exact hnone false
      split
      · exact hnone false
      split
      · split
        · exact hnone false
        rename_i names _
        have hentries : relation (process, client) (process.removing client
            (Webserv.deleteEntries (Webserv.handleDeleteRequest fuel) path
              names process.world), client) :=
          rule.deleteEntries ih path names process
        generalize Webserv.deleteEntries (Webserv.handleDeleteRequest fuel)
          path names process.world = deleted at *
        simp only
        split
        · exact hentries
        split
        · exact hentries
        · rename_i hremoved
          have hlast : relation (process.removing client deleted, client)
              ((process.removing client deleted).removing client
                (_, [path], true), client) :=
            rule.remove client hremoved
          rw [removing_removing] at hlast
          exact rule.trans hentries hlast
      · split
        · exact hnone false
        · rename_i hremoved
          exact rule.remove client hremoved

theorem deleteRequest (process : Process W) (client : Client) :
    relation (process, client) (deleteRequest process client) := by
  have hremoved := rule.handleDeleteRequest (pathMax + 1) process
    (client.setAllRecv true) client.request.path
  exact rule.trans (rule.setAllRecv process client)
    (rule.trans hremoved (rule.error ..))

end RemovalRule

/-! Scripts. -/

namespace ScriptRule

variable {sn : Str} (rule : ScriptRule W relation sn)

include rule

omit rule [Os W] in
theorem setBody_beside (process : Process W) (slot : BodySlot) (body : Str) :
    (process.setBody slot body).world = process.world ∧
      (process.setBody slot body).part.file = process.part.file := by
  cases slot with
  | location => exact ⟨rfl, rfl⟩
  | server => exact ⟨rfl, rfl⟩

theorem setBody (process : Process W) (client : Client) (slot : BodySlot)
    (body : Str) :
    relation (process, client) (process.setBody slot body, client) :=
  rule.beside (setBody_beside process slot body).1
    (Process.setBody_effects ..) (setBody_beside process slot body).2 rfl rfl

theorem chunkedForCgiLoop {fuel : Nat} {tmp : Str}
    (h : chunkedForCgiLoop fuel process client =
      .ok (process', client', tmp)) :
    relation (process, client) (process', client') := by
  induction fuel generalizing process client with
  | zero => cases h
  | succ fuel ih =>
      rw [Webserv.chunkedForCgiLoop] at h
      split at h
      · obtain ⟨rfl, hrest⟩ := Prod.mk.inj (Except.ok.inj h)
        obtain ⟨rfl, -⟩ := Prod.mk.inj hrest
        exact rule.refl _
      · obtain ⟨line, -, h⟩ := bind_ok h
        simp only at h
        split at h
        · obtain ⟨rfl, hrest⟩ := Prod.mk.inj (Except.ok.inj h)
          obtain ⟨rfl, -⟩ := Prod.mk.inj hrest
          exact rule.beside rfl rfl rfl rfl rfl
        obtain ⟨data, -, h⟩ := bind_ok h
        split at h
        · obtain ⟨rfl, hrest⟩ := Prod.mk.inj (Except.ok.inj h)
          obtain ⟨rfl, -⟩ := Prod.mk.inj hrest
          exact rule.refl _
        obtain ⟨request, -, h⟩ := bind_ok h
        obtain ⟨data, -, h⟩ := bind_ok h
        obtain ⟨rest, -, h⟩ := bind_ok h
        exact rule.after (ih h) (rule.beside rfl rfl rfl rfl rfl)

theorem runOnBody (slot : BodySlot) (process : Process W) (client : Client) :
    relation (process, client) (runOnBody slot process client sn) :=
  rule.trans (rule.script process client (process.getBody slot))
    (rule.setBody ..)

theorem cgiPost {slot : BodySlot}
    (h : cgiPost slot process client sn = .ok (process', client')) :
    relation (process, client) (process', client') := by
  have hran (stored : Process W) (asked : Client) {ran : Process W × Client}
      (hrun : Webserv.runOnBody slot stored asked sn = ran) :
      relation (stored, asked) ran := by
    rw [← hrun]
    exact rule.runOnBody ..
  rcases cgiPost_cases h with ⟨taken, client₁, tmp, htaken, hnext⟩ | hnext
  · have htake : relation (process, client) (taken, client₁) :=
      rule.after (rule.chunkedForCgiLoop htaken)
        (rule.beside rfl rfl rfl rfl rfl)
    have hstored := rule.trans htake (rule.setBody taken client₁ slot
      (taken.getBody slot ++ tmp))
    rcases hnext with ⟨-, hrun⟩ | ⟨-, rfl, rfl⟩
    · exact rule.trans hstored (hran _ _ hrun)
    · exact hstored
  · have hstored := rule.setBody process client slot
      (process.getBody slot ++ client.request.sRequest)
    rcases hnext with ⟨ran, answered, hrun, rfl, rfl⟩ | ⟨rfl, rfl⟩
    · exact rule.trans hstored
        (rule.trans (hran _ _ hrun) (rule.setAllRecv ..))
    · exact hstored

theorem markAlive (process : Process W) (client : Client) :
    relation (process, client) (process, markAlive client) := by
  unfold Webserv.markAlive
  split
  · exact rule.record process rfl rfl
  · exact rule.refl _

theorem cgiExtensions {ex : Str} {extensions : List Str} {bol bol' : Bool}
    (h : cgiExtensions ex sn extensions process client bol =
      .ok (process', client', bol')) :
    relation (process, client) (process', client') := by
  induction extensions generalizing process client bol with
  | nil =>
      obtain ⟨rfl, hrest⟩ := Prod.mk.inj (Except.ok.inj h)
      obtain ⟨rfl, -⟩ := Prod.mk.inj hrest
      exact rule.refl _
  | cons extension rest ih =>
      rw [Webserv.cgiExtensions] at h
      split at h
      · split at h
        · obtain ⟨⟨posted, client₁⟩, hpost, h⟩ := bind_ok h
          exact rule.trans (rule.cgiPost hpost)
            (rule.trans (rule.markAlive ..) (ih h))
        split at h
        · exact rule.trans (rule.setAllRecv ..)
            (rule.trans (rule.script ..)
              (rule.trans (rule.markAlive ..) (ih h)))
        · obtain ⟨rfl, hrest⟩ := Prod.mk.inj (Except.ok.inj h)
          obtain ⟨rfl, -⟩ := Prod.mk.inj hrest
          exact rule.error ..
      · exact ih h

theorem checkIfHaveCgi {bol : Bool} (hpath : client.request.path = sn)
    (h : checkIfHaveCgi process client = .ok (process', client', bol)) :
    relation (process, client) (process', client') := by
  unfold Webserv.checkIfHaveCgi at h
  rw [hpath] at h
  simp only at h
  split at h
  · obtain ⟨rfl, hrest⟩ := Prod.mk.inj (Except.ok.inj h)
    obtain ⟨rfl, -⟩ := Prod.mk.inj hrest
    exact rule.refl _
  split at h
  · exact rule.cgiExtensions h
  unfold cgiServer at h
  split at h
  · obtain ⟨⟨posted, client₁⟩, hpost, h⟩ := bind_ok h
    obtain ⟨rfl, hrest⟩ := Prod.mk.inj (Except.ok.inj h)
    obtain ⟨rfl, -⟩ := Prod.mk.inj hrest
    exact rule.trans (rule.cgiPost hpost) (rule.markAlive ..)
  split at h
  · obtain ⟨rfl, hrest⟩ := Prod.mk.inj (Except.ok.inj h)
    obtain ⟨rfl, -⟩ := Prod.mk.inj hrest
    exact rule.trans (rule.script ..)
      (rule.trans (rule.setAllRecv ..) (rule.markAlive ..))
  · obtain ⟨rfl, hrest⟩ := Prod.mk.inj (Except.ok.inj h)
    obtain ⟨rfl, -⟩ := Prod.mk.inj hrest
    exact rule.error ..

end ScriptRule

/-! The dispatch. -/

namespace HandlerRule

variable (rule : HandlerRule W relation)

include rule

theorem dispatchRequest
    (h : dispatchRequest process client = .ok (process', client')) :
    relation (process, client) (process', client') := by
  unfold Webserv.dispatchRequest at h
  split at h
  · rw [← Except.ok.inj h]
    exact rule.removal.setAllRecv ..
  obtain ⟨⟨handled, client₁, isCgi⟩, hcgi, h⟩ := bind_ok h
  have hhandled := (rule.scripts client.request.path).checkIfHaveCgi rfl hcgi
  simp only at h
  split at h
  · rw [← Except.ok.inj h]
    exact hhandled
  split at h
  · rw [← Except.ok.inj h]
    exact rule.removal.trans hhandled (rule.removal.setAllRecv ..)
  refine rule.removal.trans hhandled ?_
  unfold dispatchMethod at h
  split at h
  · obtain ⟨answered, hget, h⟩ := bind_ok h
    rw [← Except.ok.inj h]
    exact rule.removal.trans (rule.removal.responseToGet hget) (rule.removal.setAllRecv ..)
  split at h
  · exact rule.streams.postRequest h
  split at h
  · rw [← Except.ok.inj h]
    exact rule.removal.deleteRequest ..
  · rw [← Except.ok.inj h]
    exact rule.removal.refl _

theorem receive {bytes : Str}
    (h : receive process client bytes = .ok (process', client')) :
    relation (process, client) (process', client') := by
  rcases receive_cases h with ⟨-, rfl, rfl⟩ | ⟨-, parsed, hparsed, h⟩
  · exact rule.removal.refl _
  refine rule.removal.trans ?_ (rule.dispatchRequest h)
  rcases parseOnce_cases hparsed with ⟨-, hparse⟩ | ⟨-, rfl⟩
  · obtain ⟨hfile, hid⟩ := (keepsStream_rule W).parseRequest hparse
    exact rule.removal.record process hfile hid
  · exact rule.removal.record process rfl rfl

end HandlerRule

end Rule

end Webserv
