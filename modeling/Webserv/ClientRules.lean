import Webserv.Served

namespace Webserv

open Cxx

/-! Rules for what the code does to the record of a connection: a relation
that is closed under the few changes holds of the whole. -/

section Rule

variable {W : Type} [Os W]

/-- A relation between records that is closed under what a body handler does. -/
structure BodyRule (W : Type) [Os W] (relation : Client → Client → Prop) :
    Prop where
  refl (client : Client) : relation client client
  trans {first second third : Client} : relation first second →
    relation second third → relation first third
  setFile (client : Client) (file : OFStream) :
    relation client (client.setFile file)
  setSRequest (client : Client) (bytes : Str) :
    relation client (client.setSRequest bytes)
  setAllRecv (client : Client) : relation client (client.setAllRecv true)
  error (world : W) (client : Client) (status : Int) :
    relation client (setResponseError world client status)

namespace BodyRule

variable {relation : Client → Client → Prop} (rule : BodyRule W relation)
  {process process' : Process W} {client client' : Client}

include rule

theorem getFileName (world : W) (client : Client) :
    relation client (getFileName world client).1 := by
  unfold Webserv.getFileName
  simp only
  split
  · exact rule.error ..
  split
  · exact rule.error ..
  split
  · exact rule.error ..
  · exact rule.refl client

theorem putUpload (process : Process W) (client : Client) :
    relation client (putUpload process client).2 :=
  rule.setFile ..

theorem openUpload (process : Process W) (client : Client)
    (fileName : Str) :
    relation client (openUpload process client fileName).2 :=
  rule.setFile ..

theorem finishPost (process : Process W) (client : Client) :
    relation client (finishPost process client).2 := by
  unfold Webserv.finishPost
  split
  · exact rule.setAllRecv client
  · exact rule.refl client

theorem firstPost (process : Process W) (client : Client) (fileName : Str) :
    relation client (firstPost process client fileName).2 := by
  have hopened := rule.openUpload process client (cStr fileName)
  unfold Webserv.firstPost
  simp only
  split
  · exact hopened
  have hput := rule.trans hopened (rule.putUpload
    (Webserv.openUpload process client (cStr fileName)).1 _)
  split
  · exact rule.trans hput (rule.setFile ..)
  · exact rule.trans hput (rule.finishPost ..)

theorem nextPost (process : Process W) (client : Client) :
    relation client (nextPost process client).2 := by
  have hput := rule.putUpload process client
  unfold Webserv.nextPost
  simp only
  split
  · exact rule.error ..
  split
  · exact rule.trans hput (rule.setFile ..)
  · exact rule.trans hput (rule.finishPost ..)

theorem hanldePostRequest
    (h : hanldePostRequest process client = .ok (process', client')) :
    relation client client' := by
  unfold Webserv.hanldePostRequest at h
  split at h
  · have hfound := rule.getFileName process.world client
    generalize Webserv.getFileName process.world client = found at *
    obtain ⟨⟨fileName, index⟩, -, hnext⟩ := bind_ok h
    simp only at hnext
    split at hnext
    · obtain ⟨-, rfl⟩ := Prod.mk.inj (Except.ok.inj hnext)
      exact rule.trans hfound (rule.setAllRecv _)
    · have hclient : _ = client' := congrArg Prod.snd (Except.ok.inj hnext)
      rw [← hclient]
      exact rule.trans hfound (rule.firstPost ..)
  · have hclient : _ = client' := congrArg Prod.snd (Except.ok.inj h)
    rw [← hclient]
    exact rule.nextPost process client

theorem chunkedLoop {fuel : Nat}
    (h : chunkedLoop fuel process client = .ok (process', client')) :
    relation client client' := by
  induction fuel generalizing process client with
  | zero => cases h
  | succ fuel ih =>
      rw [Webserv.chunkedLoop] at h
      split at h
      · obtain ⟨-, rfl⟩ := Prod.mk.inj (Except.ok.inj h)
        exact rule.refl client
      · obtain ⟨line, -, h⟩ := bind_ok h
        obtain ⟨tmp, -, h⟩ := bind_ok h
        split at h
        · obtain ⟨-, rfl⟩ := Prod.mk.inj (Except.ok.inj h)
          exact rule.refl client
        split at h
        · obtain ⟨-, rfl⟩ := Prod.mk.inj (Except.ok.inj h)
          exact rule.setAllRecv client
        obtain ⟨request, -, h⟩ := bind_ok h
        obtain ⟨chunkData, -, h⟩ := bind_ok h
        obtain ⟨⟨written, client₁⟩, hpost, h⟩ := bind_ok h
        obtain ⟨rest, -, h⟩ := bind_ok h
        have hwritten := rule.trans (rule.setSRequest client chunkData)
          (rule.hanldePostRequest hpost)
        exact rule.trans hwritten (ih h)

theorem createPart (process : Process W) (client : Client)
    (head : PartHead) (content : Str) :
    relation client (createPart process client head content).2 := by
  cases head with
  | other => exact rule.refl client
  | unnamed => exact rule.error ..
  | unterminated => exact rule.error ..
  | named name =>
      have hfound := rule.getFileName process.world client
      unfold Webserv.createPart
      generalize Webserv.getFileName process.world client = found at *
      obtain ⟨client₁, dirname⟩ := found
      simp only at *
      split
      · exact rule.trans hfound (rule.setAllRecv _)
      split
      · exact rule.trans hfound (rule.error ..)
      split
      · exact hfound
      · exact hfound

theorem createFile {buffer : Str} {flag : Nat}
    (h : createFile process client buffer flag = .ok (process', client')) :
    relation client client' := by
  unfold Webserv.createFile at h
  split at h
  · obtain ⟨-, rfl⟩ := Prod.mk.inj (Except.ok.inj h)
    exact rule.refl client
  split at h
  · split at h
    · obtain ⟨-, rfl⟩ := Prod.mk.inj (Except.ok.inj h)
      exact rule.refl client
    · obtain ⟨-, rfl⟩ := Prod.mk.inj (Except.ok.inj h)
      exact rule.refl client
  · obtain ⟨head, -, h⟩ := bind_ok h
    have hclient : _ = client' := congrArg Prod.snd (Except.ok.inj h)
    rw [← hclient]
    exact rule.createPart ..

theorem takeBuffer
    (h : takeBuffer process client = .ok (process', client')) :
    relation client client' := by
  unfold Webserv.takeBuffer at h
  split at h
  · obtain ⟨⟨created, client₁⟩, hcreate, h⟩ := bind_ok h
    obtain ⟨-, rfl⟩ := Prod.mk.inj (Except.ok.inj h)
    exact rule.createFile hcreate
  · obtain ⟨⟨created, client₁⟩, hcreate, h⟩ := bind_ok h
    obtain ⟨-, rfl⟩ := Prod.mk.inj (Except.ok.inj h)
    exact rule.createFile hcreate

theorem closeProcessed
    (h : closeProcessed process client = .ok (process', client')) :
    relation client client' := by
  unfold Webserv.closeProcessed at h
  split at h
  · obtain ⟨⟨created, client₁⟩, hcreate, h⟩ := bind_ok h
    obtain ⟨-, rfl⟩ := Prod.mk.inj (Except.ok.inj h)
    exact rule.createFile hcreate
  · obtain ⟨-, rfl⟩ := Prod.mk.inj (Except.ok.inj h)
    exact rule.refl client

theorem takeChunk {pos : Nat}
    (h : takeChunk process client pos = .ok (process', client')) :
    relation client client' := by
  unfold Webserv.takeChunk at h
  obtain ⟨data, -, h⟩ := bind_ok h
  obtain ⟨dataChunk, -, h⟩ := bind_ok h
  obtain ⟨⟨created, client₁⟩, hcreate, h⟩ := bind_ok h
  obtain ⟨⟨closed, client₂⟩, hclose, h⟩ := bind_ok h
  obtain ⟨-, rfl⟩ := Prod.mk.inj (Except.ok.inj h)
  exact rule.trans (rule.createFile hcreate) (rule.createFile hclose)

theorem boundaryLoop {fuel : Nat}
    (h : boundaryLoop fuel process client = .ok (process', client')) :
    relation client client' := by
  induction fuel generalizing process client with
  | zero => cases h
  | succ fuel ih =>
      rw [Webserv.boundaryLoop] at h
      simp only at h
      generalize checkIfHaveNewBoundary process.part.buffer
        process.part.boundaryStr 0 = found at h
      have hclosing : relation client
          (if found.2 then client.setAllRecv true else client) := by
        split
        · exact rule.setAllRecv client
        · exact rule.refl client
      refine rule.trans hclosing ?_
      split at h
      · exact rule.takeBuffer h
      split at h
      · obtain ⟨⟨closed, client₁⟩, hclose, h⟩ := bind_ok h
        obtain ⟨rest, -, h⟩ := bind_ok h
        exact rule.trans (rule.closeProcessed hclose) (ih h)
      · obtain ⟨⟨taken, client₁⟩, htake, h⟩ := bind_ok h
        obtain ⟨rest, -, h⟩ := bind_ok h
        exact rule.trans (rule.takeChunk htake) (ih h)

theorem boundaryEnd
    (h : boundaryEnd process client = .ok (process', client')) :
    relation client client' := by
  unfold Webserv.boundaryEnd at h
  split at h
  · obtain ⟨⟨closed, client₁⟩, hclose, h⟩ := bind_ok h
    obtain ⟨-, rfl⟩ := Prod.mk.inj (Except.ok.inj h)
    exact rule.closeProcessed hclose
  · obtain ⟨-, rfl⟩ := Prod.mk.inj (Except.ok.inj h)
    exact rule.refl client

theorem boundary
    (h : boundary process client = .ok (process', client')) :
    relation client client' := by
  unfold Webserv.boundary at h
  obtain ⟨started, -, h⟩ := bind_ok h
  split at h
  · obtain ⟨-, rfl⟩ := Prod.mk.inj (Except.ok.inj h)
    exact rule.refl client
  · obtain ⟨⟨looped, client₁⟩, hloop, hend⟩ := bind_ok h
    exact rule.trans (rule.boundaryLoop hloop) (rule.boundaryEnd hend)

theorem takeBody
    (h : takeBody process client = .ok (process', client')) :
    relation client client' := by
  unfold Webserv.takeBody at h
  simp only at h
  split at h
  · exact rule.boundary h
  split at h
  · exact rule.chunkedLoop h
  · exact rule.hanldePostRequest h

end BodyRule

end Rule

/-! The same for the parsing of a head. -/

section Parse

variable {W : Type} [Os W]

/-- A relation between records that is closed under what `parse_request`
does. -/
structure ParseRule (W : Type) [Os W] (relation : Client → Client → Prop) :
    Prop where
  refl (client : Client) : relation client client
  trans {first second third : Client} : relation first second →
    relation second third → relation first third
  start (client : Client) (bytes : Str) : relation client
    (((client.setIndex true).setAlive false).setSRequest bytes)
  setLine (client : Client) (method path version : Str) :
    relation client (client.setLine method path version)
  setPath (client : Client) (path : Str) :
    relation client (client.setPath path)
  addHeader (client : Client) (key value : Str) :
    relation client (addHeader client key value)
  setBlock (client : Client) (url : Option Nat) : relation client
    (client.setBlock (client.serverClientObj.setLocationUrl url))
  setContentLength (client : Client) (size : Nat) :
    relation client (client.setContentLength size)
  error (world : W) (client : Client) (status : Int) :
    relation client (setResponseError world client status)
  refuse (world : W) (client : Client) : relation client
    ((setResponseError world client 400).setResponseIndex true)
  clear (world : W) (client : Client) : relation client
    ((setResponseError world client 400).clearHeaders.setResponseIndex true)
  redirect (world : W) (client : Client) (route : RouteBlock)
    (entry : Int × Str) : route ∈ client.serverClientObj.routes →
      entry ∈ route.redirections → relation client
        (setResponseError world (client.setRedirection entry.1 entry.2)
          entry.1)

namespace ParseRule

variable {relation : Client → Client → Prop} (rule : ParseRule W relation)
  {world : W} {client client' : Client}

include rule

theorem answerRedirections (world : W) {redirections : List (Int × Str)}
    {client : Client} {route : RouteBlock}
    (hroute : route ∈ client.serverClientObj.routes)
    (h : ∀ entry ∈ redirections, entry ∈ route.redirections) :
    relation client (answerRedirections world redirections client) := by
  induction redirections generalizing client with
  | nil => exact rule.refl client
  | cons entry rest ih =>
      obtain ⟨code, url⟩ := entry
      rw [Webserv.answerRedirections]
      refine rule.trans (rule.redirect world client route (code, url) hroute
        (h _ List.mem_cons_self)) (ih ?_ fun other hother =>
          h other (List.mem_cons_of_mem _ hother))
      rw [setResponseError_serverClientObj]
      exact hroute

theorem checkIfHaveRedirection (world : W) (client : Client) :
    relation client (checkIfHaveRedirection world client) := by
  unfold Webserv.checkIfHaveRedirection
  split
  · rename_i route hselected
    refine rule.answerRedirections world ?_ fun entry hentry => hentry
    obtain ⟨i, -, hroute⟩ := Option.bind_eq_some_iff.mp hselected
    exact List.mem_of_getElem? hroute
  · exact rule.refl client

theorem parseContentLength (world : W) (client : Client) (tmp : Str) :
    relation client (parseContentLength world client tmp) := by
  unfold Webserv.parseContentLength
  simp only
  split
  · exact rule.trans (rule.setContentLength client _) (rule.error ..)
  split
  · exact rule.trans (rule.setContentLength client _) (rule.error ..)
  · exact rule.trans (rule.setContentLength client _)
      (rule.checkIfHaveRedirection ..)

theorem parseTarget {requestPath method : Str}
    (h : parseTarget world client requestPath method = .ok client') :
    relation client client' := by
  unfold Webserv.parseTarget at h
  obtain ⟨⟨block, located⟩, hlocated, h⟩ := bind_ok h
  simp only [setPath_diskPath_eq] at h
  have hblock : relation client (client.setBlock block) := by
    rcases ServerBlock.isLocationPath_ok hlocated with
      ⟨rfl, -⟩ | ⟨i, route, -, rfl, -⟩
    · exact rule.setBlock client client.serverClientObj.isLocationUrl
    · exact rule.setBlock client _
  have hpath := rule.trans hblock (rule.setPath (client.setBlock block)
    (if diskPath block requestPath located = [] then
      (client.setBlock block).request.path
    else diskPath block requestPath located))
  split at h
  · rw [← Except.ok.inj h]
    exact rule.trans hpath (rule.error ..)
  split at h
  · rw [← Except.ok.inj h]
    exact rule.trans hpath (rule.parseContentLength ..)
  · rw [← Except.ok.inj h]
    exact rule.trans hpath (rule.checkIfHaveRedirection ..)

theorem fillHeadersLoop {lines : List Str} {value : Str} {filled : Bool}
    (h : fillHeadersLoop world lines value client = .ok (client', filled)) :
    relation client
      (if filled then client' else client'.setResponseIndex true) := by
  induction lines generalizing value client with
  | nil =>
      rw [Webserv.fillHeadersLoop] at h
      split at h
      · obtain ⟨rfl, rfl⟩ := Prod.mk.inj (Except.ok.inj h)
        exact rule.clear world client
      · obtain ⟨rfl, rfl⟩ := Prod.mk.inj (Except.ok.inj h)
        exact rule.refl client
  | cons line rest ih =>
      rw [Webserv.fillHeadersLoop] at h
      split at h
      · exact ih h
      · obtain ⟨⟨key, value⟩, -, h⟩ := bind_ok h
        simp only at h
        split at h
        · obtain ⟨rfl, rfl⟩ := Prod.mk.inj (Except.ok.inj h)
          exact rule.clear world client
        split at h
        · obtain ⟨rfl, rfl⟩ := Prod.mk.inj (Except.ok.inj h)
          exact rule.clear world client
        · exact rule.trans (rule.addHeader client key _) (ih h)

theorem parseFields {lines : List Str} {method path version : Str}
    (h : parseFields world client lines method path version =
      .ok client') : relation client client' := by
  unfold Webserv.parseFields at h
  split at h
  · split at h <;>
      (rw [← Except.ok.inj h]
       exact rule.error ..)
  split at h
  · split at h <;>
      (rw [← Except.ok.inj h]
       exact rule.error ..)
  split at h
  · rw [← Except.ok.inj h]
    exact rule.error ..
  obtain ⟨⟨client₁, resolved⟩, hresolved, hnext⟩ := bind_ok h
  rcases outRootDir_ok hresolved with
    ⟨rfl, rfl⟩ | ⟨parts, hplain, rfl, rfl⟩
  · rw [← Except.ok.inj hnext]
    exact rule.refuse world client
  · simp only at hnext
    obtain ⟨⟨client₂, filled⟩, hfilled, hlast⟩ := bind_ok hnext
    have hheaders := rule.trans (rule.setPath client₁ _)
      (rule.fillHeadersLoop hfilled)
    simp only at hlast
    split at hlast
    · rename_i hfalse
      rw [← Except.ok.inj hlast]
      rw [hfalse] at hheaders
      exact hheaders
    · rename_i htrue
      rw [if_pos (by simpa using htrue)] at hheaders
      exact rule.trans hheaders (rule.parseTarget hlast)

theorem parseRequestLine {lines : List Str}
    (h : parseRequestLine world client lines = .ok client') :
    relation client client' := by
  unfold Webserv.parseRequestLine at h
  simp only at h
  split at h
  · rw [← Except.ok.inj h]
    exact rule.error ..
  split at h
  · rw [← Except.ok.inj h]
    exact rule.error ..
  · exact rule.trans (rule.setLine client _ _ _) (rule.parseFields h)

theorem parseRequest
    (h : parseRequest world client = .ok client') :
    relation client client' := by
  rcases parseRequest_cases h with rfl | ⟨newRequest, lines, hline⟩
  · exact rule.trans (rule.start client client.request.sRequest)
      (rule.error world _ 400)
  · exact rule.trans (rule.start client newRequest)
      (rule.parseRequestLine hline)

end ParseRule

end Parse

end Webserv
