import Webserv.CheckRequest
import Webserv.Lexical

namespace Webserv

open Cxx

/-! What a handler may change and do on behalf of a connection. -/

/-- A file name put behind the upload directory, as a C string. -/
def uploadPath (client : Client) (name : Str) : Str :=
  cStr (uploadDirectory client.serverClientObj ++ '/' :: name)

/-- The acts the handlers perform for a client: they open files under the
upload directory, and remove what lies at or below the path of a `DELETE`. -/
def Permitted (client : Client) : Act → Prop
  | .openUpload path _ => ∃ index,
      path = uploadPath client
        (generatedName index (uploadExtension client.request))
  | .openPart path _ => ∃ name, path = uploadPath client name
  | .remove path => client.request.method = "DELETE".toList ∧
      (client.request.path ≠ [] →
        Lexical.AtOrBelow path client.request.path)
  | .writeUpload _ => True
  | .writePart _ => True
  | .cgi _ _ => True

section Served

variable {W : Type}

/-- A handler keeps the connection and the parsed head, takes back no answer,
and adds permitted acts of this client to the record. -/
structure Served (process : Process W) (client : Client)
    (process' : Process W) (client' : Client) : Prop where
  clientId : client'.clientId = client.clientId
  block : client'.serverClientObj = client.serverClientObj
  keepAlive : client'.keepAlive = client.keepAlive
  request : ∃ file sRequest, client'.request =
    { client.request with file := file, sRequest := sRequest }
  ready : client.response.readyToSend = true →
    client'.response.readyToSend = true
  allRecv : client.allRecv = true → client'.allRecv = true
  effects : ∃ acts : List Act,
    process'.effects = process.effects ++ acts.map (Effect.mk client.clientId) ∧
      ∀ act ∈ acts, Permitted client act

namespace Served

variable {process process' : Process W} {client client' : Client}

theorem refl (process : Process W) (client : Client) :
    Served process client process client :=
  ⟨rfl, rfl, rfl, ⟨_, _, rfl⟩, id, id, [], by simp, by simp⟩

theorem permitted (h : Served process client process' client') (act : Act) :
    Permitted client' act ↔ Permitted client act := by
  obtain ⟨file, sRequest, hrequest⟩ := h.request
  cases act <;>
    simp only [Permitted, uploadPath, h.block, hrequest, uploadExtension,
      Request.getMapValues]

theorem trans {process'' : Process W} {client'' : Client}
    (hfirst : Served process client process' client')
    (hsecond : Served process' client' process'' client'') :
    Served process client process'' client'' := by
  obtain ⟨file, sRequest, hrequest⟩ := hfirst.request
  obtain ⟨file', sRequest', hrequest'⟩ := hsecond.request
  obtain ⟨acts, heffects, hacts⟩ := hfirst.effects
  obtain ⟨acts', heffects', hacts'⟩ := hsecond.effects
  refine ⟨hsecond.clientId.trans hfirst.clientId,
    hsecond.block.trans hfirst.block,
    hsecond.keepAlive.trans hfirst.keepAlive,
    ⟨file', sRequest', by rw [hrequest', hrequest]⟩,
    hsecond.ready ∘ hfirst.ready, hsecond.allRecv ∘ hfirst.allRecv,
    acts ++ acts', ?_, ?_⟩
  · rw [heffects', heffects, hfirst.clientId, List.map_append,
      List.append_assoc]
  · intro act hact
    rcases List.mem_append.mp hact with hact | hact
    · exact hacts act hact
    · exact (hfirst.permitted act).mp (hacts' act hact)

theorem after {process'' : Process W} {client'' : Client}
    (hsecond : Served process' client' process'' client'')
    (hfirst : Served process client process' client') :
    Served process client process'' client'' :=
  hfirst.trans hsecond

theorem of_effects (client : Client)
    (h : process'.effects = process.effects) :
    Served process client process' client :=
  ⟨rfl, rfl, rfl, ⟨_, _, rfl⟩, id, id, [], by simp [h], by simp⟩

theorem of_finish {after : Process W}
    (h : Served process client process' client')
    (heffects : after.effects = process'.effects) :
    Served process client after client' :=
  h.trans (of_effects client' heffects)

theorem of_act {act : Act} (hact : Permitted client act)
    (heffects : process'.effects =
      process.effects ++ [⟨client.clientId, act⟩]) :
    Served process client process' client :=
  ⟨rfl, rfl, rfl, ⟨_, _, rfl⟩, id, id, [act], heffects, by simpa using hact⟩

theorem setAllRecv (process : Process W) (client : Client) :
    Served process client process (client.setAllRecv true) :=
  ⟨rfl, rfl, rfl, ⟨_, _, rfl⟩, id, fun _ => rfl, [], by simp, by simp⟩

theorem setFile (process : Process W) (client : Client) (file : OFStream) :
    Served process client process (client.setFile file) :=
  ⟨rfl, rfl, rfl, ⟨_, _, rfl⟩, id, id, [], by simp, by simp⟩

theorem setSRequest (process : Process W) (client : Client) (bytes : Str) :
    Served process client process (client.setSRequest bytes) :=
  ⟨rfl, rfl, rfl, ⟨_, _, rfl⟩, id, id, [], by simp, by simp⟩

theorem of_response (process : Process W)
    (h : client' = { client with response := client'.response })
    (hready : client.response.readyToSend = true →
      client'.response.readyToSend = true) :
    Served process client process client' := by
  refine ⟨?_, ?_, ?_, ⟨client.request.file, client.request.sRequest, ?_⟩,
    hready, ?_, [], by simp, by simp⟩ <;>
    rw [h]
  exact id

theorem setResponse (process : Process W) (client : Client) (text : Str) :
    Served process client process (client.setResponse text) :=
  of_response process rfl id

theorem setResponseError [Os W] (process : Process W) (world : W)
    (client : Client) (status : Int) :
    Served process client process (setResponseError world client status) :=
  ⟨by simp, by simp, by simp, ⟨_, _, setResponseError_request ..⟩, by simp,
    by simp, [], by simp, by simp⟩

end Served

end Served

section Uploads

variable {W : Type} [Os W] {process process' : Process W}
  {client client' : Client}

theorem getFileName_served (process : Process W) (world : W)
    (client : Client) :
    Served process client process (getFileName world client).1 ∧
      ((getFileName world client).2 ≠ [] →
        (getFileName world client).1 = client ∧
          (getFileName world client).2 =
            uploadDirectory client.serverClientObj) := by
  unfold getFileName
  simp only
  split
  · exact ⟨.setResponseError .., by simp⟩
  split
  · exact ⟨.setResponseError .., by simp⟩
  split
  · exact ⟨.setResponseError .., by simp⟩
  · exact ⟨.refl .., fun _ => ⟨rfl, rfl⟩⟩

theorem putUpload_served (process : Process W) (client : Client) :
    Served process client (putUpload process client).1
      (putUpload process client).2 := by
  unfold putUpload
  exact (Served.setFile ..).after
    (@Served.of_act _ _ _ _ (.writeUpload _) trivial rfl)

theorem openUpload_served {fileName : Str} {index : Nat}
    (hname : fileName = uploadPath client
      (generatedName index (uploadExtension client.request))) :
    Served process client (openUpload process client fileName).1
      (openUpload process client fileName).2 := by
  unfold openUpload
  exact (Served.setFile ..).after
    (@Served.of_act _ _ _ _ (.openUpload _ _) ⟨index, hname⟩ rfl)

omit [Os W] in
theorem finishPost_served (process : Process W) (client : Client) :
    Served process client (finishPost process client).1
      (finishPost process client).2 := by
  unfold finishPost
  split
  · exact (Served.setAllRecv ..).after (.of_effects client rfl)
  · exact .refl ..

theorem ftGenerateFileNames_ok {world : W} {extension dirname name : Str}
    {fuel index index' : Nat}
    (h : ftGenerateFileNames world extension dirname fuel index =
      .ok (name, index')) :
    name = dirname ++ '/' :: generatedName index' extension ∧
      index ≤ index' ∧ Os.access world (cStr name) .exists = false := by
  induction fuel generalizing index with
  | zero => cases h
  | succ fuel ih =>
      rw [ftGenerateFileNames] at h
      split at h
      · rename_i hfree
        obtain ⟨rfl, rfl⟩ := Prod.mk.inj (Except.ok.inj h)
        exact ⟨by simp, Nat.le_refl _, hfree⟩
      · obtain ⟨hname, hle, hfree⟩ := ih h
        exact ⟨hname, by omega, hfree⟩

omit [Os W] in
theorem countWritten_served (process : Process W) (client : Client) :
    Served process client (countWritten process client) client :=
  .of_effects client rfl

theorem firstPost_served {fileName : Str} {index : Nat}
    (hname : cStr fileName = uploadPath client
      (generatedName index (uploadExtension client.request))) :
    Served process client (firstPost process client fileName).1
      (firstPost process client fileName).2 := by
  unfold firstPost
  have hopened : Served process client
      (openUpload process client (cStr fileName)).1
      (openUpload process client (cStr fileName)).2 :=
    openUpload_served hname
  simp only
  split
  · exact hopened
  have hput := (putUpload_served ..).after hopened
  split
  · exact (Served.setFile ..).after hput
  · exact (finishPost_served ..).after ((countWritten_served ..).after hput)

theorem nextPost_served (process : Process W) (client : Client) :
    Served process client (nextPost process client).1
      (nextPost process client).2 := by
  unfold nextPost
  simp only
  split
  · exact .setResponseError ..
  have hput := (countWritten_served ..).after
    (putUpload_served process client)
  split
  · exact (Served.setFile ..).after hput
  · exact (finishPost_served ..).after hput

theorem hanldePostRequest_served
    (h : hanldePostRequest process client = .ok (process', client')) :
    Served process client process' client' := by
  unfold hanldePostRequest at h
  split at h
  · obtain ⟨hserved, hdirname⟩ := getFileName_served process process.world
      client
    generalize getFileName process.world client = found at *
    obtain ⟨⟨fileName, index⟩, hname, hnext⟩ := bind_ok h
    obtain ⟨hname, -⟩ := ftGenerateFileNames_ok hname
    simp only at hnext
    split at hnext
    · obtain ⟨rfl, rfl⟩ := Prod.mk.inj (Except.ok.inj hnext)
      exact (Served.setAllRecv ..).after (hserved.of_finish rfl)
    · rename_i hne
      obtain ⟨hclient, hdir⟩ := hdirname hne
      rw [hclient] at hnext
      rw [hdir] at hname
      obtain ⟨rfl, rfl⟩ := Prod.mk.inj (Except.ok.inj hnext)
      exact (firstPost_served (congrArg cStr hname)).after
        (.of_effects client rfl)
  · obtain ⟨rfl, rfl⟩ := Prod.mk.inj (Except.ok.inj h)
    exact nextPost_served process client

theorem chunkedLoop_served {fuel : Nat}
    (h : chunkedLoop fuel process client = .ok (process', client')) :
    Served process client process' client' := by
  induction fuel generalizing process client with
  | zero => cases h
  | succ fuel ih =>
      rw [chunkedLoop] at h
      split at h
      · obtain ⟨rfl, rfl⟩ := Prod.mk.inj (Except.ok.inj h)
        exact .refl ..
      · obtain ⟨line, -, h⟩ := bind_ok h
        obtain ⟨tmp, -, h⟩ := bind_ok h
        split at h
        · obtain ⟨rfl, rfl⟩ := Prod.mk.inj (Except.ok.inj h)
          exact .refl ..
        split at h
        · obtain ⟨rfl, rfl⟩ := Prod.mk.inj (Except.ok.inj h)
          exact (Served.setAllRecv ..).of_finish rfl
        obtain ⟨request, -, h⟩ := bind_ok h
        obtain ⟨chunkData, -, h⟩ := bind_ok h
        obtain ⟨⟨written, client₁⟩, hpost, h⟩ := bind_ok h
        obtain ⟨rest, -, h⟩ := bind_ok h
        have hwritten : Served process client written client₁ :=
          (hanldePostRequest_served hpost).after
            ((Served.setSRequest ..).of_finish rfl)
        exact (ih h).after (hwritten.of_finish rfl)

theorem chunked_served
    (h : chunked process client = .ok (process', client')) :
    Served process client process' client' :=
  (chunkedLoop_served h).after (.of_effects client rfl)

theorem putPart_served (process : Process W) (client : Client)
    (bytes : Str) :
    Served process client (putPart process client bytes) client := by
  unfold putPart
  exact @Served.of_act _ _ _ _ (.writePart _) trivial rfl

theorem openPart_served (process : Process W) {client : Client}
    {filename name : Str} (hname : filename = uploadPath client name) :
    Served process client (openPart process client filename) client := by
  unfold openPart
  exact @Served.of_act _ _ _ _ (.openPart _ _) ⟨name, hname⟩ rfl

theorem createPart_served (process : Process W) (client : Client)
    (head : PartHead) (content : Str) :
    Served process client (createPart process client head content).1
      (createPart process client head content).2 := by
  cases head with
  | other => exact .refl ..
  | unnamed => exact .setResponseError ..
  | unterminated => exact .setResponseError ..
  | named name =>
      obtain ⟨hserved, hdirname⟩ := getFileName_served process process.world
        client
      unfold createPart
      generalize getFileName process.world client = found at *
      obtain ⟨client₁, dirname⟩ := found
      simp only at *
      split
      · exact (Served.setAllRecv ..).after hserved
      · rename_i hne
        obtain ⟨rfl, rfl⟩ := hdirname fun hnil => hne (.inr hnil)
        have hopened : Served process client₁ (openPart process client₁
            (cStr (uploadDirectory client₁.serverClientObj ++
              "/".toList ++ name))) client₁ :=
          @openPart_served _ _ process client₁ _ name (by simp [uploadPath])
        split
        · exact (Served.setResponseError ..).after hopened
        split
        · exact hopened.of_finish rfl
        · exact (putPart_served ..).after (hopened.of_finish rfl)

theorem createFile_served {buffer : Str} {flag : Nat}
    (h : createFile process client buffer flag = .ok (process', client')) :
    Served process client process' client' := by
  unfold createFile at h
  split at h
  · obtain ⟨rfl, rfl⟩ := Prod.mk.inj (Except.ok.inj h)
    exact .of_effects _ rfl
  split at h
  · split at h
    · obtain ⟨rfl, rfl⟩ := Prod.mk.inj (Except.ok.inj h)
      exact putPart_served ..
    · obtain ⟨rfl, rfl⟩ := Prod.mk.inj (Except.ok.inj h)
      exact .refl ..
  · obtain ⟨head, -, h⟩ := bind_ok h
    have hpart := createPart_served process client head (partContent buffer)
    rw [Except.ok.inj h] at hpart
    exact hpart

omit [Os W] in
theorem ifClosing_served (process : Process W) (client : Client)
    (closing : Bool) :
    Served process client process
      (if closing then client.setAllRecv true else client) := by
  split
  · exact .setAllRecv ..
  · exact .refl ..

theorem takeBuffer_served
    (h : takeBuffer process client = .ok (process', client')) :
    Served process client process' client' := by
  unfold takeBuffer at h
  split at h
  · obtain ⟨⟨created, client₁⟩, hcreate, h⟩ := bind_ok h
    obtain ⟨rfl, rfl⟩ := Prod.mk.inj (Except.ok.inj h)
    exact (createFile_served hcreate).of_finish rfl
  · obtain ⟨⟨created, client₁⟩, hcreate, h⟩ := bind_ok h
    obtain ⟨rfl, rfl⟩ := Prod.mk.inj (Except.ok.inj h)
    exact (createFile_served hcreate).of_finish rfl

theorem closeProcessed_served
    (h : closeProcessed process client = .ok (process', client')) :
    Served process client process' client' := by
  unfold closeProcessed at h
  split at h
  · obtain ⟨⟨created, client₁⟩, hcreate, h⟩ := bind_ok h
    obtain ⟨rfl, rfl⟩ := Prod.mk.inj (Except.ok.inj h)
    exact (createFile_served hcreate).of_finish rfl
  · obtain ⟨rfl, rfl⟩ := Prod.mk.inj (Except.ok.inj h)
    exact .refl ..

theorem takeChunk_served {pos : Nat}
    (h : takeChunk process client pos = .ok (process', client')) :
    Served process client process' client' := by
  unfold takeChunk at h
  obtain ⟨data, -, h⟩ := bind_ok h
  obtain ⟨dataChunk, -, h⟩ := bind_ok h
  obtain ⟨⟨created, client₁⟩, hcreate, h⟩ := bind_ok h
  obtain ⟨⟨closed, client₂⟩, hclose, h⟩ := bind_ok h
  obtain ⟨rfl, rfl⟩ := Prod.mk.inj (Except.ok.inj h)
  exact ((createFile_served hclose).after
    (createFile_served hcreate)).of_finish rfl

theorem boundaryLoop_served {fuel : Nat}
    (h : boundaryLoop fuel process client = .ok (process', client')) :
    Served process client process' client' := by
  induction fuel generalizing process client with
  | zero => cases h
  | succ fuel ih =>
      rw [boundaryLoop] at h
      simp only at h
      generalize checkIfHaveNewBoundary process.part.buffer
        process.part.boundaryStr 0 = found at h
      have hclosing := ifClosing_served process client found.2
      generalize (if found.2 then client.setAllRecv true else client) = client₀
        at h hclosing
      refine Served.after ?_ hclosing
      split at h
      · exact takeBuffer_served h
      split at h
      · obtain ⟨⟨closed, client₁⟩, hclose, h⟩ := bind_ok h
        obtain ⟨rest, -, h⟩ := bind_ok h
        exact (ih h).after ((closeProcessed_served hclose).of_finish rfl)
      · obtain ⟨⟨taken, client₁⟩, htake, h⟩ := bind_ok h
        obtain ⟨rest, -, h⟩ := bind_ok h
        exact (ih h).after ((takeChunk_served htake).of_finish rfl)

omit [Os W] in
theorem startBoundary_effects {started : Option (Process W)}
    (h : startBoundary process = .ok started) :
    ∀ process' ∈ started, process'.effects = process.effects := by
  unfold startBoundary boundaryLine at h
  split at h
  · simp only at h
    split at h
    · obtain rfl := Except.ok.inj h
      simp
    · obtain ⟨firstLine, -, h⟩ := bind_ok h
      split at h
      · obtain ⟨rest, -, h⟩ := bind_ok h
        obtain rfl := Except.ok.inj h
        simp
      · obtain rfl := Except.ok.inj h
        simp
  · obtain rfl := Except.ok.inj h
    simp

theorem boundaryEnd_served
    (h : boundaryEnd process client = .ok (process', client')) :
    Served process client process' client' := by
  unfold boundaryEnd at h
  split at h
  · obtain ⟨⟨closed, client₁⟩, hclose, h⟩ := bind_ok h
    obtain ⟨rfl, rfl⟩ := Prod.mk.inj (Except.ok.inj h)
    exact (closeProcessed_served hclose).of_finish rfl
  · obtain ⟨rfl, rfl⟩ := Prod.mk.inj (Except.ok.inj h)
    exact .refl ..

theorem boundary_served
    (h : boundary process client = .ok (process', client')) :
    Served process client process' client' := by
  unfold boundary at h
  obtain ⟨started, hstart, h⟩ := bind_ok h
  have heffects := startBoundary_effects hstart
  split at h
  · obtain ⟨rfl, rfl⟩ := Prod.mk.inj (Except.ok.inj h)
    exact .of_effects _ rfl
  · rename_i started
    have hstarted : started.countCall.effects = process.effects :=
      heffects started rfl
    obtain ⟨⟨looped, client₁⟩, hloop, h⟩ := bind_ok h
    have hlooped := (boundaryLoop_served hloop).after
      (.of_effects client hstarted)
    exact (boundaryEnd_served h).after hlooped

end Uploads

section Scripts

variable {W : Type} [Os W] {process process' : Process W}
  {client client' : Client}

theorem execScript_served (process : Process W) (client : Client)
    (script : Script) :
    Served process client (execScript process client script).1
      (execScript process client script).2 := by
  unfold execScript
  generalize Os.run process.world script = ran
  obtain ⟨world, outcome⟩ := ran
  have hworld : Served process client
      { process with world := world } client := .of_effects client rfl
  cases outcome with
  | notStarted => exact hworld
  | timedOut => exact (Served.setResponseError ..).after hworld
  | signaled => exact (Served.setResponseError ..).after hworld
  | exited code content =>
      simp only
      split
      · exact (Served.setResponseError ..).after hworld
      split
      · exact (Served.setResponseError ..).after hworld
      split
      · exact (Served.setResponseError ..).after hworld
      split
      · exact (Served.setResponseError ..).after hworld
      · exact (Served.setResponse ..).after hworld

theorem cgiHandler_served (process : Process W) (client : Client)
    (body sn : Str) :
    Served process client (cgiHandler process client body sn).1
      (cgiHandler process client body sn).2 := by
  unfold cgiHandler
  have hlog : Served process client (process.log client (.cgi sn body))
      client := @Served.of_act _ _ _ _ (.cgi _ _) trivial rfl
  simp only
  split
  · exact (execScript_served ..).after hlog
  split
  · exact (execScript_served ..).after hlog
  · exact hlog

omit [Os W] in
theorem chunkedForCgiLoop_served {fuel : Nat} {tmp : Str}
    (h : chunkedForCgiLoop fuel process client =
      .ok (process', client', tmp)) :
    Served process client process' client' := by
  induction fuel generalizing process client with
  | zero => cases h
  | succ fuel ih =>
      rw [chunkedForCgiLoop] at h
      split at h
      · obtain ⟨rfl, hrest⟩ := Prod.mk.inj (Except.ok.inj h)
        obtain ⟨rfl, rfl⟩ := Prod.mk.inj hrest
        exact .refl ..
      · obtain ⟨line, -, h⟩ := bind_ok h
        simp only at h
        split at h
        · obtain ⟨rfl, hrest⟩ := Prod.mk.inj (Except.ok.inj h)
          obtain ⟨rfl, rfl⟩ := Prod.mk.inj hrest
          exact (Served.setSRequest ..).after
            ((Served.setAllRecv ..).of_finish rfl)
        obtain ⟨data, -, h⟩ := bind_ok h
        split at h
        · obtain ⟨rfl, hrest⟩ := Prod.mk.inj (Except.ok.inj h)
          obtain ⟨rfl, rfl⟩ := Prod.mk.inj hrest
          exact .refl ..
        obtain ⟨request, -, h⟩ := bind_ok h
        obtain ⟨data, -, h⟩ := bind_ok h
        obtain ⟨rest, -, h⟩ := bind_ok h
        exact (ih h).after (.of_effects client rfl)

theorem runOnBody_served (slot : BodySlot) (process : Process W)
    (client : Client) (path : Str) :
    Served process client (runOnBody slot process client path).1
      (runOnBody slot process client path).2 := by
  unfold runOnBody
  exact (cgiHandler_served ..).of_finish (Process.setBody_effects ..)

theorem cgiPost_cases {slot : BodySlot} {path : Str}
    (h : cgiPost slot process client path = .ok (process', client')) :
    (∃ taken client₁ tmp,
      chunkedForCgi process client = .ok (taken, client₁, tmp) ∧
      ((client₁.allRecv = true ∧ runOnBody slot
          (taken.setBody slot (taken.getBody slot ++ tmp)) client₁ path =
            (process', client')) ∨
        (client₁.allRecv = false ∧
          process' = taken.setBody slot (taken.getBody slot ++ tmp) ∧
          client' = client₁))) ∨
    ((∃ ran answered, runOnBody slot (process.setBody slot
          (process.getBody slot ++ client.request.sRequest)) client path =
            (ran, answered) ∧
        process' = ran ∧ client' = answered.setAllRecv true) ∨
      (process' = process.setBody slot
          (process.getBody slot ++ client.request.sRequest) ∧
        client' = client)) := by
  unfold cgiPost at h
  split at h
  · obtain ⟨⟨taken, client₁, tmp⟩, htaken, h⟩ := bind_ok h
    refine .inl ⟨taken, client₁, tmp, htaken, ?_⟩
    simp only at h
    split at h
    · rename_i hall
      exact .inl ⟨hall, Except.ok.inj h⟩
    · rename_i hall
      obtain ⟨rfl, rfl⟩ := Prod.mk.inj (Except.ok.inj h)
      exact .inr ⟨by simpa using hall, rfl, rfl⟩
  · right
    simp only at h
    split at h
    · obtain ⟨rfl, rfl⟩ := Prod.mk.inj (Except.ok.inj h)
      exact .inl ⟨_, _, rfl, rfl, rfl⟩
    · obtain ⟨rfl, rfl⟩ := Prod.mk.inj (Except.ok.inj h)
      exact .inr ⟨rfl, rfl⟩

theorem cgiPost_served {slot : BodySlot} {path : Str}
    (h : cgiPost slot process client path = .ok (process', client')) :
    Served process client process' client' := by
  have hran (stored : Process W) (asked : Client) {ran : Process W}
      {answered : Client}
      (hrun : runOnBody slot stored asked path = (ran, answered)) :
      Served stored asked ran answered := by
    have hserved := runOnBody_served slot stored asked path
    rwa [hrun] at hserved
  rcases cgiPost_cases h with ⟨taken, client₁, tmp, htaken, hnext⟩ | hnext
  · have hserved : Served process client taken client₁ :=
      (chunkedForCgiLoop_served htaken).after (.of_effects client rfl)
    have hstored := hserved.of_finish (Process.setBody_effects taken slot
      (taken.getBody slot ++ tmp))
    rcases hnext with ⟨-, hrun⟩ | ⟨-, rfl, rfl⟩
    · exact (hran _ _ hrun).after hstored
    · exact hstored
  · have hstored := (Served.refl process client).of_finish
      (Process.setBody_effects process slot
        (process.getBody slot ++ client.request.sRequest))
    rcases hnext with ⟨ran, answered, hrun, rfl, rfl⟩ | ⟨rfl, rfl⟩
    · exact (Served.setAllRecv ..).after ((hran _ _ hrun).after hstored)
    · exact hstored

omit [Os W] in
theorem markAlive_served (process : Process W) (client : Client) :
    Served process client process (markAlive client) := by
  unfold markAlive
  split
  · exact ⟨rfl, rfl, rfl, ⟨_, _, rfl⟩, fun _ => rfl, id, [], by simp,
      by simp⟩
  · exact .refl ..

theorem cgiExtensions_served {ex path : Str} {extensions : List Str}
    {bol bol' : Bool}
    (h : cgiExtensions ex path extensions process client bol =
      .ok (process', client', bol')) :
    Served process client process' client' := by
  induction extensions generalizing process client bol with
  | nil =>
      obtain ⟨rfl, hrest⟩ := Prod.mk.inj (Except.ok.inj h)
      obtain ⟨rfl, rfl⟩ := Prod.mk.inj hrest
      exact .refl ..
  | cons extension rest ih =>
      rw [cgiExtensions] at h
      split at h
      · split at h
        · obtain ⟨⟨posted, client₁⟩, hpost, h⟩ := bind_ok h
          exact (ih h).after
            ((markAlive_served ..).after (cgiPost_served hpost))
        split at h
        · exact (ih h).after ((markAlive_served ..).after
            ((cgiHandler_served ..).after (Served.setAllRecv ..)))
        · obtain ⟨rfl, hrest⟩ := Prod.mk.inj (Except.ok.inj h)
          obtain ⟨rfl, rfl⟩ := Prod.mk.inj hrest
          exact .setResponseError ..
      · exact ih h

theorem cgiServer_served {path : Str} {bol : Bool}
    (h : cgiServer process client path = .ok (process', client', bol)) :
    Served process client process' client' := by
  unfold cgiServer at h
  split at h
  · obtain ⟨⟨posted, client₁⟩, hpost, h⟩ := bind_ok h
    obtain ⟨rfl, hrest⟩ := Prod.mk.inj (Except.ok.inj h)
    obtain ⟨rfl, rfl⟩ := Prod.mk.inj hrest
    exact (markAlive_served ..).after (cgiPost_served hpost)
  split at h
  · obtain ⟨rfl, hrest⟩ := Prod.mk.inj (Except.ok.inj h)
    obtain ⟨rfl, rfl⟩ := Prod.mk.inj hrest
    exact (markAlive_served ..).after
      ((Served.setAllRecv ..).after (cgiHandler_served ..))
  · obtain ⟨rfl, hrest⟩ := Prod.mk.inj (Except.ok.inj h)
    obtain ⟨rfl, rfl⟩ := Prod.mk.inj hrest
    exact .setResponseError ..

theorem checkIfHaveCgi_served {bol : Bool}
    (h : checkIfHaveCgi process client = .ok (process', client', bol)) :
    Served process client process' client' := by
  unfold checkIfHaveCgi at h
  simp only at h
  split at h
  · obtain ⟨rfl, hrest⟩ := Prod.mk.inj (Except.ok.inj h)
    obtain ⟨rfl, rfl⟩ := Prod.mk.inj hrest
    exact .refl ..
  split at h
  · exact cgiExtensions_served h
  · exact cgiServer_served h

end Scripts

section Requests

variable {W : Type} [Os W] {process process' : Process W}
  {client client' : Client}

theorem sendFile_served (process : Process W) (world : W) (client : Client)
    (path : Str) :
    Served process client process (sendFile world client path) := by
  unfold sendFile
  obtain ⟨fileStream, responseStatus, hframe⟩ :=
    fillResponse_frame world client path 200
  simp only
  rw [hframe]
  exact .of_response process rfl id

theorem checkAutoIndex_served (process : Process W) (world : W)
    (client : Client) (routes : List RouteBlock) :
    Served process client process (checkAutoIndex world client routes).1 := by
  induction routes with
  | nil => exact .refl ..
  | cons route rest ih =>
      rw [checkAutoIndex]
      split
      · exact .setResponseError ..
      · exact ih

omit [Os W] in
theorem directoryListing_served (process : Process W) {names : List Str}
    (h : directoryListing client names = .ok client') :
    Served process client process client' := by
  unfold directoryListing at h
  simp only at h
  split at h
  · obtain rfl := Except.ok.inj h
    exact .of_response process rfl id
  · obtain ⟨base, -, h⟩ := bind_ok h
    obtain rfl := Except.ok.inj h
    exact .of_response process rfl id

theorem directoryAnswer_served (process : Process W) {world : W}
    {flag : Nat} {str : Str} {names : List Str}
    (h : directoryAnswer world client flag str names = .ok client') :
    Served process client process client' := by
  unfold directoryAnswer at h
  split at h
  · obtain rfl := Except.ok.inj h
    exact .refl ..
  split at h
  · split at h <;> obtain rfl := Except.ok.inj h
    · exact .setResponseError ..
    · exact sendFile_served ..
  · split at h
    · split at h <;> obtain rfl := Except.ok.inj h
      · exact .setResponseError ..
      · exact sendFile_served ..
    split at h
    · obtain rfl := Except.ok.inj h
      exact sendFile_served ..
    · exact directoryListing_served process h

theorem directoryResponse_served (process : Process W) {world : W}
    (h : directoryResponse world client = .ok client') :
    Served process client process client' := by
  unfold directoryResponse at h
  split at h
  · obtain rfl := Except.ok.inj h
    exact .setResponseError ..
  split at h
  · obtain rfl := Except.ok.inj h
    exact .setResponseError ..
  simp only at h
  split at h
  · exact (directoryAnswer_served process h).after
      (checkAutoIndex_served ..)
  · exact directoryAnswer_served process h

theorem responseToGet_served (process : Process W) {world : W}
    (h : responseToGet world client = .ok client') :
    Served process client process client' := by
  unfold responseToGet at h
  split at h
  · obtain rfl := Except.ok.inj h
    exact .setResponseError ..
  split at h
  · exact directoryResponse_served process h
  · split at h
    · obtain rfl := Except.ok.inj h
      exact .setResponseError ..
    · obtain rfl := Except.ok.inj h
      exact sendFile_served ..
  · obtain rfl := Except.ok.inj h
    exact .setResponseError ..

omit [Os W] in
theorem deleteEntries_atOrBelow {delete : W → Str → W × List Str × Bool}
    {path : Str} (hne : path ≠ [])
    (hdelete : ∀ world entry, entry ≠ [] →
      ∀ removed ∈ (delete world entry).2.1,
        Lexical.AtOrBelow removed entry) (names : List Str) (world : W) :
    ∀ removed ∈ (deleteEntries delete path names world).2.1,
      Lexical.AtOrBelow removed path := by
  induction names generalizing world with
  | nil => simp [deleteEntries]
  | cons name rest ih =>
      rw [deleteEntries]
      split
      · exact ih world
      · have hentry : ∀ removed ∈
            (delete world (path ++ "/".toList ++ name)).2.1,
              Lexical.AtOrBelow removed path := by
          intro removed hremoved
          refine (hdelete _ _ (by simp) removed hremoved).trans ?_
          simpa using Lexical.atOrBelow_slash hne name
        generalize delete world (path ++ "/".toList ++ name) = deleted at *
        obtain ⟨world', removed, ok⟩ := deleted
        simp only at *
        split
        · exact hentry
        · intro other hother
          rcases List.mem_append.mp hother with hother | hother
          · exact hentry other hother
          · exact ih _ other hother

theorem handleDeleteRequest_atOrBelow (fuel : Nat) (world : W) {path : Str}
    (hne : path ≠ []) :
    ∀ removed ∈ (handleDeleteRequest fuel world path).2.1,
      Lexical.AtOrBelow removed path := by
  induction fuel generalizing world path with
  | zero => simp [handleDeleteRequest]
  | succ fuel ih =>
      rw [handleDeleteRequest]
      split
      · simp
      split
      · simp
      split
      · split
        · simp
        · rename_i names _
          have hentries := deleteEntries_atOrBelow hne
            (fun world entry hentry => ih world hentry) names world
          generalize deleteEntries (handleDeleteRequest fuel) path names
            world = deleted at *
          obtain ⟨world', removed, ok⟩ := deleted
          simp only at *
          split
          · exact hentries
          split
          · exact hentries
          · intro other hother
            rcases List.mem_append.mp hother with hother | hother
            · exact hentries other hother
            · rw [List.mem_singleton.mp hother]
              exact .refl path
      · split
        · simp
        · intro other hother
          rw [List.mem_singleton.mp hother]
          exact .refl path

theorem deleteRequest_served (process : Process W) {client : Client}
    (hmethod : client.request.method = "DELETE".toList) :
    Served process client (deleteRequest process client).1
      (deleteRequest process client).2 := by
  unfold deleteRequest
  simp only
  refine (Served.setResponseError ..).after
    (Served.trans (.setAllRecv process client) ?_)
  refine ⟨rfl, rfl, rfl, ⟨_, _, rfl⟩, id, id,
    (handleDeleteRequest (pathMax + 1) process.world
      client.request.path).2.1.map .remove, ?_, ?_⟩
  · simp [Process.logRemoved, Client.setAllRecv]
  · intro act hact
    obtain ⟨removed, hremoved, rfl⟩ := List.mem_map.mp hact
    exact ⟨hmethod, fun hne =>
      handleDeleteRequest_atOrBelow _ _ hne removed hremoved⟩

theorem checkUri_served (process : Process W) (world : W)
    (client : Client) :
    Served process client process (checkUri world client).1 := by
  unfold checkUri
  split
  · exact .setResponseError ..
  split
  · exact .setResponseError ..
  · exact .refl ..

theorem checkUri_directory {world : W}
    (h : (checkUri world client).2 = true) :
    (checkUri world client).1 = client := by
  revert h
  unfold checkUri
  split
  · simp
  · split
    · simp
    · simp

theorem checkUri_refused {world : W} (h : (checkUri world client).2 = false) :
    ∃ status, (checkUri world client).1 =
      setResponseError world client status := by
  revert h
  unfold checkUri
  split
  · exact fun _ => ⟨404, rfl⟩
  · split
    · exact fun _ => ⟨405, rfl⟩
    · simp

theorem takeBody_served
    (h : takeBody process client = .ok (process', client')) :
    Served process client process' client' := by
  unfold takeBody at h
  simp only at h
  split at h
  · exact boundary_served h
  split at h
  · exact chunked_served h
  · exact hanldePostRequest_served h

theorem answerCreated_served (process : Process W) (client : Client) :
    Served process client process (answerCreated process client) := by
  unfold answerCreated
  split
  · exact .setResponseError ..
  · exact .refl ..

theorem postRequest_served
    (h : postRequest process client = .ok (process', client')) :
    Served process client process' client' := by
  unfold postRequest at h
  have hchecked := checkUri_served process process.world client
  generalize checkUri process.world client = checked at *
  simp only at h
  split at h
  · obtain ⟨rfl, rfl⟩ := Prod.mk.inj (Except.ok.inj h)
    exact hchecked
  · obtain ⟨⟨taken, client₁⟩, htaken, h⟩ := bind_ok h
    obtain ⟨rfl, rfl⟩ := Prod.mk.inj (Except.ok.inj h)
    exact (answerCreated_served ..).after
      ((takeBody_served htaken).after hchecked)

theorem dispatchMethod_served
    (h : dispatchMethod process client = .ok (process', client')) :
    Served process client process' client' := by
  unfold dispatchMethod at h
  split at h
  · obtain ⟨answered, hget, h⟩ := bind_ok h
    obtain ⟨rfl, rfl⟩ := Prod.mk.inj (Except.ok.inj h)
    exact (Served.setAllRecv ..).after (responseToGet_served _ hget)
  split at h
  · exact postRequest_served h
  split at h
  · rename_i hmethod
    have hserved := deleteRequest_served process hmethod
    rw [Except.ok.inj h] at hserved
    exact hserved
  · obtain ⟨rfl, rfl⟩ := Prod.mk.inj (Except.ok.inj h)
    exact .refl ..

theorem dispatchRequest_served
    (h : dispatchRequest process client = .ok (process', client')) :
    Served process client process' client' := by
  unfold dispatchRequest at h
  split at h
  · obtain ⟨rfl, rfl⟩ := Prod.mk.inj (Except.ok.inj h)
    exact .setAllRecv ..
  · obtain ⟨⟨handled, client₁, isCgi⟩, hcgi, h⟩ := bind_ok h
    have hhandled := checkIfHaveCgi_served hcgi
    simp only at h
    split at h
    · obtain ⟨rfl, rfl⟩ := Prod.mk.inj (Except.ok.inj h)
      exact hhandled
    split at h
    · obtain ⟨rfl, rfl⟩ := Prod.mk.inj (Except.ok.inj h)
      exact (Served.setAllRecv ..).after hhandled
    · exact (dispatchMethod_served h).after hhandled

theorem dispatchRequest_of_ready
    (hready : client.response.readyToSend = true) :
    dispatchRequest process client =
      .ok (process, client.setAllRecv true) := by
  unfold dispatchRequest
  rw [if_pos hready]

theorem parseOnce_cases {world : W} {parsed : Client}
    (h : parseOnce world client = .ok parsed) :
    (client.request.index = false ∧
        parseRequest world client = .ok parsed) ∨
      (client.request.index = true ∧ parsed = client) := by
  unfold parseOnce at h
  split at h
  · rename_i hindex
    exact .inl ⟨hindex, h⟩
  · rename_i hindex
    exact .inr ⟨by simpa using hindex, (Except.ok.inj h).symm⟩

theorem parseOnce_open {world : W} {parsed : Client}
    (h : parseOnce world client = .ok parsed)
    (hready : parsed.response.readyToSend = false) :
    parsed.request.index = true ∧ parsed.allRecv = client.allRecv := by
  cases parseOnce_cases h with
  | inl hfresh =>
      obtain ⟨parts, located, haccepted⟩ :=
        parseRequest_accepted hfresh.2 hready
      exact ⟨haccepted.index, haccepted.allRecv⟩
  | inr hkept =>
      obtain ⟨hindex, rfl⟩ := hkept
      exact ⟨hindex, rfl⟩

omit [Os W] in
theorem Served.kept (h : Served process client process' client') :
    Client.Kept client client' :=
  ⟨h.clientId, ⟨client.serverClientObj.isLocationUrl, h.block⟩,
    fun halive => h.keepAlive.trans halive⟩

theorem checkRequest_kept
    (h : checkRequest process client = .ok (process', client')) :
    Client.Kept client client' := by
  unfold checkRequest at h
  obtain ⟨parsed, hparsed, h⟩ := bind_ok h
  have hforgot : Client.Kept client client.forgetLocation :=
    ⟨rfl, ⟨_, rfl⟩, id⟩
  have hkept : Client.Kept client.forgetLocation parsed := by
    rcases parseOnce_cases hparsed with ⟨-, hparse⟩ | ⟨-, rfl⟩
    · exact parseRequest_kept hparse
    · exact .refl _
  exact hforgot.trans (hkept.trans (dispatchRequest_served h).kept)

theorem receive_cases {bytes : Str}
    (h : receive process client bytes = .ok (process', client')) :
    (client.allRecv = true ∧ process' = process ∧ client' = client) ∨
      (client.allRecv = false ∧ ∃ parsed,
        parseOnce process.world
          (client.setSRequest bytes).forgetLocation = .ok parsed ∧
        dispatchRequest process parsed = .ok (process', client')) := by
  unfold receive at h
  split at h
  · rename_i hall
    obtain ⟨rfl, rfl⟩ := Prod.mk.inj (Except.ok.inj h)
    exact .inl ⟨hall, rfl, rfl⟩
  · rename_i hall
    unfold checkRequest at h
    obtain ⟨parsed, hparsed, h⟩ := bind_ok h
    exact .inr ⟨by simpa using hall, parsed, hparsed, h⟩

end Requests

end Webserv
