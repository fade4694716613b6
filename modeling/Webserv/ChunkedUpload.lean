import Webserv.BodyLimit
import Webserv.ChunkLoop
import Webserv.PlainUpload

namespace Webserv

open Cxx Coding

/-! `chunked`: the data of whole chunks goes to `hanlde_post_request`, piece by
piece. -/

section Pieces

variable {W : Type} [Os W]

/-- One call of `hanlde_post_request` for each piece. -/
def postPieces (process : Process W) (client : Client) :
    List Str → Except Fault (Process W × Client)
  | [] => .ok (process, client)
  | data :: rest => do
      let (process, client) ←
        hanldePostRequest process (client.setSRequest data)
      postPieces process client rest

theorem postPieces_append (process : Process W) (client : Client)
    (front back : List Str) :
    postPieces process client (front ++ back) = (do
      let (process, client) ← postPieces process client front
      postPieces process client back) := by
  induction front generalizing process client with
  | nil => rfl
  | cons data front ih =>
      rw [List.cons_append, postPieces, postPieces]
      cases hanldePostRequest process (client.setSRequest data) with
      | error fault => rfl
      | ok posted => exact ih posted.1 posted.2

/-! The static of `chunked` is not read by `hanlde_post_request`. -/

omit [Os W] in
theorem finishPost_setChunks (process : Process W) (client : Client)
    (request : Str) :
    finishPost (process.setChunks request) client =
      ((finishPost process client).1.setChunks request,
        (finishPost process client).2) := by
  unfold finishPost
  rw [show (process.setChunks request).post = process.post from rfl]
  split <;> rfl

theorem firstPost_setChunks (process : Process W) (client : Client)
    (fileName request : Str) :
    firstPost (process.setChunks request) client fileName =
      ((firstPost process client fileName).1.setChunks request,
        (firstPost process client fileName).2) := by
  have hfinish := finishPost_setChunks (countWritten (putUpload
    (openUpload process client (cStr fileName)).1
    (openUpload process client (cStr fileName)).2).1
    (putUpload (openUpload process client (cStr fileName)).1
      (openUpload process client (cStr fileName)).2).2)
    (putUpload (openUpload process client (cStr fileName)).1
      (openUpload process client (cStr fileName)).2).2 request
  unfold firstPost
  simp only [show openUpload (process.setChunks request) client
      (cStr fileName) =
    ((openUpload process client (cStr fileName)).1.setChunks request,
      (openUpload process client (cStr fileName)).2) from rfl]
  split
  · rfl
  simp only [show ∀ opened : Process W × Client,
      putUpload (opened.1.setChunks request) opened.2 =
        ((putUpload opened.1 opened.2).1.setChunks request,
          (putUpload opened.1 opened.2).2) from fun _ => rfl]
  split
  · rfl
  · exact hfinish

theorem nextPost_setChunks (process : Process W) (client : Client)
    (request : Str) :
    nextPost (process.setChunks request) client =
      ((nextPost process client).1.setChunks request,
        (nextPost process client).2) := by
  have hfinish := finishPost_setChunks (countWritten
    (putUpload process client).1 (putUpload process client).2)
    (putUpload process client).2 request
  unfold nextPost
  split
  · rfl
  simp only [show putUpload (process.setChunks request) client =
    ((putUpload process client).1.setChunks request,
      (putUpload process client).2) from rfl]
  split
  · rfl
  · exact hfinish

theorem hanldePostRequest_setChunks (process : Process W) (client : Client)
    (request : Str) :
    hanldePostRequest (process.setChunks request) client =
      (hanldePostRequest process client).map
        fun posted => (posted.1.setChunks request, posted.2) := by
  unfold hanldePostRequest
  by_cases hfirst : process.post.first = 0
  · rw [if_pos hfirst, if_pos (show (process.setChunks request).post.first = 0
      from hfirst)]
    simp only [show (process.setChunks request).world = process.world
        from rfl,
      show (process.setChunks request).index = process.index from rfl,
      show (process.setChunks request).post = process.post from rfl]
    cases ftGenerateFileNames process.world (uploadExtension client.request)
      (getFileName process.world client).2 (Os.nameBound process.world + 1)
      process.index with
    | error fault => rfl
    | ok found =>
        simp only [bind, Except.bind]
        split
        · rfl
        · have hpost := firstPost_setChunks { process with
            index := found.2
            post := { process.post with first := 10 } }
            (getFileName process.world client).1 found.1 request
          exact congrArg Except.ok hpost
  · rw [if_neg hfirst, if_neg (show ¬(process.setChunks request).post.first =
      0 from hfirst)]
    exact congrArg Except.ok (nextPost_setChunks process client request)

theorem hanldePostRequest_oblivious :
    Oblivious (@hanldePostRequest W _) :=
  hanldePostRequest_setChunks

theorem postPieces_eq_with (process : Process W) (client : Client)
    (pieces : List Str) :
    postPieces process client pieces =
      piecesWith hanldePostRequest process client pieces := by
  induction pieces generalizing process client with
  | nil => rfl
  | cons data rest ih =>
      rw [postPieces, piecesWith]
      simp only [ih]

/-! The loop, on whole chunks, on a part of one, and on the last one. -/

theorem chunkedLoop_waits {process : Process W} (client : Client)
    {chunk : Chunk} (hsized : chunk.Sized)
    (hlength : chunk.data.length < 2 ^ 31) {rest : Str}
    (hinside : rest <+: chunk.text) (hne : rest ≠ chunk.text)
    (hrequest : process.chunkRequest = rest) (fuel : Nat) :
    chunkedLoop (fuel + 1) process client = .ok (process, client) := by
  rw [chunkedLoop_eq_with]
  exact chunkedLoopWith_waits client hsized hlength hinside hne hrequest fuel

theorem chunkedLoop_last {process : Process W} (client : Client)
    (hrequest : process.chunkRequest = Chunk.last.text) (fuel : Nat) :
    chunkedLoop (fuel + 1) process client =
      .ok (process.setChunks [], client.setAllRecv true) := by
  rw [chunkedLoop_eq_with]
  exact chunkedLoopWith_last client hrequest fuel

variable {process : Process W} {client : Client}

theorem chunked_eq {done : List Chunk}
    (h : ∀ chunk ∈ done, ReadableChunk chunk) {rest : Str}
    (hrequest : process.chunkRequest ++ client.request.sRequest =
      texts done ++ rest) :
    ∃ fuel, chunked process client = (do
      let (process, client) ←
        postPieces process client (done.map Chunk.data)
      chunkedLoop (fuel + 1) (process.setChunks rest) client) := by
  obtain ⟨fuel, hcall⟩ :=
    chunkedWith_done hanldePostRequest_oblivious h hrequest
  refine ⟨fuel, ?_⟩
  rw [chunked_eq_with, hcall, postPieces_eq_with]
  simp only [chunkedLoop_eq_with]

/-! The pieces of a body on their way into a file. -/

variable {target directory extension : Str}
  {area : FileArea W target directory extension}
  {files : List OutFile} {path bytes : Str}

/-- The file of a body: still to be opened, or with some bytes in it. -/
inductive Uploading (area : FileArea W target directory extension)
    (process : Process W) (client : Client) (files : List OutFile)
    (path : Str) : Str → Prop
  | idle : area.ready process.world →
      FreeName process directory extension path → process.post = {} →
        client.request.file = {} →
          uploadDirectory client.serverClientObj = directory →
            uploadExtension client.request = extension →
              process.filesOf client.clientId = files →
                Uploading area process client files path []
  | writing {bytes : Str} : area.taking process.world path →
      process.post = ⟨10, bytes.length⟩ →
        client.request.file = ⟨some path, false⟩ →
          process.filesOf client.clientId = files ++ [⟨path, bytes⟩] →
            Uploading area process client files path bytes

theorem Uploading.ready (h : Uploading area process client files path bytes) :
    area.ready process.world := by
  cases h with
  | idle hready => exact hready
  | writing htaking => exact area.done _ _ htaking

theorem Uploading.hanldePostRequest
    (h : Uploading area process client files path bytes) (data : Str) :
    ∃ process', hanldePostRequest process (client.setSRequest data) =
        .ok (process', (client.setSRequest data).counted ⟨some path, false⟩
          (bytes ++ data).length) ∧
      Counted area process process' client path (bytes ++ data).length ∧
      process'.filesOf client.clientId =
        files ++ [⟨path, bytes ++ data⟩] := by
  cases h with
  | idle hready hname hpost hfile hdirectory hextension hfiles =>
      obtain ⟨process', hcall, hcounted, hstored⟩ :=
        @hanldePostRequest_first _ _ _ _ _ area process
          (client.setSRequest data) path hready hname hpost hfile hdirectory
          hextension
      refine ⟨process', hcall, ⟨hcounted.taking, hcounted.post,
        hcounted.others⟩, ?_⟩
      rw [← hfiles]
      exact hstored
  | writing htaking hpost hfile hfiles =>
      obtain ⟨process', hcall, hcounted, hstored⟩ :=
        @hanldePostRequest_next _ _ _ _ _ area process
          (client.setSRequest data) path htaking hfile bytes.length hpost
      rw [List.length_append]
      refine ⟨process', hcall, ⟨hcounted.taking, hcounted.post,
        hcounted.others⟩, ?_⟩
      have hbehind := hfiles
      change process'.filesOf client.clientId =
        appendLast data (process.filesOf client.clientId) at hstored
      rw [hbehind, appendLast_concat] at hstored
      exact hstored

theorem Uploading.stored
    (h : Uploading area process client files path bytes)
    (hne : bytes ≠ []) :
    process.filesOf client.clientId = files ++ [⟨path, bytes⟩] := by
  cases h with
  | idle => exact absurd rfl hne
  | writing _ _ _ hfiles => exact hfiles

theorem Uploading.setChunks
    (h : Uploading area process client files path bytes) (request : Str) :
    Uploading area (process.setChunks request) client files path bytes := by
  cases h with
  | idle hready hname hpost hfile hdirectory hextension hfiles =>
      exact .idle hready hname hpost hfile hdirectory hextension hfiles
  | writing htaking hpost hfile hfiles =>
      exact .writing htaking hpost hfile hfiles

structure BodyStep (process : Process W) (client : Client)
    (process' : Process W) (client' : Client) : Prop where
  process : process' = { process with
    world := process'.world
    index := process'.index
    post := process'.post
    effects := process'.effects }
  client : ∃ file sRequest,
    client' = (client.setFile file).setSRequest sRequest

omit [Os W] in
theorem BodyStep.refl (process : Process W) (client : Client) :
    BodyStep process client process client :=
  ⟨rfl, _, _, rfl⟩

omit [Os W] in
theorem BodyStep.trans {first second third : Process W}
    {client₁ client₂ client₃ : Client}
    (h : BodyStep first client₁ second client₂)
    (h' : BodyStep second client₂ third client₃) :
    BodyStep first client₁ third client₃ := by
  obtain ⟨file, sRequest, rfl⟩ := h.client
  obtain ⟨file', sRequest', rfl⟩ := h'.client
  refine ⟨?_, file', sRequest', rfl⟩
  rw [h'.process, h.process]

theorem Uploading.piece (h : Uploading area process client files path bytes)
    {data : Str}
    (hless : (bytes ++ data).length < client.request.contentLength) :
    ∃ process' client',
      Webserv.hanldePostRequest process (client.setSRequest data) =
        .ok (process', client') ∧
      Uploading area process' client' files path (bytes ++ data) ∧
      BodyStep process client process' client' := by
  obtain ⟨process', hcall, hcounted, hfiles⟩ := h.hanldePostRequest data
  have hclient : (client.setSRequest data).counted ⟨some path, false⟩
      (bytes ++ data).length =
        (client.setSRequest data).setFile ⟨some path, false⟩ :=
    if_neg (Nat.not_le.mpr hless)
  have hpost : process'.post = ⟨10, (bytes ++ data).length⟩ := by
    rw [hcounted.post, postCount, if_neg (Nat.not_le.mpr hless)]
  rw [hclient] at hcall
  exact ⟨process', _, hcall, .writing hcounted.taking hpost rfl hfiles,
    hcounted.others, _, _, rfl⟩

theorem Uploading.pieces
    (h : Uploading area process client files path bytes) {pieces : List Str}
    (hless : (bytes ++ pieces.flatten).length <
      client.request.contentLength) :
    ∃ process' client',
      postPieces process client pieces = .ok (process', client') ∧
      Uploading area process' client' files path (bytes ++ pieces.flatten) ∧
      BodyStep process client process' client' := by
  induction pieces generalizing process client bytes with
  | nil =>
      refine ⟨process, client, rfl, ?_, .refl process client⟩
      rw [List.flatten_nil, List.append_nil]
      exact h
  | cons data pieces ih =>
      rw [List.flatten_cons, ← List.append_assoc] at hless ⊢
      have hfirst : (bytes ++ data).length <
          client.request.contentLength := by
        rw [List.length_append] at hless
        omega
      obtain ⟨process₁, client₁, hcall, hnext, hstep⟩ := h.piece hfirst
      have hlength : client₁.request.contentLength =
          client.request.contentLength := by
        obtain ⟨file, sRequest, rfl⟩ := hstep.client
        rfl
      obtain ⟨process', client', hrest, hlast, hstep'⟩ :=
        ih hnext (by rw [hlength]; exact hless)
      refine ⟨process', client', ?_, hlast, hstep.trans hstep'⟩
      rw [postPieces, hcall]
      exact hrest

/-- The body is in its file, and the statics are idle again. -/
structure Uploaded (area : FileArea W target directory extension)
    (process : Process W) (client : Client) (files : List OutFile)
    (path bytes : Str) : Prop where
  taking : area.taking process.world path
  post : process.post = {}
  file : client.request.file = ⟨some path, false⟩
  files : process.filesOf client.clientId = files ++ [⟨path, bytes⟩]

theorem Uploading.completes
    (h : Uploading area process client files path bytes) {data : Str}
    (hall : client.request.contentLength ≤ (bytes ++ data).length) :
    ∃ process' client',
      Webserv.hanldePostRequest process (client.setSRequest data) =
        .ok (process', client'.setAllRecv true) ∧
      Uploaded area process' client' files path (bytes ++ data) ∧
      BodyStep process client process' client' := by
  obtain ⟨process', hcall, hcounted, hfiles⟩ := h.hanldePostRequest data
  have hclient : (client.setSRequest data).counted ⟨some path, false⟩
      (bytes ++ data).length = ((client.setSRequest data).setFile
        ⟨some path, false⟩).setAllRecv true :=
    if_pos hall
  have hpost : process'.post = {} := by
    rw [hcounted.post, postCount, if_pos hall]
  rw [hclient] at hcall
  exact ⟨process', _, hcall, ⟨hcounted.taking, hpost, rfl, hfiles⟩,
    hcounted.others, _, _, rfl⟩

/-! The pieces behind that one: the stream is open already, fails, and is
closed. -/

/-- A process that takes a body for a new one while the stream of the old one
is open, or that has lost the stream. -/
def Spoiled (process : Process W) (client : Client) : Prop :=
  (process.post.first = 0 ∧ client.request.file.isOpen = true) ∨
    (process.post.first ≠ 0 ∧ client.request.file.isOpen = false)

theorem appendLast_nil (files : List OutFile) : appendLast [] files = files := by
  induction files with
  | nil => rfl
  | cons file rest ih =>
      cases rest with
      | nil => simp [appendLast]
      | cons next rest => rw [appendLast, ih]; simp

omit [Os W] in
theorem filesOf_spoiled {process' : Process W} {id : Int} {name : Str}
    (h : process'.effects = process.effects ++
      [.openUpload name false, .writeUpload []].map (Effect.mk id))
    (fd : Int) : process'.filesOf fd = process.filesOf fd := by
  unfold Process.filesOf
  rw [Process.actsOf_of_effects h fd]
  split
  · simp [uploadFiles, appendLast_nil]
  · simp

theorem Spoiled.hanldePostRequest {process' : Process W} {client' : Client}
    (h : Spoiled process client)
    (hcall : hanldePostRequest process client = .ok (process', client')) :
    Spoiled process' client' ∧ client'.clientId = client.clientId ∧
      process'.filesOf client.clientId = process.filesOf client.clientId := by
  have hrequest := getFileName_request process.world client
  have hid := (getFileName_served process process.world client).1.clientId
  unfold Webserv.hanldePostRequest at hcall
  rcases h with ⟨hfirst, hopen⟩ | ⟨hlost, hclosed⟩
  · rw [if_pos hfirst] at hcall
    obtain ⟨⟨fileName, index⟩, -, hnext⟩ := bind_ok hcall
    simp only at hnext
    split at hnext
    · obtain ⟨rfl, rfl⟩ := Prod.mk.inj (Except.ok.inj hnext)
      refine ⟨.inl ⟨rfl, ?_⟩, hid, rfl⟩
      change (getFileName process.world client).1.request.file.isOpen = true
      rw [hrequest]
      exact hopen
    · have hfile : (getFileName process.world client).1.request.file.openFile
          process.world (cStr fileName) =
            ({ client.request.file with failed := true }, process.world) := by
        rw [hrequest]
        unfold OFStream.openFile
        rw [if_pos hopen]
      obtain ⟨path, hpath⟩ := Option.isSome_iff_exists.mp hopen
      have hopened : openUpload { process with
          index := index
          post := { process.post with first := 10 } }
            (getFileName process.world client).1 (cStr fileName) =
          ((({ process with
            index := index
            post := { process.post with first := 10 } } : Process W).log
              (getFileName process.world client).1
              (.openUpload (cStr fileName) false)),
            (getFileName process.world client).1.setFile
              ⟨some path, true⟩) := by
        unfold openUpload
        simp only [hfile, hpath]
        rfl
      unfold firstPost at hnext
      simp only [hopened] at hnext
      rw [if_neg (by simp [OFStream.isOpen, Client.setFile])] at hnext
      unfold putUpload OFStream.put at hnext
      simp only [Client.setFile, true_or, if_true] at hnext
      obtain ⟨rfl, rfl⟩ := Prod.mk.inj (Except.ok.inj hnext)
      refine ⟨.inr ⟨by simp [Process.log], rfl⟩, hid, ?_⟩
      refine @filesOf_spoiled _ process _ client.clientId (cStr fileName) ?_ _
      simp [Process.log, hid]
  · rw [if_neg hlost] at hcall
    unfold nextPost at hcall
    rw [if_pos hclosed] at hcall
    obtain ⟨rfl, rfl⟩ := Prod.mk.inj (Except.ok.inj hcall)
    refine ⟨.inr ⟨hlost, ?_⟩, by simp, rfl⟩
    rw [setResponseError_request]
    exact hclosed

theorem Spoiled.postPieces {process' : Process W} {client' : Client}
    {pieces : List Str} (h : Spoiled process client)
    (hcall : postPieces process client pieces = .ok (process', client')) :
    process'.filesOf client.clientId = process.filesOf client.clientId := by
  induction pieces generalizing process client with
  | nil =>
      obtain ⟨rfl, rfl⟩ := Prod.mk.inj (Except.ok.inj hcall)
      rfl
  | cons data pieces ih =>
      rw [Webserv.postPieces] at hcall
      obtain ⟨⟨process₁, client₁⟩, hfirst, hrest⟩ := bind_ok hcall
      have hspoiled : Spoiled process (client.setSRequest data) := h
      obtain ⟨hnext, hid, hfiles⟩ := hspoiled.hanldePostRequest hfirst
      have hlater := ih hnext hrest
      rw [hid] at hlater
      exact hlater.trans hfiles

/-! What a call of `chunked` does with a beginning of what is left. -/

/-- Some pieces stay below a length, or one of them is the first to reach
it. -/
theorem reaches_or (n seen : Nat) (chunks : List Chunk) :
    seen + (content chunks).length < n ∨ n ≤ seen ∨
      ∃ before chunk after, chunks = before ++ chunk :: after ∧
        seen + (content before).length < n ∧
          n ≤ seen + (content (before ++ [chunk])).length := by
  induction chunks generalizing seen with
  | nil =>
      rw [content_nil]
      simp only [List.length_nil, Nat.add_zero]
      exact (Nat.lt_or_ge seen n).imp_right .inl
  | cons chunk chunks ih =>
      by_cases hseen : n ≤ seen
      · exact .inr (.inl hseen)
      simp only [content_cons, List.length_append]
      rcases ih (seen + chunk.data.length) with
        hless | hreached | ⟨before, next, after, rfl, hbefore, hafter⟩
      · exact .inl (by omega)
      · refine .inr (.inr ⟨[], chunk, chunks, rfl, by simp; omega, ?_⟩)
        simpa using hreached
      · refine .inr (.inr ⟨chunk :: before, next, after, rfl, ?_, ?_⟩)
        · rw [content_cons, List.length_append]
          omega
        · rw [List.cons_append, content_cons, List.length_append]
          omega

theorem length_content_dropLast_le (chunks : List Chunk) :
    (content chunks.dropLast).length ≤ (content chunks).length := by
  cases List.eq_nil_or_concat chunks with
  | inl hnil => simp [hnil]
  | inr hconcat =>
      obtain ⟨front, chunk, rfl⟩ := hconcat
      simp

/-- The call waits for more: some whole chunks are in the file, and the
announced length is not reached. -/
structure ChunksWait (area : FileArea W target directory extension)
    (process : Process W) (client : Client) (files : List OutFile)
    (path bytes : Str) (left : List Chunk) (received : Str)
    (process' : Process W) (client' : Client) : Prop where
  split : ∃ done chunk back rest, left ++ [.last] = done ++ chunk :: back ∧
    received = texts done ++ rest ∧ rest <+: chunk.text ∧
      rest ≠ chunk.text ∧ process'.chunkRequest = rest ∧
        Uploading area process' client' files path (bytes ++ content done) ∧
          (bytes ++ content done).length < client.request.contentLength
  client : ∃ file sRequest,
    client' = (client.setFile file).setSRequest sRequest

/-- The call has seen the last chunk, or the announced length with the last
data. -/
structure ChunksEnd (process : Process W) (client : Client)
    (files : List OutFile) (path bytes : Str) (left : List Chunk)
    (received : Str) (process' : Process W) (client' : Client) : Prop where
  received : received = texts (left ++ [.last]) ∨
    client.request.contentLength ≤ (bytes ++ content left).length ∧
      texts left <+: received
  late : (bytes ++ content left.dropLast).length <
    client.request.contentLength
  files : process'.filesOf client.clientId =
    files ++ [⟨path, bytes ++ content left⟩]
  client : ∃ file sRequest,
    client' = ((client.setFile file).setSRequest sRequest).setAllRecv true

/-- The call has reached the announced length before the last data. -/
structure ChunksCut (process : Process W) (client : Client)
    (files : List OutFile) (path bytes : Str) (left : List Chunk) : Prop where
  early : ∃ before chunk after, left = before ++ chunk :: after ∧
    after ≠ [] ∧ (bytes ++ content before).length <
      client.request.contentLength ∧
    client.request.contentLength ≤
      (bytes ++ content (before ++ [chunk])).length ∧
    ∀ process' client', chunked process client = .ok (process', client') →
      process'.filesOf client.clientId =
        files ++ [⟨path, bytes ++ content (before ++ [chunk])⟩] ∧
      client'.allRecv = true

theorem postPieces_allRecv {process' : Process W} {client' : Client}
    {pieces : List Str} (hall : client.allRecv = true)
    (hcall : postPieces process client pieces = .ok (process', client')) :
    client'.allRecv = true ∧ client'.clientId = client.clientId := by
  induction pieces generalizing process client with
  | nil =>
      obtain ⟨rfl, rfl⟩ := Prod.mk.inj (Except.ok.inj hcall)
      exact ⟨hall, rfl⟩
  | cons data pieces ih =>
      rw [postPieces] at hcall
      obtain ⟨⟨process₁, client₁⟩, hfirst, hrest⟩ := bind_ok hcall
      have hserved := hanldePostRequest_served hfirst
      obtain ⟨hall', hid⟩ := ih (hserved.allRecv hall) hrest
      exact ⟨hall', hid.trans hserved.clientId⟩

theorem chunkedLoop_end {left : List Chunk}
    (hleft : ∀ chunk ∈ left, ReadableChunk chunk) {done : List Chunk}
    {rest : Str} (hrest : (done = left ∧ rest = Chunk.last.text) ∨
      ∃ chunk back, left ++ [.last] = done ++ chunk :: back ∧
        rest <+: chunk.text ∧ rest ≠ chunk.text)
    (process : Process W) (client : Client) (fuel : Nat) :
    (done = left ∧ rest = Chunk.last.text ∧
      chunkedLoop (fuel + 1) (process.setChunks rest) client =
        .ok (process.setChunks [], client.setAllRecv true)) ∨
    (∃ chunk back, left ++ [.last] = done ++ chunk :: back ∧
      rest <+: chunk.text ∧ rest ≠ chunk.text ∧
        chunkedLoop (fuel + 1) (process.setChunks rest) client =
          .ok (process.setChunks rest, client)) := by
  rcases hrest with ⟨hdone, hlast⟩ | ⟨chunk, back, hsplit, hinside, hne⟩
  · exact .inl ⟨hdone, hlast, chunkedLoop_last client hlast fuel⟩
  · obtain ⟨more, rfl, hmore⟩ := exists_of_append_last hsplit
    obtain ⟨hsized, hlength⟩ :=
      sized_of_append_last (readable_append hleft rfl).2 hmore
    exact .inr ⟨chunk, back, hsplit, hinside, hne,
      chunkedLoop_waits client hsized hlength hinside hne rfl fuel⟩

theorem Uploading.chunked
    (h : Uploading area process client files path bytes)
    (hpending : bytes.length < client.request.contentLength)
    {left : List Chunk} (hleft : ∀ chunk ∈ left, ReadableChunk chunk)
    (hbody : bytes ++ content left ≠ []) {received : Str}
    (hreceived : process.chunkRequest ++ client.request.sRequest = received)
    (hbegins : received <+: texts (left ++ [.last])) :
    (∃ process' client', Webserv.chunked process client =
        .ok (process', client') ∧
      ChunksWait area process client files path bytes left received process'
        client') ∨
    (∃ process' client', Webserv.chunked process client =
        .ok (process', client') ∧
      ChunksEnd process client files path bytes left received process'
        client') ∨
    ChunksCut process client files path bytes left := by
  -- the whole chunks of the call, and what is behind them
  obtain ⟨done, rest, htext, hrest⟩ : ∃ done rest,
      received = texts done ++ rest ∧
        ((done = left ∧ rest = Chunk.last.text) ∨
          ∃ chunk back, left ++ [.last] = done ++ chunk :: back ∧
            rest <+: chunk.text ∧ rest ≠ chunk.text) := by
    rcases texts_prefix_split hbegins with
      hwhole | ⟨done, chunk, back, rest, hsplit, htext, hinside, hne⟩
    · exact ⟨left, _, by simpa using hwhole, .inl ⟨rfl, rfl⟩⟩
    · exact ⟨done, rest, htext, .inr ⟨chunk, back, hsplit, hinside, hne⟩⟩
  obtain ⟨more, hmore⟩ : ∃ more, left = done ++ more := by
    rcases hrest with ⟨rfl, -⟩ | ⟨chunk, back, hsplit, -⟩
    · exact ⟨[], by simp⟩
    · obtain ⟨more, hmore, -⟩ := exists_of_append_last hsplit
      exact ⟨more, hmore⟩
  have hdone : ∀ chunk ∈ done, ReadableChunk chunk :=
    (readable_append hleft hmore).1
  obtain ⟨fuel, hcall⟩ := chunked_eq hdone (hreceived.trans htext)
  rcases reaches_or client.request.contentLength bytes.length done with
    hless | hreached | ⟨before, chunk, after, hdoneSplit, hbefore, hafter⟩
  · -- the announced length is not reached
    rw [← List.length_append] at hless
    have hshort : (bytes ++ (done.map Chunk.data).flatten).length <
        client.request.contentLength := hless
    obtain ⟨process₁, client₁, hpieces, hnext, hstep⟩ := h.pieces hshort
    obtain ⟨file, sRequest, rfl⟩ := hstep.client
    rw [hpieces] at hcall
    rcases chunkedLoop_end hleft hrest process₁
        ((client.setFile file).setSRequest sRequest) fuel with
      ⟨rfl, rfl, hlast⟩ | ⟨chunk, back, hsplit, hinside, hne, hwaits⟩
    · refine .inr (.inl ⟨_, _, hcall.trans hlast, ?_, ?_, ?_, file, sRequest,
        rfl⟩)
      · exact .inl (by rw [htext]; simp)
      · refine lt_of_le_of_lt ?_ hless
        simp only [List.length_append]
        have hfewer := length_content_dropLast_le done
        omega
      · exact hnext.stored hbody
    · exact .inl ⟨_, _, hcall.trans hwaits, ⟨done, chunk, back, rest, hsplit,
        htext, hinside, hne, rfl, hnext.setChunks rest, hless⟩, file, sRequest,
          rfl⟩
  · omega
  · -- it is reached with one of the chunks
    rw [← List.length_append] at hbefore hafter
    have hshort : (bytes ++ (before.map Chunk.data).flatten).length <
        client.request.contentLength := hbefore
    obtain ⟨process₁, client₁, hpieces, hnext, hstep⟩ := h.pieces hshort
    obtain ⟨file, sRequest, rfl⟩ := hstep.client
    have hdata : bytes ++ content (before ++ [chunk]) =
        bytes ++ (before.map Chunk.data).flatten ++ chunk.data := by
      simp [content]
    rw [hdata] at hafter
    obtain ⟨process₂, client₂, hpost, huploaded, hstep'⟩ :=
      hnext.completes hafter
    obtain ⟨file', sRequest', rfl⟩ := hstep'.client
    have hfront : postPieces process client (done.map Chunk.data) =
        postPieces process₂ ((((client.setFile file).setSRequest
          sRequest).setFile file').setSRequest sRequest' |>.setAllRecv true)
          (after.map Chunk.data) := by
      rw [hdoneSplit, List.map_append, List.map_cons, postPieces_append,
        hpieces]
      simp only [bind, Except.bind]
      rw [postPieces, hpost]
      rfl
    have hbehind := hcall
    rw [hfront] at hbehind
    have hfiles : process₂.filesOf client.clientId =
        files ++ [⟨path, bytes ++ content (before ++ [chunk])⟩] := by
      rw [hdata]
      exact huploaded.files
    by_cases hlast : after ++ more = []
    · -- with the last one
      obtain ⟨rfl, rfl⟩ := List.append_eq_nil_iff.mp hlast
      rw [List.append_nil] at hmore
      subst hmore
      have hall : client.request.contentLength ≤
          (bytes ++ content left).length := by
        rw [hdoneSplit, hdata]
        exact hafter
      have hbegins' : texts left <+: received := ⟨rest, htext.symm⟩
      have hlate : (bytes ++ content left.dropLast).length <
          client.request.contentLength := by
        rw [hdoneSplit, List.dropLast_concat]
        exact hbefore
      rw [List.map_nil, postPieces] at hbehind
      rcases chunkedLoop_end hleft hrest process₂
          ((((client.setFile file).setSRequest sRequest).setFile
            file').setSRequest sRequest' |>.setAllRecv true) fuel with
        ⟨-, -, hend⟩ | ⟨chunk', back, -, -, -, hwaits⟩
      · refine .inr (.inl ⟨_, _, hbehind.trans hend, .inr ⟨hall, hbegins'⟩,
          hlate, ?_, file', sRequest', rfl⟩)
        rw [hdoneSplit]
        exact hfiles
      · refine .inr (.inl ⟨_, _, hbehind.trans hwaits, .inr ⟨hall, hbegins'⟩,
          hlate, ?_, file', sRequest', rfl⟩)
        rw [hdoneSplit]
        exact hfiles
    · -- with an earlier one
      refine .inr (.inr ⟨before, chunk, after ++ more, ?_, hlast, hbefore, ?_,
        fun process' client' hok => ?_⟩)
      · rw [hmore, hdoneSplit]
        simp
      · rw [hdata]
        exact hafter
      · rw [hbehind] at hok
        obtain ⟨⟨process₃, client₃⟩, hrest', hloop⟩ := bind_ok hok
        obtain ⟨hall, hid⟩ := postPieces_allRecv rfl hrest'
        have hspoiled : Spoiled process₂ ((((client.setFile file).setSRequest
            sRequest).setFile file').setSRequest sRequest' |>.setAllRecv
              true) := by
          refine .inl ⟨by rw [huploaded.post], ?_⟩
          change file'.isOpen = true
          rw [show file' = ⟨some path, false⟩ from huploaded.file]
          rfl
        have hkept := hspoiled.postPieces hrest'
        have hsame : process₃.filesOf client.clientId =
            files ++ [⟨path, bytes ++ content (before ++ [chunk])⟩] := by
          rw [← hfiles]
          exact hkept
        rcases chunkedLoop_end hleft hrest process₃ client₃ fuel with
          ⟨-, -, hend⟩ | ⟨chunk', back, -, -, -, hwaits⟩
        · obtain ⟨rfl, rfl⟩ :=
            Prod.mk.inj (Except.ok.inj (hend.symm.trans hloop))
          exact ⟨hsame, rfl⟩
        · obtain ⟨rfl, rfl⟩ :=
            Prod.mk.inj (Except.ok.inj (hwaits.symm.trans hloop))
          exact ⟨hsame, hall⟩

end Pieces

end Webserv
