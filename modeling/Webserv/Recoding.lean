import Webserv.Detours
import Webserv.HeadFields

namespace Webserv

open Cxx Coding

/-! The same body with its length announced, and in chunks. -/

section Requests

variable {W : Type} [Os W] {target directory extension : Str}
  {area : FileArea W target directory extension}
  {process : Process W} {client parsed : Client} {head : Str}

/-- A `POST` in chunks to a directory, on a fresh connection of a process that
receives no other body. -/
structure ChunkedRequest (area : FileArea W target directory extension)
    (process : Process W) (client : Client) (head : Str) (parsed : Client) :
    Prop extends BodyRequest process client head parsed where
  coding : parsed.request.getMapValues "Transfer-Encoding".toList =
    "chunked".toList
  single : search? "boundary=".toList
    (parsed.request.getMapValues "Content-Type".toList) = none
  plainDirectory : '\x00' ∉ directory
  target : parsed.request.path = target
  directory : uploadDirectory parsed.serverClientObj = directory
  extension : uploadExtension parsed.request = extension
  response : client.response = {}
  initial : process.post = {}
  chunks : process.chunkRequest = []
  ready : area.ready process.world

/-- How much of the coded body `chunked` looks at: the last chunk counts only
where the announced length is not reached before. -/
def neededBytes (announced : Nat) (chunks : List Chunk) : Nat :=
  if announced ≤ (content chunks).length then (texts chunks).length
  else (encodeChunks chunks).length

/-- The buffers are taken, answered with a `201`, and leave these files. -/
def Uploads (process : Process W) (client : Client) (buffers : List Str)
    (files : List OutFile) : Prop :=
  ∃ process' client', feed process client buffers = .ok (process', client') ∧
    client'.allRecv = true ∧ client'.response.responseStatus = 201 ∧
    process'.filesOf client.clientId = files

/-- The buffer of the head leaves a body that is not complete. -/
structure FirstWaits (area : FileArea W target directory extension)
    (client parsed : Client) (files : List OutFile) (path first : Str)
    (done more : List Chunk) (process' : Process W) (client' : Client) :
    Prop extends Waiting client', ChunkedPost client' where
  clientId : client'.clientId = client.clientId
  request : ∃ file sRequest, client'.request =
    { parsed.request with file := file, sRequest := sRequest }
  keepAlive : client'.keepAlive = false
  response : client'.response = client.response
  text : first = texts done ++ process'.chunkRequest
  uploading : Uploading area process' client' files path (content done)
  pending : (content done).length < parsed.request.contentLength
  rest : ∃ chunk back, more ++ [.last] = chunk :: back ∧
    process'.chunkRequest <+: chunk.text ∧ process'.chunkRequest ≠ chunk.text
  untouched : done = [] → process'.filesOf client.clientId = files

theorem ChunkedRequest.first_cases
    (h : ChunkedRequest area process client head parsed) {path : Str}
    (hname : FreeName process directory extension path)
    {chunks : List Chunk} (hchunks : ∀ chunk ∈ chunks, ReadableChunk chunk)
    (hne : content chunks ≠ []) {first : Str}
    (hbegins : first <+: encodeChunks chunks) :
    (∃ process' client' done more,
      receive process client (head ++ first) = .ok (process', client') ∧
      chunks = done ++ more ∧
      FirstWaits area client parsed (process.filesOf client.clientId) path
        first done more process' client') ∨
    (∃ process' client',
      receive process client (head ++ first) = .ok (process', client') ∧
      client'.allRecv = true ∧ client'.response.responseStatus = 201 ∧
      neededBytes parsed.request.contentLength chunks ≤ first.length ∧
      texts chunks <+: first ∧
      (content chunks.dropLast).length < parsed.request.contentLength ∧
      process'.filesOf client.clientId =
        process.filesOf client.clientId ++ [⟨path, content chunks⟩]) ∨
    (∃ before chunk after, chunks = before ++ chunk :: after ∧ after ≠ [] ∧
      parsed.request.contentLength ≤
        (content (before ++ [chunk])).length ∧
      ∀ process' client',
        receive process client (head ++ first) = .ok (process', client') →
        process'.filesOf client.clientId =
          process.filesOf client.clientId ++
            [⟨path, content (before ++ [chunk])⟩] ∧
        client'.allRecv = true) := by
  have hfresh := h.fresh
  let waiting := parsed.setSRequest first
  have hpost : ChunkedPost waiting := ⟨h.method, h.coding, h.single⟩
  have htarget : IsDirectory process.world parsed.request.path := by
    rw [h.target]
    exact area.target _ h.ready
  have hcall := h.receive_first htarget first
  rw [hpost.takeBody] at hcall
  have huploading : Uploading area process waiting
      (process.filesOf client.clientId) path [] := by
    refine .idle h.ready hname h.initial hfresh.file h.directory h.extension ?_
    rw [← hfresh.clientId]
    rfl
  have hreceived : process.chunkRequest ++ waiting.request.sRequest =
      first := by
    rw [h.chunks]
    rfl
  rcases chunkedCall_cases hcall huploading hfresh.open_ h.accepted
      hfresh.positive hchunks hne hreceived hbegins with
    ⟨process', client', hok, hwait⟩ | ⟨process', client', hok, hend⟩ |
      ⟨before, chunk, after, hsplit, hafter, -, hreached, hcut⟩
  · left
    obtain ⟨done, chunk, back, rest, hsplit, htext, hinside, hrestne, hrest,
      hnext, hless⟩ := hwait.split
    obtain ⟨file, sRequest, rfl⟩ := hwait.client
    obtain ⟨more, rfl, hmore⟩ := exists_of_append_last hsplit
    refine ⟨process', _, done, more, hok, rfl, ⟨⟨h.method, hfresh.index,
      hfresh.open_, h.accepted⟩, h.coding, h.single,
      hfresh.clientId, ⟨file, sRequest, rfl⟩, hfresh.keepAlive,
      hfresh.response, by rw [hrest]; exact htext, hnext, hless,
      ⟨chunk, back, hmore, hrest ▸ hinside, hrest ▸ hrestne⟩, ?_⟩⟩
    -- without a whole chunk nothing has been called
    rintro rfl
    obtain ⟨hsized, hlength⟩ := sized_of_append_last hchunks hmore
    have hpart : first = rest := htext
    obtain ⟨fuel, hbody⟩ := @chunked_eq W _ process waiting [] (by simp) first
      (by rw [hreceived]; rfl)
    have hwaits := chunkedLoop_waits waiting hsized hlength hinside hrestne
      (show (process.setChunks first).chunkRequest = rest from hpart) fuel
    have hquiet : answerCreated (process.setChunks first) waiting = waiting :=
      if_neg fun hall =>
        absurd (hall.1.symm.trans hfresh.open_) (by simp)
    rw [hbody] at hcall
    simp only [List.map_nil, postPieces, bind, Except.bind, hwaits,
      hquiet] at hcall
    obtain ⟨rfl, -⟩ := Prod.mk.inj (Except.ok.inj (hok.symm.trans hcall))
    rfl
  · right; left
    obtain ⟨file, sRequest, rfl⟩ := hend.client
    refine ⟨process', _, hok, by simp, by simp, ?_, ?_, hend.late, ?_⟩
    · unfold neededBytes
      rcases hend.received with rfl | ⟨hall, hwhole⟩
      · split
        · exact (hbegins.length_le.trans' (by simp))
        · exact Nat.le_refl _
      · rw [if_pos (show parsed.request.contentLength ≤
          (content chunks).length from hall)]
        exact hwhole.length_le
    · rcases hend.received with rfl | ⟨-, hwhole⟩
      · rw [texts_append]
        exact List.prefix_append _ _
      · exact hwhole
    · have hfiles := hend.files
      rw [show waiting.clientId = client.clientId from hfresh.clientId]
        at hfiles
      exact hfiles
  · right; right
    rw [show waiting.clientId = client.clientId from hfresh.clientId] at hcut
    exact ⟨before, chunk, after, hsplit, hafter, hreached, hcut⟩

theorem FirstWaits.part_length {files : List OutFile} {path first : Str}
    {done more : List Chunk} {process' : Process W} {client' : Client}
    (h : FirstWaits area client parsed files path first done more process'
      client') :
    ∃ chunk back, more ++ [.last] = chunk :: back ∧
      first.length < (texts done).length + chunk.text.length := by
  obtain ⟨chunk, back, hmore, hinside, hne⟩ := h.rest
  have hless : process'.chunkRequest.length < chunk.text.length :=
    lt_of_le_of_ne hinside.length_le fun hsame =>
      hne (hinside.eq_of_length hsame)
  refine ⟨chunk, back, hmore, ?_⟩
  rw [h.text, List.length_append]
  omega

theorem FirstWaits.short {files : List OutFile} {path first : Str}
    {done more : List Chunk} {process' : Process W} {client' : Client}
    (h : FirstWaits area client parsed files path first done more process'
      client') :
    first.length <
      neededBytes parsed.request.contentLength (done ++ more) := by
  obtain ⟨chunk, back, hmore, hlength⟩ := h.part_length
  have hpending := h.pending
  unfold neededBytes
  split
  · rename_i hreached
    cases more with
    | nil =>
        rw [List.append_nil] at hreached
        omega
    | cons next more =>
        obtain ⟨rfl, -⟩ := List.cons.inj hmore
        simp only [texts_append, texts_cons, List.length_append]
        omega
  · have hcoded : encodeChunks (done ++ more) =
        texts done ++ (chunk.text ++ texts back) := by
      rw [encodeChunks, List.append_assoc, hmore, texts_append, texts_cons]
    rw [hcoded]
    simp only [List.length_append]
    omega

theorem FirstWaits.untouched_iff {files : List OutFile} {path first : Str}
    {done more : List Chunk} {process' : Process W} {client' : Client}
    (h : FirstWaits area client parsed files path first done more process'
      client') (hne : done ++ more ≠ []) :
    done = [] ↔ first.length < (texts ((done ++ more).take 1)).length := by
  obtain ⟨chunk, back, hmore, hlength⟩ := h.part_length
  cases done with
  | nil =>
      cases more with
      | nil => exact absurd rfl hne
      | cons next more =>
          obtain ⟨rfl, -⟩ := List.cons.inj hmore
          simpa using hlength
  | cons chunk' done =>
      have hfirst := congrArg List.length h.text
      simp only [texts_cons, List.length_append] at hfirst
      simp
      omega

section Waits

variable {path first : Str} {done more : List Chunk} {process₁ : Process W}
  {client₁ : Client}

theorem ChunkedRequest.not_uploads_script
    (h : ChunkedRequest area process client head parsed)
    (hwaits : FirstWaits area client parsed (process.filesOf client.clientId)
      path first done more process₁ client₁) {ex : Str}
    (hscript : scriptExtension? parsed.request.path = some ex)
    {rest : List Str} {process' : Process W} {client' : Client}
    (hfed : feed process₁ client₁ rest = .ok (process', client')) :
    client'.response.responseStatus ≠ 201 := by
  obtain ⟨file, sRequest, hrequest⟩ := hwaits.request
  have hlater : ForScript client₁ ex :=
    ⟨hwaits.method, hwaits.index, hwaits.keepAlive, by rw [hrequest]; exact
      hscript⟩
  intro hcreated
  have hinitial := (hlater.feed hfed).2 hcreated
  rw [hwaits.response, h.response] at hinitial
  exact absurd hinitial (by decide)

theorem ChunkedRequest.not_uploads_astray
    (h : ChunkedRequest area process client head parsed)
    (hname : FreeName process directory extension path)
    (hwaits : FirstWaits area client parsed (process.filesOf client.clientId)
      path first [] more process₁ client₁)
    (hscript : scriptExtension? parsed.request.path = none)
    (hdirectory : directory ≠ "./upload".toList) {rest : List Str}
    {process' : Process W} {client' : Client}
    (hfed : feed process₁ client₁ rest = .ok (process', client'))
    {bytes : Str} :
    process'.filesOf client.clientId ≠
      process.filesOf client.clientId ++ [⟨path, bytes⟩] := by
  obtain ⟨file, sRequest, hrequest⟩ := hwaits.request
  have hastray : Astray client₁ :=
    ⟨hwaits.toChunkedPost, hwaits.index, by rw [hrequest]; exact hscript⟩
  have hplaces := hastray.feed hfed
  have hextension : uploadExtension client₁.request = extension := by
    rw [← h.extension, hrequest]
    rfl
  rw [hwaits.clientId, hextension] at hplaces
  intro hfiles
  obtain ⟨i, hi⟩ := hplaces.filesOf (hwaits.untouched rfl) hfiles
  obtain ⟨found, -, hfound⟩ := hname
  exact hdirectory (generatedPath_directory h.plainDirectory (by decide)
    (hfound.symm.trans hi))

theorem ChunkedRequest.midway
    (h : ChunkedRequest area process client head parsed)
    (hwaits : FirstWaits area client parsed (process.filesOf client.clientId)
      path first done more process₁ client₁)
    (hchunks : ∀ chunk ∈ done ++ more, ReadableChunk chunk)
    (hne : content (done ++ more) ≠ [])
    (hplace : done ≠ [] ∨ directory = "./upload".toList) :
    Midway area process₁ client₁ (process.filesOf client.clientId) path
      (content done) more := by
  obtain ⟨file, sRequest, hrequest⟩ := hwaits.request
  obtain ⟨hdone, hmore⟩ := readable_append hchunks rfl
  refine ⟨hwaits.toWaiting, hwaits.coding, hwaits.single, ?_,
    hwaits.uploading, hplace.imp_left fun hsome => ?_, ?_, hwaits.rest, hmore,
    ?_⟩
  · rw [hrequest]
    exact h.target
  · obtain ⟨chunk, back, rfl⟩ := List.exists_cons_of_ne_nil hsome
    have hdata := (hdone chunk List.mem_cons_self).ne_nil
    rw [content_cons]
    exact fun hnil => hdata (List.append_eq_nil_iff.mp hnil).1
  · rw [hrequest]
    exact hwaits.pending
  · rw [← content_append]
    exact hne

end Waits

/-- The body reaches its file exactly when the announced length is reached with
the last chunk or not at all, a target that looks like a script gets all that
counts with the head, and any other directory than the default one at least
the first chunk. -/
theorem ChunkedRequest.uploads_iff
    (h : ChunkedRequest area process client head parsed) {path : Str}
    (hname : FreeName process directory extension path)
    {chunks : List Chunk} (hchunks : ∀ chunk ∈ chunks, ReadableChunk chunk)
    (hne : content chunks ≠ []) {first : Str} {rest : List Str}
    (hwire : first ++ rest.flatten = encodeChunks chunks) :
    Uploads process client ((head ++ first) :: rest)
        (process.filesOf client.clientId ++ [⟨path, content chunks⟩]) ↔
      (content chunks.dropLast).length < parsed.request.contentLength ∧
      (scriptExtension? parsed.request.path = none ∨
        neededBytes parsed.request.contentLength chunks ≤ first.length) ∧
      (directory = "./upload".toList ∨
        (texts (chunks.take 1)).length ≤ first.length) := by
  rcases h.first_cases hname hchunks hne ⟨_, hwire⟩ with
    ⟨process₁, client₁, done, more, hcall, rfl, hwaits⟩ |
    ⟨process₁, client₁, hcall, hall, hstatus, hneeded, hwhole, hlate, hfiles⟩ |
      ⟨before, chunk, after, rfl, hafter, hreached, hcut⟩
  · have hshort := hwaits.short
    have hsome : done ++ more ≠ [] := by
      rintro hnil
      rw [hnil] at hne
      exact hne rfl
    have hone : (texts ((done ++ more).take 1)).length ≤ first.length ↔
        done ≠ [] := by
      rw [← Nat.not_lt, ← hwaits.untouched_iff hsome]
    have hwire₁ : process₁.chunkRequest ++ rest.flatten =
        texts (more ++ [.last]) := by
      rw [hwaits.text, encodeChunks, List.append_assoc, List.append_assoc,
        texts_append done] at hwire
      exact List.append_cancel_left hwire
    obtain ⟨file, sRequest, hrequest⟩ := hwaits.request
    cases hscript : scriptExtension? parsed.request.path with
    | some ex =>
        refine iff_of_false ?_ fun hconditions => ?_
        · rintro ⟨process', client', hfed, -, hcreated, -⟩
          rw [feed_cons hcall] at hfed
          exact h.not_uploads_script hwaits hscript hfed hcreated
        · have hneeded := hconditions.2.1.resolve_left (by simp)
          omega
    | none =>
        by_cases hplace : done ≠ [] ∨ directory = "./upload".toList
        · have hmidway := h.midway hwaits hchunks hne hplace
          have hscript₁ : scriptExtension? client₁.request.path = none := by
            rw [hrequest]
            exact hscript
          have hlength : client₁.request.contentLength =
              parsed.request.contentLength := by
            rw [hrequest]
          have hdrop : more ≠ [] → (content (done ++ more).dropLast).length =
              (content done ++ content more.dropLast).length := by
            intro hmore
            rw [List.dropLast_append_of_ne_nil hmore, content_append]
          rw [hone, or_comm (a := directory = _), and_iff_left hplace,
            and_iff_left (Or.inl rfl)]
          constructor
          · rintro ⟨process', client', hfed, -, -, hfiles⟩
            by_contra hearly
            have hmore : more ≠ [] := by
              rintro rfl
              have hpending := hwaits.pending
              have hfewer := length_content_dropLast_le done
              rw [List.append_nil] at hearly
              omega
            rw [feed_cons hcall] at hfed
            refine hmidway.feed_cut hscript₁ ?_ hwire₁ hfed ?_
            · rw [hlength, ← hdrop hmore]
              omega
            · rw [hwaits.clientId, ← content_append]
              exact hfiles
          · intro hlate
            have hlate' : (content done ++ content more.dropLast).length <
                client₁.request.contentLength := by
              rw [hlength]
              by_cases hmore : more = []
              · subst hmore
                simpa using hwaits.pending
              · rw [← hdrop hmore]
                exact hlate
            obtain ⟨process', client', hrest, hall, hstatus, hfiles⟩ :=
              hmidway.feed_delivers hscript₁ hlate' hwire₁
            refine ⟨process', client', ?_, hall, hstatus, ?_⟩
            · rw [feed_cons hcall]
              exact hrest
            · rw [hwaits.clientId] at hfiles
              rw [content_append]
              exact hfiles
        · obtain ⟨hnone, hdirectory⟩ := not_or.mp hplace
          obtain rfl := not_not.mp hnone
          refine iff_of_false ?_ fun hconditions => ?_
          · rintro ⟨process', client', hfed, -, -, hfiles⟩
            rw [feed_cons hcall] at hfed
            exact h.not_uploads_astray hname hwaits hscript hdirectory hfed
              hfiles
          · rw [hone] at hconditions
            exact hplace hconditions.2.2.symm
  · -- all of it with the head
    refine iff_of_true ?_ ⟨hlate, .inr hneeded, .inr ?_⟩
    · refine ⟨process₁, client₁, ?_, hall, hstatus, hfiles⟩
      rw [feed_cons hcall]
      exact feed_of_allRecv hall rest
    · have hlength := hwhole.length_le
      rw [← List.take_append_drop 1 chunks, texts_append,
        List.length_append] at hlength
      omega
  · -- cut short
    refine iff_of_false ?_ fun hconditions => ?_
    · rintro ⟨process', client', hfed, -, -, hfiles⟩
      obtain ⟨process₁, client₁, hcall, hrest⟩ := feed_cons_ok hfed
      obtain ⟨hfiles₁, hall⟩ := hcut _ _ hcall
      rw [feed_of_allRecv hall] at hrest
      obtain ⟨rfl, -⟩ := Prod.mk.inj (Except.ok.inj hrest)
      rw [hfiles₁] at hfiles
      obtain ⟨-, hlast⟩ := List.append_inj' hfiles rfl
      have hsame := congrArg (List.map (·.content.length)) hlast
      have hless := length_content_cut hchunks hafter
      simp only [List.map_cons, List.map_nil, List.cons.injEq,
        and_true] at hsame
      omega
    · have hbefore := @length_content_before before after chunk hafter
      have hearly := hconditions.1
      omega

/-! The two ways to send a body, from the bytes of the heads on. -/

theorem BodyRequest.within_limit
    (h : BodyRequest process client head parsed) :
    parsed.request.contentLength ≤ parsed.serverClientObj.clientBodySize := by
  have hparse := h.parses
  rw [parseOnce_fresh h.request] at hparse
  obtain ⟨parts, located, haccepted⟩ := parseRequest_accepted hparse h.accepted
  exact (haccepted.length h.method).2

/-- A directory that a parsed request addresses, and the one that takes its
file. -/
structure Addresses (area : FileArea W target directory extension)
    (process : Process W) (parsed : Client) : Prop where
  plainDirectory : '\x00' ∉ directory
  target : parsed.request.path = target
  directory : uploadDirectory parsed.serverClientObj = directory
  extension : uploadExtension parsed.request = extension
  ready : area.ready process.world

structure IdleUploads (process : Process W) : Prop where
  post : process.post = {}
  chunks : process.chunkRequest = []
  parts : process.part = {}

theorem feed_one {buffer : Str} {process' : Process W} {client' : Client}
    (h : feed process client [buffer] = .ok (process', client')) :
    receive process client buffer = .ok (process', client') := by
  obtain ⟨process₁, client₁, hcall, hrest⟩ := feed_cons_ok h
  obtain ⟨rfl, rfl⟩ := Prod.mk.inj (Except.ok.inj hrest)
  exact hcall

theorem not_uploads_refused {world : W} {status : Int}
    (hrequest : client.request = {}) (hopen : client.allRecv = false)
    (hhead : CompleteHead head)
    (hparses : parseOnce process.world
      (client.setSRequest head).forgetLocation =
        .ok (setResponseError world parsed status))
    (hstatus : status ≠ 201) {first : Str} {rest : List Str}
    {files : List OutFile} :
    ¬Uploads process client ((head ++ first) :: rest) files := by
  have hcall : receive process client (head ++ first) = .ok (process,
      (((setResponseError world parsed status).setSRequest
        first).setAllRecv true)) := by
    unfold receive checkRequest
    rw [if_neg (by simp [hopen]), parseOnce_append hrequest hhead hparses]
    refine dispatchRequest_of_ready ?_
    change (setResponseError world parsed status).response.readyToSend = true
    simp
  rintro ⟨process', client', hfed, -, hcreated, -⟩
  rw [feed_cons hcall, feed_of_allRecv rfl] at hfed
  obtain ⟨-, rfl⟩ := Prod.mk.inj (Except.ok.inj hfed)
  have hkept : (setResponseError world parsed status).response.responseStatus =
      201 := hcreated
  rw [setResponseError_responseStatus] at hkept
  exact hstatus hkept

theorem encodeChunks_head? {chunks : List Chunk}
    (h : ∀ chunk ∈ chunks, ReadableChunk chunk) :
    (encodeChunks chunks).head? ≠ some '-' := by
  cases chunks with
  | nil => decide
  | cons chunk chunks =>
      have hdigits := (h chunk List.mem_cons_self).digits
      intro hfirst
      unfold encodeChunks at hfirst
      rw [List.cons_append, texts_cons, Chunk.text, Chunk.head] at hfirst
      cases hsize : chunk.size with
      | nil =>
          rw [hsize] at hfirst
          cases hfirst
      | cons c size =>
          rw [hsize] at hfirst hdigits
          have hdash : c = '-' := by simpa using hfirst
          have hdigit := hdigits c List.mem_cons_self
          rw [hdash] at hdigit
          revert hdigit
          decide

variable {plain chunked : RequestHead}

/-- In chunks a body is stored like with its length only when it is no
multipart body, some length is announced, which is reached with the last chunk
or not at all, a target that looks like a script gets all that counts with the
head, and any other directory than the default one the first chunk. -/
theorem recoded_uploads_iff (area : FileArea W target directory extension)
    (hplain : BodyRequest process client plain.text parsed)
    (hrecoded : Recoded plain chunked) (hresponse : client.response = {})
    (hidle : IdleUploads process)
    (haddresses : search? "boundary=".toList
      (parsed.request.getMapValues "Content-Type".toList) = none →
        Addresses area process parsed)
    {chunks : List Chunk} (hchunks : ∀ chunk ∈ chunks, ReadableChunk chunk)
    (hlength : plain.Announces (some (content chunks).length))
    {announced : Option Nat} (hannounced : chunked.Announces announced)
    (hlimit : ∀ n ∈ announced,
      0 < n ∧ n ≤ parsed.serverClientObj.clientBodySize)
    {reference : Process W} {answered : Client}
    (hreference : feed process client [plain.text ++ content chunks] =
      .ok (reference, answered))
    (hcreated : reference.filesOf client.clientId ≠
      process.filesOf client.clientId)
    {first : Str} {rest : List Str}
    (hwire : first ++ rest.flatten = encodeChunks chunks) :
    Uploads process client ((chunked.text ++ first) :: rest)
        (reference.filesOf client.clientId) ↔
      search? "boundary=".toList
        (parsed.request.getMapValues "Content-Type".toList) = none ∧
      ∃ n ∈ announced, (content chunks.dropLast).length < n ∧
        (scriptExtension? parsed.request.path = none ∨
          neededBytes n chunks ≤ first.length) ∧
        (uploadDirectory parsed.serverClientObj = "./upload".toList ∨
          (texts (chunks.take 1)).length ≤ first.length) := by
  have hfresh := hplain.fresh
  obtain ⟨hsize, hfields, hmissing, hparses⟩ := hrecoded.parses
    hplain.request hplain.parses hplain.accepted hplain.method hlength
  have hcomplete := hrecoded.formedChunked.complete
  cases announced with
  | none =>
      obtain ⟨unread, hrefused⟩ := hmissing hannounced
      refine iff_of_false ?_ fun hconditions => ?_
      · exact not_uploads_refused hplain.request hplain.open_ hcomplete
          hrefused (by decide)
      · obtain ⟨n, hn, -⟩ := hconditions.2
        cases hn
  | some n =>
      obtain ⟨hpositive, hlimited⟩ := hlimit n rfl
      have hparsed := hparses n hannounced hpositive hlimited
      let recoded := (parsed.setHeaders chunked.fields).setContentLength n
      have hcoded : recoded.request.getMapValues "Transfer-Encoding".toList =
          "chunked".toList := by
        unfold Request.getMapValues
        rw [show recoded.request.headersMap = chunked.fields from rfl,
          hrecoded.coded]
      have htype : recoded.request.getMapValues "Content-Type".toList =
          parsed.request.getMapValues "Content-Type".toList := by
        refine getMapValues_congr ?_
        rw [hfields]
        exact hrecoded.same _ (by decide) (by decide) (by decide)
      have hrequest : BodyRequest process client chunked.text recoded :=
        ⟨hcomplete, hplain.request, hplain.open_, hparsed, hplain.accepted,
          hplain.method, hplain.notScript⟩
      cases hmultipart : search? "boundary=".toList
          (parsed.request.getMapValues "Content-Type".toList) with
      | some position =>
          refine iff_of_false ?_ fun hconditions => by
            cases hconditions.1
          rintro ⟨process', client', hfed, -, -, hfiles⟩
          have hpost : PartsPost recoded :=
            ⟨hplain.method, hfresh.index, hcoded, by rw [htype, hmultipart]; rfl⟩
          have hkept := hpost.feed hrequest (by rw [hidle.parts])
            (by rw [hidle.parts]) (by rw [hwire]) (encodeChunks_head? hchunks)
            hfed client.clientId
          exact hcreated (hfiles.symm.trans hkept)
      | none =>
          have haddressed := haddresses hmultipart
          have hne : content chunks ≠ [] := by
            intro hnil
            have hpositive' := hfresh.positive
            rw [hsize, hnil] at hpositive'
            exact absurd hpositive' (by simp)
          have huncoded : parsed.request.getMapValues
              "Transfer-Encoding".toList ≠ "chunked".toList := by
            unfold Request.getMapValues
            rw [hfields, hrecoded.uncoded]
            decide
          have hreferred : PlainRequest area process client plain.text parsed :=
            ⟨hplain, huncoded, by rw [hmultipart]; simp, haddressed.target,
              haddressed.directory, haddressed.extension, hidle.post,
              haddressed.ready⟩
          -- the file of the reference has the name the chunks would get
          obtain ⟨path, process₁, client₁, hcall, hname, hstored, -⟩ :=
            hreferred.first_call (content chunks)
          obtain ⟨rfl, -⟩ := Prod.mk.inj (Except.ok.inj
            ((feed_one hreference).symm.trans hcall))
          have hextension : uploadExtension recoded.request = extension := by
            rw [← haddressed.extension]
            unfold uploadExtension
            rw [htype]
          have hchunked : ChunkedRequest area process client chunked.text
              recoded :=
            ⟨hrequest, hcoded, htype ▸ hmultipart, haddressed.plainDirectory,
              haddressed.target, haddressed.directory, hextension, hresponse,
              hidle.post, hidle.chunks, haddressed.ready⟩
          have hiff := hchunked.uploads_iff hname hchunks hne hwire
          rw [hstored, hiff, haddressed.directory]
          simp only [true_and, Option.mem_some_iff, exists_eq_left']
          rfl

end Requests

/-! Two bytes for a directory: with their length, with that length and in one
chunk, and in one chunk without a length. -/

def lengthHead : RequestHead where
  line := "POST /d HTTP/1.1".toList
  headers := ["Content-Length: 2".toList]

def chunkHead : RequestHead where
  line := "POST /d HTTP/1.1".toList
  headers := ["Content-Length: 2".toList,
    "Transfer-Encoding: chunked".toList]

def bareHead : RequestHead where
  line := "POST /d HTTP/1.1".toList
  headers := ["Transfer-Encoding: chunked".toList]

def twoChunk : Chunk := ⟨"2".toList, "ab".toList⟩

theorem readable_twoChunk : ∀ chunk ∈ [twoChunk], ReadableChunk chunk := by
  intro chunk hchunk
  rw [List.mem_singleton.mp hchunk]
  exact ⟨⟨by decide, by decide⟩, by decide, by decide⟩

theorem fields_lengthHead : lengthHead.fields =
    [(['\r'], "2".toList), ("Content-Length".toList, "2".toList)] := by
  decide +kernel

theorem fields_chunkHead : chunkHead.fields =
    [(['\r'], "chunked".toList), ("Content-Length".toList, "2".toList),
      ("Transfer-Encoding".toList, "chunked".toList)] := by
  decide +kernel

theorem fields_bareHead : bareHead.fields =
    [(['\r'], "chunked".toList),
      ("Transfer-Encoding".toList, "chunked".toList)] := by
  decide +kernel

theorem headerLine_of_head {line : Str} {c : Char} {rest : Str}
    (hline : line = c :: rest) (hbreak : '\n' ∉ line)
    (hplain : c ≠ '\r' ∧ c ≠ ':' ∧ c ≠ ' ') : HeaderLine line := by
  subst hline
  obtain ⟨hreturn, hcolon, hspace⟩ := hplain
  exact ⟨⟨hbreak, by simp, by simpa using hreturn⟩, by simpa using hcolon,
    by simpa using hspace⟩

theorem headerLine_length : HeaderLine "Content-Length: 2".toList :=
  headerLine_of_head rfl (by decide) (by decide)

theorem headerLine_coding : HeaderLine "Transfer-Encoding: chunked".toList :=
  headerLine_of_head rfl (by decide) (by decide)

theorem wellFormed_lengthHead : lengthHead.WellFormed where
  line := show '\n' ∉ "POST /d HTTP/1.1".toList by decide
  headers header hheader := by
    rw [List.mem_singleton.mp hheader]
    exact headerLine_length

theorem wellFormed_chunkHead : chunkHead.WellFormed where
  line := show '\n' ∉ "POST /d HTTP/1.1".toList by decide
  headers header hheader := by
    rcases List.mem_cons.mp hheader with rfl | hlast
    · exact headerLine_length
    · rw [List.mem_singleton.mp hlast]
      exact headerLine_coding

theorem wellFormed_bareHead : bareHead.WellFormed where
  line := show '\n' ∉ "POST /d HTTP/1.1".toList by decide
  headers header hheader := by
    rw [List.mem_singleton.mp hheader]
    exact headerLine_coding

theorem recoded_chunkHead : Recoded lengthHead chunkHead where
  line := rfl
  same key hlength hcoding hblank := by
    rw [fields_lengthHead, fields_chunkHead]
    simp only [lookup_cons_eq]
    rw [if_neg hblank, if_neg hblank, if_neg hlength, if_neg hlength,
      if_neg hcoding]
  uncoded := by
    rw [fields_lengthHead]
    decide
  coded := by
    rw [fields_chunkHead]
    decide
  formed := wellFormed_lengthHead
  formedChunked := wellFormed_chunkHead

theorem recoded_bareHead : Recoded lengthHead bareHead where
  line := rfl
  same key hlength hcoding hblank := by
    rw [fields_lengthHead, fields_bareHead]
    simp only [lookup_cons_eq]
    rw [if_neg hblank, if_neg hblank, if_neg hlength, if_neg hcoding]
  uncoded := by
    rw [fields_lengthHead]
    decide
  coded := by
    rw [fields_bareHead]
    decide
  formed := wellFormed_lengthHead
  formedChunked := wellFormed_bareHead

/-- With its length in both heads the body is stored alike. -/
theorem recoded_uploads_chunk :
    ∃ reference answered,
      feed (targetProcess "./d") (.connect 5 (targetBlock "/d"))
        [lengthHead.text ++ "ab".toList] = .ok (reference, answered) ∧
      Uploads (targetProcess "./d") (.connect 5 (targetBlock "/d"))
        [chunkHead.text ++ encodeChunks [twoChunk]]
        (reference.filesOf 5) := by
  obtain ⟨parsed, hrequest, hlength, hpath⟩ :=
    @targetRequest "/d" "./d" (by decide +kernel) (by decide +kernel)
      ⟨uploadReady_target (show Lexical.resolve "./d".toList =
        (false, 0, ["d".toList]) by decide), by decide +kernel⟩
  have htext : lengthHead.text = targetHead "/d" := by decide +kernel
  rw [← htext] at hrequest
  obtain ⟨path, reference, answered, hcall, -, hstored, -⟩ :=
    hrequest.first_call "ab".toList
  have hreference : feed (targetProcess "./d")
      (.connect 5 (targetBlock "/d")) [lengthHead.text ++ "ab".toList] =
        .ok (reference, answered) := by
    rw [feed_cons hcall]
    rfl
  have hannounced : lengthHead.Announces (some 2) :=
    ⟨"2".toList, by rw [fields_lengthHead]; decide, by decide⟩
  have hfields := (recoded_chunkHead.parses rfl hrequest.parses
    hrequest.accepted hrequest.method hannounced).2.1
  have hsingle : search? "boundary=".toList
      (parsed.request.getMapValues "Content-Type".toList) = none := by
    rw [Request.getMapValues, hfields, fields_lengthHead]
    decide
  have hlimit : 2 ≤ parsed.serverClientObj.clientBodySize := by
    rw [← hlength]
    exact hrequest.within_limit
  refine ⟨reference, answered, hreference, ?_⟩
  have hiff := @recoded_uploads_iff _ _ _ _ _ _ _ _ lengthHead chunkHead
    (nullArea "./d".toList) hrequest.toBodyRequest recoded_chunkHead rfl
    ⟨rfl, rfl, rfl⟩ (fun _ => ⟨by decide, hrequest.target,
      hrequest.directory, hrequest.extension, hrequest.ready⟩) [twoChunk]
    readable_twoChunk hannounced (some 2) ⟨"2".toList,
      by rw [fields_chunkHead]; decide, by decide⟩
    (fun n hn => by
      obtain rfl := Option.some.inj hn
      exact ⟨by decide, hlimit⟩)
    reference answered hreference (by rw [hstored]; simp)
    (encodeChunks [twoChunk]) [] (List.append_nil _)
  refine hiff.mpr ⟨hsingle, 2, rfl, by decide, .inl ?_, .inl ?_⟩
  · rw [hpath]
    decide +kernel
  · exact hrequest.directory

/-- Without a length the chunk is refused. -/
theorem recoded_fails_bare :
    Recoded lengthHead bareHead ∧ bareHead.Announces none ∧
      ((feed (targetProcess "./d") (.connect 5 (targetBlock "/d"))
        [lengthHead.text ++ "ab".toList]).toOption.map fun final =>
          (final.2.response.responseStatus,
            (final.1.filesOf 5).map (·.content))) =
              some (201, ["ab".toList]) ∧
      ∀ files, ¬Uploads (targetProcess "./d") (.connect 5 (targetBlock "/d"))
        [bareHead.text ++ encodeChunks [twoChunk]] files := by
  refine ⟨recoded_bareHead, ?_, by decide +kernel, ?_⟩
  · change bareHead.fields.lookup _ = none
    rw [fields_bareHead]
    decide
  rintro files ⟨process', client', hfed, -, hcreated, -⟩
  have hstatus : ((feed (targetProcess "./d") (.connect 5 (targetBlock "/d"))
      [bareHead.text ++ encodeChunks [twoChunk]]).toOption.map
        (·.2.response.responseStatus)) = some 400 := by
    decide +kernel
  rw [hfed] at hstatus
  change some client'.response.responseStatus = some 400 at hstatus
  rw [hcreated] at hstatus
  cases hstatus

end Webserv
