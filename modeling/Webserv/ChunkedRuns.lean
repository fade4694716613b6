import Webserv.ChunkedUpload

namespace Webserv

open Cxx Coding

/-! A chunked upload from its first buffer to its last. -/

section Calls

variable {W : Type} [Os W] {target directory extension : Str}
  {area : FileArea W target directory extension}
  {process : Process W} {client : Client} {files : List OutFile}
  {path bytes : Str}

/-- A `POST` whose body comes in chunks, and not in parts. -/
structure ChunkedPost (client : Client) : Prop where
  method : client.request.method = "POST".toList
  coding : client.request.getMapValues "Transfer-Encoding".toList =
    "chunked".toList
  single : search? "boundary=".toList
    (client.request.getMapValues "Content-Type".toList) = none

theorem ChunkedPost.takeBody (h : ChunkedPost client) (process : Process W) :
    takeBody process client = chunked process client := by
  unfold Webserv.takeBody
  simp only
  rw [if_neg (by rw [h.single]; simp), if_pos h.coding]

/-- One buffer, handed to `chunked` with the record `waiting`, ends in one of
three ways. -/
theorem chunkedCall_cases {waiting : Client} {buffer received : Str}
    (hcall : receive process client buffer = (do
      let (process, client) ← chunked process waiting
      return (process, answerCreated process client)))
    (h : Uploading area process waiting files path bytes)
    (hopen : waiting.allRecv = false)
    (hready : waiting.response.readyToSend = false)
    (hpending : bytes.length < waiting.request.contentLength)
    {left : List Chunk} (hleft : ∀ chunk ∈ left, ReadableChunk chunk)
    (hbody : bytes ++ content left ≠ [])
    (hreceived : process.chunkRequest ++ waiting.request.sRequest = received)
    (hbegins : received <+: texts (left ++ [.last])) :
    (∃ process' client', receive process client buffer =
        .ok (process', client') ∧
      ChunksWait area process waiting files path bytes left received process'
        client') ∨
    (∃ process' client', receive process client buffer =
        .ok (process', setResponseError process'.world client' 201) ∧
      ChunksEnd process waiting files path bytes left received process'
        client') ∨
    (∃ before chunk after, left = before ++ chunk :: after ∧ after ≠ [] ∧
      (bytes ++ content before).length < waiting.request.contentLength ∧
      waiting.request.contentLength ≤
        (bytes ++ content (before ++ [chunk])).length ∧
      ∀ process' client', receive process client buffer =
          .ok (process', client') →
        process'.filesOf waiting.clientId =
          files ++ [⟨path, bytes ++ content (before ++ [chunk])⟩] ∧
        client'.allRecv = true) := by
  rcases h.chunked hpending hleft hbody hreceived hbegins with
    ⟨process', client', hchunked, hwait⟩ | ⟨process', client', hchunked, hend⟩
      | ⟨before, chunk, after, hsplit, hafter, hbefore, hreached, hcut⟩
  · left
    refine ⟨process', client', ?_, hwait⟩
    obtain ⟨file, sRequest, rfl⟩ := hwait.client
    rw [hcall, hchunked]
    have hquiet : answerCreated process' ((waiting.setFile file).setSRequest
        sRequest) = (waiting.setFile file).setSRequest sRequest :=
      if_neg fun hall => by
        have htrue : waiting.allRecv = true := hall.1
        rw [hopen] at htrue
        cases htrue
    simp only [bind, Except.bind, hquiet]
    rfl
  · right; left
    refine ⟨process', client', ?_, hend⟩
    obtain ⟨file, sRequest, rfl⟩ := hend.client
    rw [hcall, hchunked]
    have hanswer : answerCreated process' (((waiting.setFile
        file).setSRequest sRequest).setAllRecv true) =
          setResponseError process'.world (((waiting.setFile
            file).setSRequest sRequest).setAllRecv true) 201 :=
      if_pos ⟨rfl, hready⟩
    simp only [bind, Except.bind, hanswer]
    rfl
  · right; right
    refine ⟨before, chunk, after, hsplit, hafter, hbefore, hreached,
      fun process' client' hok => ?_⟩
    rw [hcall] at hok
    obtain ⟨⟨process₁, client₁⟩, hchunked, hanswer⟩ := bind_ok hok
    obtain ⟨rfl, rfl⟩ := Prod.mk.inj (Except.ok.inj hanswer)
    obtain ⟨hfiles, hall⟩ := hcut _ _ hchunked
    refine ⟨hfiles, ?_⟩
    unfold answerCreated
    split
    · simp
    · exact hall

/-- Neither the buffer nor the location matters to a file that is open; one
that is still to be opened goes to the default directory. -/
theorem Uploading.later (h : Uploading area process client files path bytes)
    (hplace : bytes ≠ [] ∨ directory = "./upload".toList) (buffer : Str) :
    Uploading area process (client.setSRequest buffer).forgetLocation files
      path bytes := by
  cases h with
  | idle hready hname hpost hfile hdirectory hextension hfiles =>
      have hdefault := hplace.resolve_left (fun hne => hne rfl)
      exact .idle hready hname hpost hfile hdefault.symm hextension hfiles
  | writing htaking hpost hfile hfiles =>
      exact .writing htaking hpost hfile hfiles

structure Midway (area : FileArea W target directory extension)
    (process : Process W) (client : Client) (files : List OutFile)
    (path bytes : Str) (left : List Chunk) : Prop
    extends Waiting client, ChunkedPost client where
  target : client.request.path = target
  uploading : Uploading area process client files path bytes
  place : bytes ≠ [] ∨ directory = "./upload".toList
  pending : bytes.length < client.request.contentLength
  rest : ∃ chunk back, left ++ [.last] = chunk :: back ∧
    process.chunkRequest <+: chunk.text ∧ process.chunkRequest ≠ chunk.text
  readable : ∀ chunk ∈ left, ReadableChunk chunk
  body : bytes ++ content left ≠ []

theorem Midway.receive_cases {left : List Chunk}
    (h : Midway area process client files path bytes left)
    (hscript : scriptExtension? client.request.path = none) {buffer : Str}
    (hbegins : process.chunkRequest ++ buffer <+: texts (left ++ [.last])) :
    (∃ process' client' done more,
      receive process client buffer = .ok (process', client') ∧
      left = done ++ more ∧
      process.chunkRequest ++ buffer = texts done ++ process'.chunkRequest ∧
      Midway area process' client' files path (bytes ++ content done) more ∧
      client'.clientId = client.clientId ∧
      client'.request.contentLength = client.request.contentLength) ∨
    (∃ process' client',
      receive process client buffer = .ok (process', client') ∧
      client'.allRecv = true ∧ client'.response.responseStatus = 201 ∧
      (bytes ++ content left.dropLast).length <
        client.request.contentLength ∧
      process'.filesOf client.clientId =
        files ++ [⟨path, bytes ++ content left⟩]) ∨
    (∃ before chunk after, left = before ++ chunk :: after ∧ after ≠ [] ∧
      client.request.contentLength ≤
        (bytes ++ content (before ++ [chunk])).length ∧
      ∀ process' client', receive process client buffer =
          .ok (process', client') →
        process'.filesOf client.clientId =
          files ++ [⟨path, bytes ++ content (before ++ [chunk])⟩] ∧
        client'.allRecv = true) := by
  have hpost : ChunkedPost (client.setSRequest buffer).forgetLocation :=
    ⟨h.method, h.coding, h.single⟩
  have htarget : IsDirectory process.world client.request.path := by
    rw [h.target]
    exact area.target _ h.uploading.ready
  have hcall := h.toWaiting.receive hscript htarget buffer
  rw [hpost.takeBody] at hcall
  rcases chunkedCall_cases hcall (h.uploading.later h.place buffer) h.open_
      h.unanswered h.pending h.readable h.body rfl hbegins with
    ⟨process', client', hok, hwait⟩ | ⟨process', client', hok, hend⟩ |
      ⟨before, chunk, after, hsplit, hafter, -, hreached, hcut⟩
  · left
    obtain ⟨done, chunk, back, rest, hsplit, htext, hinside, hne, hrest,
      huploading, hless⟩ := hwait.split
    obtain ⟨file, sRequest, rfl⟩ := hwait.client
    obtain ⟨more, rfl, hmore⟩ := exists_of_append_last hsplit
    refine ⟨process', _, done, more, hok, rfl, ?_, ?_, rfl, rfl⟩
    · rw [hrest]
      exact htext
    · refine ⟨⟨h.method, h.index, h.open_, h.unanswered⟩, h.coding, h.single,
        h.target, huploading, ?_, hless,
        ⟨chunk, back, hmore, hrest ▸ hinside, hrest ▸ hne⟩,
        (readable_append h.readable rfl).2, ?_⟩
      · refine h.place.imp_left fun hbytes hnil => hbytes ?_
        exact (List.append_eq_nil_iff.mp hnil).1
      · rw [List.append_assoc, ← content_append]
        exact h.body
  · right; left
    obtain ⟨file, sRequest, rfl⟩ := hend.client
    exact ⟨process', _, hok, by simp, by simp, hend.late, hend.files⟩
  · right; right
    exact ⟨before, chunk, after, hsplit, hafter, hreached, hcut⟩

/-! The buffers one after the other. -/

omit [Os W] in
theorem length_content_before {before after : List Chunk} {chunk : Chunk}
    (hafter : after ≠ []) :
    (content (before ++ [chunk])).length ≤
      (content (before ++ chunk :: after).dropLast).length := by
  have hsplit : (before ++ chunk :: after).dropLast =
      (before ++ [chunk]) ++ after.dropLast := by
    rw [List.append_cons, List.dropLast_append_of_ne_nil hafter]
  rw [hsplit, content_append _ after.dropLast, List.length_append]
  omega

theorem length_content_cut {before after : List Chunk} {chunk : Chunk}
    (h : ∀ chunk' ∈ before ++ chunk :: after, ReadableChunk chunk')
    (hafter : after ≠ []) :
    (content (before ++ [chunk])).length <
      (content (before ++ chunk :: after)).length := by
  obtain ⟨next, more, rfl⟩ := List.exists_cons_of_ne_nil hafter
  have hpos := (h next (by simp)).pos
  have hsplit : before ++ chunk :: next :: more =
      (before ++ [chunk]) ++ (next :: more) := by simp
  rw [hsplit, content_append _ (next :: more), content_cons]
  simp only [List.length_append]
  omega

theorem Midway.not_whole {left : List Chunk}
    (h : Midway area process client files path bytes left) :
    process.chunkRequest ≠ texts (left ++ [.last]) := by
  obtain ⟨chunk, back, hleft, hinside, hne⟩ := h.rest
  rw [hleft, texts_cons]
  intro hwhole
  rw [hwhole] at hinside
  have hlength := hinside.length_le
  rw [List.length_append] at hlength
  apply hne
  rw [hwhole, List.length_eq_zero_iff.mp (by omega : (texts back).length = 0),
    List.append_nil]

theorem Midway.feed_delivers {left : List Chunk}
    (h : Midway area process client files path bytes left)
    (hscript : scriptExtension? client.request.path = none)
    (hlate : (bytes ++ content left.dropLast).length <
      client.request.contentLength) {buffers : List Str}
    (hwire : process.chunkRequest ++ buffers.flatten =
      texts (left ++ [.last])) :
    ∃ process' client', feed process client buffers =
        .ok (process', client') ∧
      client'.allRecv = true ∧ client'.response.responseStatus = 201 ∧
      process'.filesOf client.clientId =
        files ++ [⟨path, bytes ++ content left⟩] := by
  induction buffers generalizing process client bytes left with
  | nil =>
      rw [List.flatten_nil, List.append_nil] at hwire
      exact absurd hwire h.not_whole
  | cons buffer buffers ih =>
      rw [List.flatten_cons, ← List.append_assoc] at hwire
      rcases h.receive_cases hscript ⟨_, hwire⟩ with
        ⟨process₁, client₁, done, more, hok, rfl, htext, hnext, hid,
          hlength⟩ |
        ⟨process₁, client₁, hok, hall, hstatus, -, hfiles⟩ |
        ⟨before, chunk, after, rfl, hafter, hreached, -⟩
      · have hlate' : (bytes ++ content done ++
            content more.dropLast).length <
              client₁.request.contentLength := by
          cases more with
          | nil => simpa using hnext.pending
          | cons next more =>
              rw [List.dropLast_append_of_ne_nil (by simp),
                content_append, ← List.append_assoc] at hlate
              rw [hlength]
              exact hlate
        have hwire' : process₁.chunkRequest ++ buffers.flatten =
            texts (more ++ [.last]) := by
          rw [htext, List.append_assoc, List.append_assoc,
            texts_append done] at hwire
          exact List.append_cancel_left hwire
        have hscript' : scriptExtension? client₁.request.path = none := by
          rw [hnext.target, ← h.target]
          exact hscript
        obtain ⟨process', client', hrest, hall, hstatus, hfiles⟩ :=
          ih hnext hscript' hlate' hwire'
        refine ⟨process', client', ?_, hall, hstatus, ?_⟩
        · rw [feed_cons hok]
          exact hrest
        · rw [hid, List.append_assoc, ← content_append] at hfiles
          exact hfiles
      · refine ⟨process₁, client₁, ?_, hall, hstatus, hfiles⟩
        rw [feed_cons hok]
        exact feed_of_allRecv hall buffers
      · have hbefore := @length_content_before before after chunk hafter
        simp only [List.length_append] at hlate hreached
        omega

theorem Midway.feed_cut {left : List Chunk}
    (h : Midway area process client files path bytes left)
    (hscript : scriptExtension? client.request.path = none)
    (hearly : client.request.contentLength ≤
      (bytes ++ content left.dropLast).length) {buffers : List Str}
    (hwire : process.chunkRequest ++ buffers.flatten =
      texts (left ++ [.last])) {process' : Process W} {client' : Client}
    (hfed : feed process client buffers = .ok (process', client')) :
    process'.filesOf client.clientId ≠
      files ++ [⟨path, bytes ++ content left⟩] := by
  induction buffers generalizing process client bytes left with
  | nil =>
      rw [List.flatten_nil, List.append_nil] at hwire
      exact absurd hwire h.not_whole
  | cons buffer buffers ih =>
      rw [List.flatten_cons, ← List.append_assoc] at hwire
      obtain ⟨process₂, client₂, hfirst, hrest⟩ := feed_cons_ok hfed
      rcases h.receive_cases hscript ⟨_, hwire⟩ with
        ⟨process₁, client₁, done, more, hok, rfl, htext, hnext, hid,
          hlength⟩ |
        ⟨process₁, client₁, hok, hall, hstatus, hlate, hfiles⟩ |
        ⟨before, chunk, after, rfl, hafter, hreached, hcut⟩
      · obtain ⟨rfl, rfl⟩ :=
          Prod.mk.inj (Except.ok.inj (hok.symm.trans hfirst))
        have hearly' : client₁.request.contentLength ≤
            (bytes ++ content done ++ content more.dropLast).length := by
          cases more with
          | nil =>
              have hpending := hnext.pending
              have hfewer := length_content_dropLast_le done
              simp only [List.append_nil, List.length_append] at *
              omega
          | cons next more =>
              rw [List.dropLast_append_of_ne_nil (by simp),
                content_append, ← List.append_assoc] at hearly
              rw [hlength]
              exact hearly
        have hwire' : process₁.chunkRequest ++ buffers.flatten =
            texts (more ++ [.last]) := by
          rw [htext, List.append_assoc, List.append_assoc,
            texts_append done] at hwire
          exact List.append_cancel_left hwire
        have hscript' : scriptExtension? client₁.request.path = none := by
          rw [hnext.target, ← h.target]
          exact hscript
        have hcut := ih hnext hscript' hearly' hwire' hrest
        rw [hid, List.append_assoc, ← content_append] at hcut
        exact hcut
      · omega
      · obtain ⟨hfiles, hall⟩ := hcut _ _ hfirst
        rw [feed_of_allRecv hall] at hrest
        obtain ⟨rfl, rfl⟩ := Prod.mk.inj (Except.ok.inj hrest)
        rw [hfiles]
        intro hsame
        obtain ⟨-, hfile⟩ := List.append_inj' hsame rfl
        have hlengths := congrArg (List.map (·.content.length)) hfile
        have hshorter := length_content_cut h.readable hafter
        simp only [List.map_cons, List.map_nil, List.cons.injEq, and_true,
          List.length_append] at hlengths
        omega

end Calls

end Webserv
