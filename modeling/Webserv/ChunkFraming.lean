import Webserv.ChunkLoop

namespace Webserv

open Cxx Coding

/-! `chunked` on a chunked body that is cut into buffers anywhere. -/

section Calls

variable {W : Type} {handle : Handler W}

/-- What a call makes of a beginning of a chunked body: the data of its whole
chunks is handed on, and the rest kept; with the last chunk the body ends. -/
theorem chunkedWith_cases (hhandle : Oblivious handle) {left : List Chunk}
    (hleft : ∀ chunk ∈ left, ReadableChunk chunk) {process : Process W}
    {client : Client}
    (hrequest : process.chunkRequest ++ client.request.sRequest <+:
      encodeChunks left) :
    (process.chunkRequest ++ client.request.sRequest = encodeChunks left ∧
      chunkedWith handle process client = (do
        let (process, client) ←
          piecesWith handle process client (left.map Chunk.data)
        return (process.setChunks [], client.setAllRecv true))) ∨
    ∃ done more rest, left = done ++ more ∧
      process.chunkRequest ++ client.request.sRequest = texts done ++ rest ∧
      rest <+: encodeChunks more ∧ rest ≠ encodeChunks more ∧
      chunkedWith handle process client = (do
        let (process, client) ←
          piecesWith handle process client (done.map Chunk.data)
        return (process.setChunks rest, client)) := by
  rcases texts_prefix_split hrequest with
    hwhole | ⟨done, chunk, back, rest, hsplit, hreceived, hinside, hne⟩
  · refine .inl ⟨hwhole, ?_⟩
    have htext : texts (left ++ [.last]) = texts left ++ Chunk.last.text := by
      simp
    obtain ⟨fuel, hcall⟩ :=
      chunkedWith_done hhandle hleft (hwhole.trans htext)
    rw [hcall]
    cases piecesWith handle process client (left.map Chunk.data) with
    | error fault => rfl
    | ok posted =>
        exact @chunkedLoopWith_last W handle
          (posted.1.setChunks Chunk.last.text) posted.2 rfl fuel
  · obtain ⟨more, rfl, hmore⟩ := exists_of_append_last hsplit
    have hdone : ∀ chunk ∈ done, ReadableChunk chunk :=
      fun other hother => hleft other (List.mem_append_left _ hother)
    obtain ⟨fuel, hcall⟩ := chunkedWith_done hhandle hdone hreceived
    obtain ⟨hsized, hlength⟩ := sized_of_append_last
      (fun other hother => hleft other (List.mem_append_right _ hother)) hmore
    have hencoded : encodeChunks more = chunk.text ++ texts back := by
      rw [encodeChunks, hmore, texts_cons]
    refine .inr ⟨done, more, rest, rfl, hreceived, ?_, ?_, ?_⟩
    · rw [hencoded]
      exact hinside.trans (List.prefix_append _ _)
    · rw [hencoded]
      intro hsame
      refine hne (hinside.eq_of_length_le ?_)
      rw [hsame]
      simp
    · rw [hcall]
      cases piecesWith handle process client (done.map Chunk.data) with
      | error fault => rfl
      | ok posted =>
          exact chunkedLoopWith_waits posted.2 hsized hlength hinside hne rfl
            fuel

end Calls

section Recorder

variable {W : Type}

def recorder (process : Process W) (client : Client) :
    Except Fault (Process W × Client) :=
  .ok (process.log client (.writeUpload client.request.sRequest), client)

def record (client : Client) (data : Str) : Effect :=
  ⟨client.clientId, .writeUpload data⟩

theorem recorder_oblivious : Oblivious (@recorder W) :=
  fun _ _ _ => rfl

theorem piecesWith_recorder (process : Process W) (client : Client)
    (pieces : List Str) :
    ∃ process' client', piecesWith recorder process client pieces =
        .ok (process', client') ∧
      process'.effects = process.effects ++ pieces.map (record client) ∧
      client'.clientId = client.clientId ∧
      client'.allRecv = client.allRecv := by
  induction pieces generalizing process client with
  | nil => exact ⟨process, client, rfl, by simp, rfl, rfl⟩
  | cons data rest ih =>
      obtain ⟨process', client', hcall, heffects, hid, hall⟩ :=
        ih (process.log (client.setSRequest data) (.writeUpload data))
          (client.setSRequest data)
      refine ⟨process', client', hcall, ?_, hid, hall⟩
      rw [heffects, List.map_cons]
      exact List.append_assoc ..

theorem eachBuffer_nothing {process : Process W}
    (hidle : process.chunkRequest = []) (client : Client)
    {buffers : List Str} (h : buffers.flatten = []) :
    ∃ client', eachBuffer (chunkedWith recorder) process client buffers =
        .ok (process, client') ∧ client'.allRecv = client.allRecv := by
  induction buffers generalizing client with
  | nil => exact ⟨client, rfl, rfl⟩
  | cons buffer rest ih =>
      rw [List.flatten_cons, List.append_eq_nil_iff] at h
      obtain ⟨rfl, hrest⟩ := h
      have hcall : chunkedWith recorder process (client.setSRequest []) =
          .ok (process, client.setSRequest []) := by
        have hsame : process.setChunks [] = process := by
          unfold Process.setChunks
          rw [← hidle]
        unfold chunkedWith
        rw [hidle]
        change chunkedLoopWith recorder 1 (process.setChunks [])
          (client.setSRequest []) = _
        rw [chunkedLoopWith]
        change Except.ok (process.setChunks [], client.setSRequest []) = _
        rw [hsame]
      obtain ⟨client', hfeed, hall⟩ := ih (client.setSRequest []) hrest
      refine ⟨client', ?_, hall⟩
      rw [eachBuffer_cons hcall]
      exact hfeed

theorem eachBuffer_recorder {left : List Chunk}
    (hleft : ∀ chunk ∈ left, ReadableChunk chunk) {process : Process W}
    {client : Client} (hopen : client.allRecv = false)
    {buffers : List Str}
    (hpending : process.chunkRequest ≠ encodeChunks left)
    (hbuffers : process.chunkRequest ++ buffers.flatten <+:
      encodeChunks left) :
    ∃ process' client',
      eachBuffer (chunkedWith recorder) process client buffers =
        .ok (process', client') ∧
      (process.chunkRequest ++ buffers.flatten = encodeChunks left →
        process'.effects = process.effects ++
            (left.map Chunk.data).map (record client) ∧
          process'.chunkRequest = [] ∧ client'.allRecv = true) ∧
      (process.chunkRequest ++ buffers.flatten ≠ encodeChunks left →
        client'.allRecv = false) := by
  induction buffers generalizing left process client with
  | nil =>
      rw [List.flatten_nil, List.append_nil]
      exact ⟨process, client, rfl, fun hwhole => absurd hwhole hpending,
        fun _ => hopen⟩
  | cons buffer rest ih =>
      rw [List.flatten_cons, ← List.append_assoc] at hbuffers ⊢
      have hfirst : process.chunkRequest ++
          (client.setSRequest buffer).request.sRequest <+:
            encodeChunks left :=
        (List.prefix_append _ _).trans hbuffers
      rcases chunkedWith_cases recorder_oblivious hleft hfirst with
        ⟨hwhole, hcall⟩ | ⟨done, more, kept, rfl, hreceived, hinside, hne,
          hcall⟩
      · -- the body ends with this buffer
        change process.chunkRequest ++ buffer = encodeChunks left at hwhole
        rw [hwhole] at hbuffers ⊢
        have hnothing : rest.flatten = [] := by
          have hlength := hbuffers.length_le
          rw [List.length_append] at hlength
          exact List.length_eq_zero_iff.mp (by omega)
        obtain ⟨recorded, posted, hpieces, heffects, -, -⟩ :=
          piecesWith_recorder process (client.setSRequest buffer)
            (left.map Chunk.data)
        rw [hpieces] at hcall
        obtain ⟨client', hfeed, hall⟩ := eachBuffer_nothing
          (show (recorded.setChunks []).chunkRequest = [] from rfl)
          (posted.setAllRecv true) hnothing
        refine ⟨recorded.setChunks [], client', ?_, fun _ => ⟨heffects, rfl,
          hall⟩, fun hother => absurd (by rw [hnothing, List.append_nil])
            hother⟩
        rw [eachBuffer_cons hcall]
        exact hfeed
      · -- whole chunks are recorded, and the rest is kept
        change process.chunkRequest ++ buffer = texts done ++ kept
          at hreceived
        have hencoded : encodeChunks (done ++ more) =
            texts done ++ encodeChunks more := by
          rw [encodeChunks, encodeChunks, List.append_assoc, texts_append]
        obtain ⟨recorded, posted, hpieces, heffects, hid, hall⟩ :=
          piecesWith_recorder process (client.setSRequest buffer)
            (done.map Chunk.data)
        rw [hpieces] at hcall
        rw [hreceived, hencoded, List.append_assoc] at hbuffers ⊢
        obtain ⟨process', client', hfeed, hends, hwaits⟩ :=
          @ih more (fun chunk hchunk =>
            hleft chunk (List.mem_append_right _ hchunk))
            (recorded.setChunks kept) posted (hall.trans hopen) hne
            ((List.prefix_append_right_inj _).mp hbuffers)
        refine ⟨process', client', ?_, ?_, ?_⟩
        · rw [eachBuffer_cons hcall]
          exact hfeed
        · intro hwhole
          obtain ⟨hrecorded, hidle, hclosed⟩ :=
            hends (List.append_cancel_left hwhole)
          refine ⟨?_, hidle, hclosed⟩
          have hsame : record posted = record client := by
            funext data
            rw [record, record, hid]
            rfl
          rw [hrecorded, hsame, List.map_append, List.map_append]
          change recorded.effects ++ _ = _
          rw [heffects, List.append_assoc]
          rfl
        · exact fun hother => hwaits fun hsame =>
            hother (by
              rw [show kept ++ rest.flatten = encodeChunks more from hsame])

theorem encodeChunks_ne_nil (chunks : List Chunk) :
    encodeChunks chunks ≠ [] := by
  rw [encodeChunks, texts_append]
  simp [Chunk.text, Chunk.head, crlf]

/-- The chunks are recorded one by one, however their encoding is cut, and the
body ends with its last byte. -/
theorem chunked_records {chunks : List Chunk}
    (h : ∀ chunk ∈ chunks, ReadableChunk chunk) {process : Process W}
    (hidle : process.chunkRequest = []) {client : Client}
    (hopen : client.allRecv = false) {buffers front back : List Str}
    (hbuffers : buffers.flatten = encodeChunks chunks)
    (hcalls : buffers = front ++ back) :
    ∃ process' client',
      eachBuffer (chunkedWith recorder) process client front =
        .ok (process', client') ∧
      (client'.allRecv = true ↔ front.flatten = encodeChunks chunks) ∧
      (front.flatten = encodeChunks chunks →
        process'.chunkRequest = [] ∧
        process'.effects = process.effects ++
          (chunks.map Chunk.data).map (record client)) := by
  have hfront : front.flatten <+: encodeChunks chunks := by
    rw [← hbuffers, hcalls, List.flatten_append]
    exact List.prefix_append _ _
  obtain ⟨process', client', hfeed, hends, hwaits⟩ :=
    @eachBuffer_recorder W chunks h process client hopen front
      (by rw [hidle]; exact (encodeChunks_ne_nil chunks).symm)
      (by rw [hidle]; exact hfront)
  rw [hidle, List.nil_append] at hends hwaits
  refine ⟨process', client', hfeed, ⟨?_, fun hwhole => (hends hwhole).2.2⟩,
    fun hwhole => ⟨(hends hwhole).2.1, (hends hwhole).1⟩⟩
  intro hclosed
  by_contra hother
  rw [hwaits hother] at hclosed
  cases hclosed

end Recorder

theorem chunked_records_two :
    ∃ (process' : Process Unit) (client' : Client),
      eachBuffer (chunkedWith recorder) emptyProcess (.connect 5 {})
          ["1\r".toList, "\nx\r\n0\r\n\r\n".toList] =
        .ok (process', client') ∧ client'.allRecv = true := by
  have hchunks : ∀ chunk ∈ [(⟨"1".toList, "x".toList⟩ : Chunk)],
      ReadableChunk chunk := by
    intro chunk hchunk
    rw [List.mem_singleton.mp hchunk]
    exact ⟨⟨by decide, by decide⟩, by decide, by decide⟩
  obtain ⟨process', client', hfeed, hclosed, -⟩ := @chunked_records Unit
    [⟨"1".toList, "x".toList⟩] hchunks emptyProcess rfl (.connect 5 {}) rfl
    ["1\r".toList, "\nx\r\n0\r\n\r\n".toList] _ [] (by decide)
    (List.append_nil _).symm
  exact ⟨process', client', hfeed, hclosed.mpr (by decide)⟩

end Webserv
