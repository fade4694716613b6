import Webserv.ChunkedCgi
import Webserv.Upload
import Webserv.Machine.Run

namespace Webserv

open Cxx Coding

/-! The loop of `chunked` around any call in the place of
`hanlde_post_request`. -/

def Process.setChunks {W : Type} (process : Process W) (request : Str) :
    Process W :=
  { process with chunkRequest := request }

/-- What is called with the data of a chunk. -/
abbrev Handler (W : Type) :=
  Process W → Client → Except Fault (Process W × Client)

def eachBuffer {W : Type} (call : Handler W) (process : Process W)
    (client : Client) (buffers : List Str) :
    Except Fault (Process W × Client) :=
  Machine.run (fun state buffer => call state.1 (state.2.setSRequest buffer))
    (process, client) buffers

theorem eachBuffer_cons {W : Type} {call : Handler W}
    {process process' : Process W} {client client' : Client} {buffer : Str}
    (h : call process (client.setSRequest buffer) = .ok (process', client'))
    (rest : List Str) :
    eachBuffer call process client (buffer :: rest) =
      eachBuffer call process' client' rest := by
  rw [eachBuffer, Machine.run, h]
  rfl

section Loop

variable {W : Type}

def chunkedLoopWith (handle : Handler W) : Nat → Handler W
  | 0, _, _ => .error .diverges
  | fuel + 1, process, client =>
      match search? "\r\n".toList process.chunkRequest with
      | none => .ok (process, client)
      | some pos => do
          let line ← substr process.chunkRequest 0 (pos + 2)
          let size := sizeT (hexToInt line).toInt
          let tmp ← substrFrom process.chunkRequest (pos + 2)
          if tmp.length < sizeT (size + 2) then return (process, client)
          if size = 0 then
            return ({ process with chunkRequest := [] },
              client.setAllRecv true)
          let request ← substrFrom process.chunkRequest (pos + 2)
          let chunkData ← substr request 0 size
          let (process, client) ← handle
            { process with chunkRequest := request }
            (client.setSRequest chunkData)
          let request ← substrFrom process.chunkRequest (sizeT (size + 2))
          chunkedLoopWith handle fuel
            { process with chunkRequest := request } client

def chunkedWith (handle : Handler W) (process : Process W)
    (client : Client) : Except Fault (Process W × Client) :=
  let request := process.chunkRequest ++ client.request.sRequest
  chunkedLoopWith handle (request.length + 1)
    { process with chunkRequest := request } client

theorem chunkedLoop_eq_with [Os W] (fuel : Nat) :
    @chunkedLoop W _ fuel = chunkedLoopWith hanldePostRequest fuel := by
  induction fuel with
  | zero => rfl
  | succ fuel ih =>
      funext process client
      rw [chunkedLoop, ih]
      rfl

theorem chunked_eq_with [Os W] :
    @chunked W _ = chunkedWith hanldePostRequest := by
  funext process client
  exact congrFun (congrFun (chunkedLoop_eq_with _) _) _

/-- A call that does not look at the static of `chunked`. -/
def Oblivious (handle : Handler W) : Prop :=
  ∀ process client request, handle (process.setChunks request) client =
    (handle process client).map
      fun posted => (posted.1.setChunks request, posted.2)

def piecesWith (handle : Handler W) (process : Process W) (client : Client) :
    List Str → Except Fault (Process W × Client)
  | [] => .ok (process, client)
  | data :: rest => do
      let (process, client) ← handle process (client.setSRequest data)
      piecesWith handle process client rest

variable {handle : Handler W}

theorem Oblivious.piecesWith (h : Oblivious handle) (process : Process W)
    (client : Client) (pieces : List Str) (request : Str) :
    piecesWith handle (process.setChunks request) client pieces =
      (piecesWith handle process client pieces).map
        fun posted => (posted.1.setChunks request, posted.2) := by
  induction pieces generalizing process client with
  | nil => rfl
  | cons data rest ih =>
      rw [Webserv.piecesWith, Webserv.piecesWith, h]
      cases handle process (client.setSRequest data) with
      | error fault => rfl
      | ok posted => exact ih posted.1 posted.2

theorem sizeT_add_two {n : Nat} (h : n < 2 ^ 31) :
    sizeT ((n : Int) + 2) = n + 2 := by
  unfold sizeT
  omega

theorem substrFrom_behind (chunk : Chunk) (rest : Str) :
    substrFrom (chunk.data ++ (crlf ++ rest)) (chunk.data.length + 2) =
      .ok rest := by
  have hbreak : (chunk.data ++ crlf).length = chunk.data.length + 2 := by
    simp [crlf]
  rw [← List.append_assoc, ← hbreak, substrFrom_ok (by simp), List.drop_left]

theorem chunkedLoopWith_chunk (hhandle : Oblivious handle)
    {process : Process W} (client : Client) {chunk : Chunk}
    (h : ReadableChunk chunk) {rest : Str}
    (hrequest : process.chunkRequest = chunk.text ++ rest) (fuel : Nat) :
    chunkedLoopWith handle (fuel + 1) process client = (do
      let (process, client) ← handle process (client.setSRequest chunk.data)
      chunkedLoopWith handle fuel (process.setChunks rest) client) := by
  have hpos := h.pos
  have hskip := sizeT_add_two h.length
  have hsplit : chunk.text ++ rest =
      chunk.head ++ (chunk.data ++ (crlf ++ rest)) := by
    simp [Chunk.text]
  have hroom : (chunk.data ++ (crlf ++ rest)).length ≥
      chunk.data.length + 2 := by
    simp [crlf]
  rw [chunkedLoopWith, hrequest, hsplit, search_head h.toSized]
  simp only [substr_zero, take_head, substrFrom_head, bind, Except.bind,
    sizeT_hexToInt h.toSized h.length, hskip]
  rw [if_neg (by omega), if_neg (by omega)]
  simp only [List.take_left]
  have hpost := hhandle process (client.setSRequest chunk.data)
    (chunk.data ++ (crlf ++ rest))
  unfold Process.setChunks at hpost
  rw [hpost]
  cases handle process (client.setSRequest chunk.data) with
  | error fault => rfl
  | ok posted =>
      simp only [Except.map, substrFrom_behind]
      rfl

theorem chunkedLoopWith_done (hhandle : Oblivious handle)
    {process : Process W} (client : Client) {done : List Chunk}
    (h : ∀ chunk ∈ done, ReadableChunk chunk) {rest : Str}
    (hrequest : process.chunkRequest = texts done ++ rest) {fuel : Nat}
    (hfuel : done.length ≤ fuel) :
    chunkedLoopWith handle fuel process client = (do
      let (process, client) ←
        piecesWith handle process client (done.map Chunk.data)
      chunkedLoopWith handle (fuel - done.length) (process.setChunks rest)
        client) := by
  induction done generalizing process client fuel with
  | nil =>
      have hsame : process.setChunks rest = process := by
        unfold Process.setChunks
        rw [texts_nil, List.nil_append] at hrequest
        rw [← hrequest]
      simp only [List.map_nil, Webserv.piecesWith, bind, Except.bind, hsame]
      rfl
  | cons chunk done ih =>
      obtain ⟨fuel, rfl⟩ : ∃ less, fuel = less + 1 :=
        ⟨fuel - 1, by simp at hfuel; omega⟩
      rw [texts_cons, List.append_assoc] at hrequest
      rw [chunkedLoopWith_chunk hhandle client (h chunk List.mem_cons_self)
        hrequest, List.map_cons, Webserv.piecesWith]
      cases handle process (client.setSRequest chunk.data) with
      | error fault => rfl
      | ok posted =>
          simp only [bind, Except.bind]
          rw [@ih (posted.1.setChunks (texts done ++ rest)) posted.2
            (fun other hother => h other (List.mem_cons_of_mem _ hother))
            rfl fuel (by simpa using hfuel), hhandle.piecesWith]
          cases Webserv.piecesWith handle posted.1 posted.2
              (done.map Chunk.data) with
          | error fault => rfl
          | ok final =>
              simp only [Except.map, bind, Except.bind, List.length_cons,
                Nat.add_sub_add_right]
              rfl

theorem chunkedLoopWith_waits {process : Process W} (client : Client)
    {chunk : Chunk} (hsized : chunk.Sized)
    (hlength : chunk.data.length < 2 ^ 31) {rest : Str}
    (hinside : rest <+: chunk.text) (hne : rest ≠ chunk.text)
    (hrequest : process.chunkRequest = rest) (fuel : Nat) :
    chunkedLoopWith handle (fuel + 1) process client =
      .ok (process, client) := by
  have hskip := sizeT_add_two hlength
  -- with the size line the loop gets as far as the length check
  have hwaits : ∀ tmp, rest = chunk.head ++ tmp →
      tmp.length < chunk.data.length + 2 →
        chunkedLoopWith handle (fuel + 1) process client =
          .ok (process, client) := by
    rintro tmp rfl hless
    rw [chunkedLoopWith, hrequest, search_head hsized]
    simp only [substr_zero, take_head, substrFrom_head, bind, Except.bind,
      sizeT_hexToInt hsized hlength, hskip]
    rw [if_pos hless]
    rfl
  cases text_prefix_cases hinside hne with
  | inl hshort =>
      cases hshort.cases with
      | inl hline =>
          have hbreak : '\n' ∉ rest := by
            intro hmem
            have hmem' := hline.subset hmem
            simp [hsized.noBreak] at hmem'
          have habsent : search? "\r\n".toList rest = none := by
            apply search?_eq_none_iff.mpr
            intro hoccurs
            exact hbreak (hoccurs.subset (by simp))
          rw [chunkedLoopWith, hrequest, habsent]
      | inr hdata =>
          obtain ⟨data, heq, hless⟩ := hdata
          exact hwaits data heq (by omega)
  | inr hhalf =>
      obtain ⟨more, hstarts, hcut, heq⟩ := hhalf
      have hless : more.length < crlf.length :=
        lt_of_le_of_ne hstarts.length_le fun hsame =>
          hcut (hstarts.eq_of_length hsame)
      have htwo : crlf.length = 2 := rfl
      refine hwaits (chunk.data ++ more) (by rw [heq, List.append_assoc]) ?_
      rw [List.length_append]
      omega

theorem chunkedLoopWith_last {process : Process W} (client : Client)
    (hrequest : process.chunkRequest = Chunk.last.text) (fuel : Nat) :
    chunkedLoopWith handle (fuel + 1) process client =
      .ok (process.setChunks [], client.setAllRecv true) := by
  have hsize := sizeT_hexToInt sized_last (by decide)
  have hsplit : Chunk.last.text = Chunk.last.head ++ crlf := by
    simp [Chunk.text, Chunk.last]
  rw [chunkedLoopWith, hrequest, hsplit, search_head sized_last]
  simp only [substr_zero, take_head, substrFrom_head, bind, Except.bind,
    hsize]
  rw [if_neg (by decide), if_pos (by rfl)]
  rfl

theorem texts_prefix_split {chunks : List Chunk} {received : Str}
    (h : received <+: texts chunks) :
    received = texts chunks ∨ ∃ done chunk back rest,
      chunks = done ++ chunk :: back ∧ received = texts done ++ rest ∧
        rest <+: chunk.text ∧ rest ≠ chunk.text := by
  have hbreak : 0 < crlf.length := by decide
  rcases texts_prefix_cases h with
    rfl | ⟨done, chunk, back, rest, hchunks, hstarts, hne, rfl⟩ |
      ⟨done, chunk, back, rest, hchunks, hshort, rfl⟩
  · exact .inl rfl
  · refine .inr ⟨done, chunk, back, _, hchunks, rfl, ?_, ?_⟩
    · exact (List.prefix_append_right_inj _).mpr hstarts
    · exact fun heq => hne (List.append_cancel_left heq)
  · refine .inr ⟨done, chunk, back, rest, hchunks, rfl, ?_, ?_⟩
    · exact hshort.1.trans (List.prefix_append _ _)
    · rintro rfl
      have hlength := hshort.1.length_le
      simp only [Chunk.text, List.length_append] at hlength
      omega

theorem chunkedWith_done (hhandle : Oblivious handle)
    {process : Process W} {client : Client} {done : List Chunk}
    (h : ∀ chunk ∈ done, ReadableChunk chunk) {rest : Str}
    (hrequest : process.chunkRequest ++ client.request.sRequest =
      texts done ++ rest) :
    ∃ fuel, chunkedWith handle process client = (do
      let (process, client) ←
        piecesWith handle process client (done.map Chunk.data)
      chunkedLoopWith handle (fuel + 1) (process.setChunks rest)
        client) := by
  have hlength := length_le_texts done
  have htotal := congrArg List.length hrequest
  simp only [List.length_append] at htotal
  refine ⟨(texts done ++ rest).length - done.length, ?_⟩
  unfold chunkedWith
  simp only
  rw [hrequest]
  change chunkedLoopWith handle _ (process.setChunks (texts done ++ rest))
    client = _
  rw [@chunkedLoopWith_done W handle hhandle
    (process.setChunks (texts done ++ rest)) client done h rest rfl _
    (by rw [List.length_append]; omega), hhandle.piecesWith]
  have hfuel : (texts done ++ rest).length + 1 - done.length =
      (texts done ++ rest).length - done.length + 1 := by
    rw [List.length_append]
    omega
  cases Webserv.piecesWith handle process client (done.map Chunk.data) with
  | error fault => rfl
  | ok posted =>
      simp only [Except.map, bind, Except.bind, hfuel]
      rfl

end Loop

end Webserv
