import Webserv.BodyLimit
import Webserv.ChunkedUpload

namespace Webserv

open Cxx

/-! What the statics of `hanlde_post_request` and `chunked` hold behind a
buffer. -/

/-- What `chunked` finds in a text: the data of the complete chunks, the text
that is left, and whether the last chunk was there. -/
structure ChunksRead where
  pieces : List Str
  rest : Str
  last : Bool
  deriving DecidableEq, Repr

def readChunks : Nat → Str → ChunksRead
  | 0, request => ⟨[], request, false⟩
  | fuel + 1, request =>
      match search? "\r\n".toList request with
      | none => ⟨[], request, false⟩
      | some pos =>
          let size := sizeT (hexToInt (request.take (pos + 2))).toInt
          let rest := request.drop (pos + 2)
          if rest.length < sizeT (size + 2) then ⟨[], request, false⟩
          else if size = 0 then ⟨[], [], true⟩
          else
            let read := readChunks fuel (rest.drop (sizeT (size + 2)))
            { read with pieces := rest.take size :: read.pieces }

theorem readChunks_last {fuel : Nat} {request : Str}
    (h : (readChunks fuel request).last = true) :
    (readChunks fuel request).rest = [] := by
  induction fuel generalizing request with
  | zero => cases h
  | succ fuel ih =>
      rw [readChunks] at h ⊢
      split at h
      · cases h
      simp only at h ⊢
      split at h
      · cases h
      rename_i hlong
      rw [if_neg hlong]
      split at h
      · rename_i hzero
        rw [if_pos hzero]
      · rename_i hsize
        rw [if_neg hsize]
        exact ih h

/-- Whether a stream takes all bytes of each piece in turn. -/
def takesAll {W : Type} [Os W] (file : OFStream) (world : W) :
    List Str → Bool
  | [] => true
  | piece :: rest =>
      let put := file.put world piece
      !put.1.failed && takesAll put.1 put.2.1 rest

section Statics

variable {W : Type} [Os W] {process process' : Process W}
  {client client' : Client}

omit [Os W] in
theorem chunkedLoopWith_read {handle : Handler W} (hhandle : Oblivious handle)
    {fuel : Nat}
    (h : chunkedLoopWith handle fuel process client =
      .ok (process', client')) :
    ∃ posted answered,
      piecesWith handle process client
        (readChunks fuel process.chunkRequest).pieces =
          .ok (posted, answered) ∧
      process' =
        posted.setChunks (readChunks fuel process.chunkRequest).rest ∧
      client' = (if (readChunks fuel process.chunkRequest).last then
        answered.setAllRecv true else answered) := by
  induction fuel generalizing process client with
  | zero => cases h
  | succ fuel ih =>
      rw [chunkedLoopWith] at h
      rw [readChunks]
      cases hpos : search? "\r\n".toList process.chunkRequest with
      | none =>
          rw [hpos] at h
          obtain ⟨rfl, rfl⟩ := Prod.mk.inj (Except.ok.inj h)
          exact ⟨process, client, rfl, rfl, rfl⟩
      | some pos =>
          rw [hpos] at h
          obtain ⟨line, hline, h⟩ := bind_ok h
          obtain ⟨-, rfl⟩ := substr_eq_ok hline
          obtain ⟨tmp, htmp, h⟩ := bind_ok h
          obtain ⟨-, rfl⟩ := substrFrom_eq_ok htmp
          simp only [List.drop_zero] at h ⊢
          generalize sizeT (hexToInt (process.chunkRequest.take
            (pos + 2))).toInt = size at *
          split at h
          · rename_i hshort
            obtain ⟨rfl, rfl⟩ := Prod.mk.inj (Except.ok.inj h)
            rw [if_pos hshort]
            exact ⟨process, client, rfl, rfl, rfl⟩
          rename_i hlong
          rw [if_neg hlong]
          split at h
          · rename_i hzero
            obtain ⟨rfl, rfl⟩ := Prod.mk.inj (Except.ok.inj h)
            rw [if_pos hzero]
            exact ⟨process, client, rfl, rfl, rfl⟩
          rename_i hsize
          rw [if_neg hsize]
          obtain ⟨request, hrequest, h⟩ := bind_ok h
          obtain ⟨-, rfl⟩ := substrFrom_eq_ok hrequest
          obtain ⟨chunkData, hdata, h⟩ := bind_ok h
          obtain ⟨-, rfl⟩ := substr_eq_ok hdata
          obtain ⟨⟨written, client₁⟩, hpost, h⟩ := bind_ok h
          obtain ⟨rest, hrest, h⟩ := bind_ok h
          obtain ⟨-, rfl⟩ := substrFrom_eq_ok hrest
          -- the call does not see the static of the loop
          have hcalled : handle (process.setChunks
              (process.chunkRequest.drop (pos + 2))) (client.setSRequest
              ((process.chunkRequest.drop (pos + 2)).take size)) =
                .ok (written, client₁) := hpost
          rw [hhandle] at hcalled
          cases hfirst : handle process (client.setSRequest
              ((process.chunkRequest.drop (pos + 2)).take size)) with
          | error fault =>
              rw [hfirst] at hcalled
              cases hcalled
          | ok first =>
              rw [hfirst] at hcalled
              obtain ⟨rfl, rfl⟩ := Prod.mk.inj (Except.ok.inj hcalled)
              obtain ⟨posted, answered, hpieces, rfl, rfl⟩ := ih h
              have hrest := hhandle.piecesWith first.1 first.2
                (readChunks fuel ((process.chunkRequest.drop (pos + 2)).drop
                  (sizeT (size + 2)))).pieces
                ((process.chunkRequest.drop (pos + 2)).drop
                  (sizeT (size + 2)))
              replace hpieces := hrest.symm.trans hpieces
              cases hmore : piecesWith handle first.1 first.2
                  (readChunks fuel ((process.chunkRequest.drop
                    (pos + 2)).drop (sizeT (size + 2)))).pieces with
              | error fault =>
                  rw [hmore] at hpieces
                  cases hpieces
              | ok more =>
                  rw [hmore] at hpieces
                  obtain ⟨rfl, rfl⟩ := Prod.mk.inj (Except.ok.inj hpieces)
                  refine ⟨more.1, more.2, ?_, rfl, rfl⟩
                  rw [piecesWith, hfirst]
                  exact hmore

/-! One call of `hanlde_post_request`. -/

/-- There is no directory for the file that a first call would create. -/
def Refused (process : Process W) (client : Client) : Prop :=
  process.post.first = 0 ∧ (getFileName process.world client).2 = []

instance (process : Process W) (client : Client) :
    Decidable (Refused process client) :=
  inferInstanceAs (Decidable (_ ∧ _))

/-- The stream that a call writes to, and the world once it is there. -/
def uploadStream (process : Process W) (client : Client) :
    Except Fault (OFStream × W) :=
  if process.post.first = 0 then do
    let (fileName, _) ← ftGenerateFileNames process.world
      (uploadExtension client.request) (getFileName process.world client).2
      (Os.nameBound process.world + 1) process.index
    return client.request.file.openFile process.world (cStr fileName)
  else .ok (client.request.file, process.world)

theorem getFileName_block (world : W)
    (h : client'.serverClientObj = client.serverClientObj) :
    (getFileName world client').2 = (getFileName world client).2 := by
  unfold getFileName
  rw [h]
  simp only
  split
  · rfl
  split
  · rfl
  split <;> rfl

theorem hanldePostRequest_refused (hrefused : Refused process client)
    (h : hanldePostRequest process client = .ok (process', client')) :
    process'.post = {} ∧ client'.allRecv = true ∧
      Refused process' client' := by
  obtain ⟨hfirst, hdirectory⟩ := hrefused
  have hblock := (getFileName_served process process.world client).1.block
  unfold hanldePostRequest at h
  rw [if_pos hfirst] at h
  obtain ⟨⟨fileName, index⟩, -, h⟩ := bind_ok h
  simp only at h
  rw [if_pos hdirectory] at h
  obtain ⟨rfl, rfl⟩ := Prod.mk.inj (Except.ok.inj h)
  refine ⟨rfl, rfl, rfl, ?_⟩
  have hsame : ((getFileName process.world client).1.setAllRecv
      true).serverClientObj = client.serverClientObj := hblock
  exact (getFileName_block process.world hsame).trans hdirectory

/-- What any other call leads to, by what its stream does. -/
inductive Posted (writed : Nat) (client : Client) (stream : OFStream × W)
    (process' : Process W) (client' : Client) : Prop
  /-- The bytes did not all reach the file, which is closed. -/
  | stuck :
      (stream.1.put stream.2 client.request.sRequest).1.failed = true →
      process'.post.first ≠ 0 → client'.allRecv = client.allRecv →
      Posted writed client stream process' client'
  | complete :
      (stream.1.put stream.2 client.request.sRequest).1.failed = false →
      client.request.contentLength ≤
        writed + client.request.sRequest.length →
      process'.post = {} → client'.allRecv = true →
      Posted writed client stream process' client'
  | waits :
      (stream.1.put stream.2 client.request.sRequest).1.failed = false →
      writed + client.request.sRequest.length <
        client.request.contentLength →
      process'.post.first ≠ 0 →
      process'.post.writed = writed + client.request.sRequest.length →
      process'.world =
        (stream.1.put stream.2 client.request.sRequest).2.1 →
      client'.request.file =
        (stream.1.put stream.2 client.request.sRequest).1 →
      client'.allRecv = client.allRecv →
      Posted writed client stream process' client'

theorem nextPost_posted (hfirst : process.post.first ≠ 0)
    (hopen : client.request.file.isOpen = true) :
    Posted process.post.writed client (client.request.file, process.world)
      (nextPost process client).1 (nextPost process client).2 := by
  have hput : putUpload process client =
      (({ process with world := (client.request.file.put process.world
          client.request.sRequest).2.1 }).log client (.writeUpload
            (client.request.file.put process.world
              client.request.sRequest).2.2),
        client.setFile (client.request.file.put process.world
          client.request.sRequest).1) := rfl
  unfold nextPost
  rw [if_neg (by simp [hopen]), hput]
  simp only
  split
  · rename_i hfailed
    exact .stuck hfailed hfirst rfl
  rename_i hwritten
  have hwritten := (Bool.not_eq_true _).mp hwritten
  unfold finishPost
  split
  · rename_i hall
    exact .complete hwritten hall rfl rfl
  · rename_i hless
    exact .waits hwritten (Nat.lt_of_not_le hless) hfirst rfl rfl rfl rfl

theorem firstPost_posted (hfirst : process.post.first ≠ 0) (fileName : Str) :
    Posted process.post.writed client
      (client.request.file.openFile process.world (cStr fileName))
      (firstPost process client fileName).1
      (firstPost process client fileName).2 := by
  have hopened : openUpload process client (cStr fileName) =
      (({ process with world := (client.request.file.openFile process.world
          (cStr fileName)).2 }).log client (.openUpload (cStr fileName)
            (!(client.request.file.openFile process.world
              (cStr fileName)).1.failed)),
        client.setFile (client.request.file.openFile process.world
          (cStr fileName)).1) := rfl
  unfold firstPost
  rw [hopened]
  generalize client.request.file.openFile process.world (cStr fileName) =
    stream
  obtain ⟨file, world⟩ := stream
  simp only
  split
  · rename_i hclosed
    refine .stuck ?_ hfirst rfl
    by_contra hwritten
    have hopen := (OFStream.isOpen_of_put ((Bool.not_eq_true _).mp hwritten)).2
    exact Bool.false_ne_true (hclosed.symm.trans hopen)
  split
  · rename_i hfailed
    exact .stuck hfailed hfirst rfl
  rename_i hwritten
  have hwritten := (Bool.not_eq_true _).mp hwritten
  unfold finishPost
  split
  · rename_i hall
    exact .complete hwritten hall rfl rfl
  · rename_i hless
    exact .waits hwritten (Nat.lt_of_not_le hless) hfirst rfl rfl rfl rfl

theorem hanldePostRequest_posted (hrefused : ¬Refused process client)
    (hthere : process.post.first ≠ 0 → client.request.file.isOpen = true)
    (h : hanldePostRequest process client = .ok (process', client')) :
    ∃ stream, uploadStream process client = .ok stream ∧
      Posted process.post.writed client stream process' client' := by
  unfold hanldePostRequest at h
  unfold uploadStream
  split at h
  · rename_i hfirst
    rw [if_pos hfirst]
    have hdirectory : (getFileName process.world client).2 ≠ [] :=
      fun hempty => hrefused ⟨hfirst, hempty⟩
    have hfound := ((getFileName_served process process.world client).2
      hdirectory).1
    obtain ⟨⟨fileName, index⟩, hname, h⟩ := bind_ok h
    simp only at h
    rw [if_neg hdirectory, hfound] at h
    refine ⟨client.request.file.openFile process.world (cStr fileName), ?_, ?_⟩
    · simp only [hname, bind, Except.bind]
      rfl
    · have hposted := @firstPost_posted W _ { process with
        index := index
        post := { process.post with first := 10 } } client
        (Nat.succ_ne_zero 9) fileName
      rw [Except.ok.inj h] at hposted
      exact hposted
  · rename_i hfirst
    rw [if_neg hfirst]
    have hposted := nextPost_posted hfirst (hthere hfirst)
    rw [Except.ok.inj h] at hposted
    exact ⟨_, rfl, hposted⟩

/-! One call for each piece. -/

theorem uploadStream_setSRequest (process : Process W) (client : Client)
    (bytes : Str) :
    uploadStream process (client.setSRequest bytes) =
      uploadStream process client := by
  unfold uploadStream
  rw [getFileName_block process.world
    (show (client.setSRequest bytes).serverClientObj =
      client.serverClientObj from rfl)]
  rfl

theorem refused_setSRequest {bytes : Str} :
    Refused process (client.setSRequest bytes) ↔ Refused process client := by
  unfold Refused
  rw [getFileName_block process.world
    (show (client.setSRequest bytes).serverClientObj =
      client.serverClientObj from rfl)]

omit [Os W] in
theorem piecesWith_cons {handle : Handler W} {piece : Str}
    {rest : List Str} (h : piecesWith handle process client (piece :: rest) =
      .ok (process', client')) :
    ∃ posted answered,
      handle process (client.setSRequest piece) = .ok (posted, answered) ∧
        piecesWith handle posted answered rest = .ok (process', client') := by
  rw [piecesWith] at h
  obtain ⟨⟨posted, answered⟩, hcall, h⟩ := bind_ok h
  exact ⟨posted, answered, hcall, h⟩

theorem piecesWith_refused {pieces : List Str} (hne : pieces ≠ [])
    (hrefused : Refused process client)
    (h : piecesWith hanldePostRequest process client pieces =
      .ok (process', client')) :
    process'.post = {} ∧ client'.allRecv = true := by
  induction pieces generalizing process client with
  | nil => exact absurd rfl hne
  | cons piece rest ih =>
      obtain ⟨posted, answered, hcall, hrest⟩ := piecesWith_cons h
      obtain ⟨hpost, hall, hagain⟩ :=
        hanldePostRequest_refused (refused_setSRequest.mpr hrefused) hcall
      by_cases hlast : rest = []
      · subst hlast
        obtain ⟨rfl, rfl⟩ := Prod.mk.inj (Except.ok.inj hrest)
        exact ⟨hpost, hall⟩
      · exact ih hlast hagain hrest

/-- The pieces complete a body: the stream takes all of them, and they reach
the announced length. -/
def Completes (writed length : Nat) (stream : OFStream × W)
    (pieces : List Str) : Prop :=
  takesAll stream.1 stream.2 pieces = true ∧
    length ≤ writed + pieces.flatten.length

instance (writed length : Nat) (stream : OFStream × W)
    (pieces : List Str) : Decidable (Completes writed length stream pieces) :=
  inferInstanceAs (Decidable (_ ∧ _))

/-- When the pieces in front of the last one leave the file open and the body
incomplete, the statics are reset by the last one or not at all. -/
theorem piecesWith_posted {pieces : List Str} {stream : OFStream × W}
    (hne : pieces ≠ []) (hrefused : ¬Refused process client)
    (hthere : process.post.first ≠ 0 → client.request.file.isOpen = true)
    (hstream : uploadStream process client = .ok stream)
    (htaken : takesAll stream.1 stream.2 pieces.dropLast = true)
    (hshort : pieces.dropLast ≠ [] →
      process.post.writed + pieces.dropLast.flatten.length <
        client.request.contentLength)
    (h : piecesWith hanldePostRequest process client pieces =
      .ok (process', client')) :
    (Completes process.post.writed client.request.contentLength stream
        pieces ∧ process'.post = {} ∧ client'.allRecv = true) ∨
      (¬Completes process.post.writed client.request.contentLength stream
        pieces ∧ process'.post.first ≠ 0 ∧
          client'.allRecv = client.allRecv) := by
  induction pieces generalizing process client stream with
  | nil => exact absurd rfl hne
  | cons piece rest ih =>
      obtain ⟨posted, answered, hcall, hrest⟩ := piecesWith_cons h
      have hasked : ¬Refused process (client.setSRequest piece) :=
        fun hagain => hrefused (refused_setSRequest.mp hagain)
      obtain ⟨stream₁, hstream₁, hposted⟩ :=
        hanldePostRequest_posted hasked hthere hcall
      rw [uploadStream_setSRequest, hstream] at hstream₁
      obtain rfl := Except.ok.inj hstream₁
      have hlength : (client.setSRequest piece).request.contentLength =
        client.request.contentLength := rfl
      by_cases hlast : rest = []
      · subst hlast
        obtain ⟨rfl, rfl⟩ := Prod.mk.inj (Except.ok.inj hrest)
        cases hposted with
        | stuck hfailed hpost hall =>
            refine .inr ⟨fun hdone => ?_, hpost, hall⟩
            have htakes := hdone.1
            simp [takesAll, show (stream.1.put stream.2 piece).1.failed = true
              from hfailed] at htakes
        | complete hwritten hlong hpost hall =>
            refine .inl ⟨⟨?_, ?_⟩, hpost, hall⟩
            · simp [takesAll, show (stream.1.put stream.2 piece).1.failed =
                false from hwritten]
            · have hreached : client.request.contentLength ≤
                  process.post.writed + piece.length := hlong
              simpa using hreached
        | waits hwritten hless hpost _ _ _ hall =>
            refine .inr ⟨fun hdone => ?_, hpost, hall⟩
            have hlong := hdone.2
            simp only [List.flatten_cons, List.flatten_nil,
              List.append_nil] at hlong
            exact absurd hlong (Nat.not_le_of_lt hless)
      · rw [List.dropLast_cons_of_ne_nil hlast] at htaken hshort
        simp only [takesAll, Bool.and_eq_true, Bool.not_eq_true'] at htaken
        have hshort := hshort (List.cons_ne_nil _ _)
        simp only [List.flatten_cons, List.length_append] at hshort
        cases hposted with
        | stuck hfailed hpost hall =>
            exact absurd (htaken.1.symm.trans hfailed) (by decide)
        | complete hwritten hlong hpost hall =>
            have hless : piece.length = (client.setSRequest
              piece).request.sRequest.length := rfl
            omega
        | waits hwritten hless hpost hcount hworld hfile hall =>
            have hnext : uploadStream posted answered =
                .ok ((stream.1.put stream.2 piece).1,
                  (stream.1.put stream.2 piece).2.1) := by
              unfold uploadStream
              rw [if_neg hpost, hworld, hfile]
              rfl
            obtain ⟨file, sRequest, hrequest⟩ :=
              (hanldePostRequest_served hcall).request
            have hkept : answered.request.contentLength =
                client.request.contentLength := by rw [hrequest]; rfl
            have hopen : answered.request.file.isOpen = true := by
              rw [hfile]
              exact (OFStream.isOpen_of_put hwritten).1
            have htotal : posted.post.writed =
                process.post.writed + piece.length := hcount
            have hlater := ih hlast (fun hagain => hpost hagain.1)
              (fun _ => hopen) hnext htaken.2
                (fun _ => by omega) hrest
            have hsame : Completes posted.post.writed
                answered.request.contentLength
                ((stream.1.put stream.2 piece).1,
                  (stream.1.put stream.2 piece).2.1) rest ↔
                Completes process.post.writed client.request.contentLength
                  stream (piece :: rest) := by
              unfold Completes
              simp only [takesAll, htaken.1, Bool.not_false, Bool.true_and,
                List.flatten_cons, List.length_append]
              rw [hkept, htotal, Nat.add_assoc]
            rw [hsame] at hlater
            exact hlater.imp id fun hopened =>
              ⟨hopened.1, hopened.2.1, hopened.2.2.trans hall⟩

theorem piecesWith_frame {pieces : List Str}
    (h : piecesWith hanldePostRequest process client pieces =
      .ok (process', client')) :
    ∃ world index post effects, process' = { process with
      world := world
      index := index
      post := post
      effects := effects } := by
  induction pieces generalizing process client with
  | nil =>
      obtain ⟨rfl, -⟩ := Prod.mk.inj (Except.ok.inj h)
      exact ⟨_, _, _, _, rfl⟩
  | cons piece rest ih =>
      obtain ⟨posted, answered, hcall, hrest⟩ := piecesWith_cons h
      obtain ⟨_, _, _, _, rfl⟩ := hanldePostRequest_frame hcall
      obtain ⟨_, _, _, _, rfl⟩ := ih hrest
      exact ⟨_, _, _, _, rfl⟩

/-! A buffer of a body that is written to one file. -/

/-- The condition under which the statics are reset when a body ends with
what a buffer brings. -/
structure ResetsPost (process : Process W) (client : Client)
    (read : ChunksRead) : Prop where
  /-- A refused body leaves no text behind. -/
  refused : Refused process client → read.pieces ≠ [] → read.rest = []
  /-- A later piece finds the file open. -/
  found : process.post.first ≠ 0 → read.pieces ≠ [] →
    client.request.file.isOpen = true
  /-- No piece in front of the last one fails or completes the body. -/
  front : ¬Refused process client → read.pieces.dropLast ≠ [] →
    ∀ stream, uploadStream process client = .ok stream →
      takesAll stream.1 stream.2 read.pieces.dropLast = true ∧
        process.post.writed + read.pieces.dropLast.flatten.length <
          client.request.contentLength
  /-- The body is complete at its last chunk, and no text is behind it. -/
  final : ¬Refused process client → read.pieces ≠ [] →
    ∀ stream, uploadStream process client = .ok stream →
      if Completes process.post.writed client.request.contentLength stream
        read.pieces then read.rest = []
      else read.last = false
  /-- A last chunk alone ends a body of which nothing has been written. -/
  empty : read.pieces = [] → read.last = true → process.post.first = 0

theorem ResetsPost.pieces {read : ChunksRead}
    (hclean : ResetsPost process client read)
    (hlast : read.last = true → read.rest = [])
    (hfirst : process.post.first = 0 → process.post = {})
    (hopen : client.allRecv = false)
    (h : piecesWith hanldePostRequest process client read.pieces =
      .ok (process', client')) :
    (client'.allRecv = true ∨ read.last = true →
      process'.post = {} ∧ read.rest = []) ∧
    (process'.post.first = 0 → process'.post = {}) := by
  by_cases hne : read.pieces = []
  · rw [hne] at h
    obtain ⟨rfl, rfl⟩ := Prod.mk.inj (Except.ok.inj h)
    refine ⟨fun hend => ?_, hfirst⟩
    have hterminated : read.last = true := hend.resolve_left (by simp [hopen])
    exact ⟨hfirst (hclean.empty hne hterminated), hlast hterminated⟩
  by_cases hrefused : Refused process client
  · obtain ⟨hpost, -⟩ := piecesWith_refused hne hrefused h
    exact ⟨fun _ => ⟨hpost, hclean.refused hrefused hne⟩, fun _ => hpost⟩
  -- the stream is there: the first call has been made
  obtain ⟨stream, hstream⟩ : ∃ stream,
      uploadStream process client = .ok stream := by
    cases hpieces : read.pieces with
    | nil => exact absurd hpieces hne
    | cons piece rest =>
        rw [hpieces] at h
        obtain ⟨posted, answered, hcall, -⟩ := piecesWith_cons h
        have hasked : ¬Refused process (client.setSRequest piece) :=
          fun hagain => hrefused (refused_setSRequest.mp hagain)
        obtain ⟨stream, hstream, -⟩ := hanldePostRequest_posted hasked
          (fun hlater => hclean.found hlater hne) hcall
        exact ⟨stream, (uploadStream_setSRequest ..).symm.trans hstream⟩
  have hfront : takesAll stream.1 stream.2 read.pieces.dropLast = true := by
    by_cases hsingle : read.pieces.dropLast = []
    · rw [hsingle]
      rfl
    · exact (hclean.front hrefused hsingle stream hstream).1
  have hfinal := hclean.final hrefused hne stream hstream
  rcases piecesWith_posted hne hrefused
      (fun hlater => hclean.found hlater hne) hstream hfront
      (fun hsingle => (hclean.front hrefused hsingle stream hstream).2) h with
    ⟨hdone, hpost, -⟩ | ⟨hless, hpost, hall⟩
  · rw [if_pos hdone] at hfinal
    exact ⟨fun _ => ⟨hpost, hfinal⟩, fun _ => hpost⟩
  · rw [if_neg hless] at hfinal
    refine ⟨fun hend => ?_, fun hzero => absurd hzero hpost⟩
    rw [hall, hopen, hfinal] at hend
    simp at hend

end Statics

end Webserv
