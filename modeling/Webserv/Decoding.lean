import Webserv.Multipart
import Webserv.Lexical

namespace Webserv

open Cxx

/-! How `boundary` takes a well-formed body apart. -/

/-- The name under which `create_file` opens a part's file. -/
def partPath (directory name : Str) : Str :=
  cStr (directory ++ "/".toList ++ name)

/-- A directory that takes files: the worlds in which it is ready for one, and
those in which one is written to. -/
structure UploadArea (W : Type) [Os W] (directory : Str) where
  ready : W → Prop
  taking : W → Str → Prop
  ne_nil : directory ≠ []
  stat : ∀ world, ready world → ∃ statbuf,
    Os.stat world directory = some statbuf ∧ statbuf.kind = .directory ∧
      statbuf.ownerWrite = true
  openWrite : ∀ world name, ready world → PlainPart name →
    name ≠ ".".toList → ∃ next,
      Os.openWrite world (partPath directory name) = some next ∧
        taking next (partPath directory name)
  write : ∀ world path bytes, taking world path →
    taking (Os.write world path bytes).1 path ∧
      bytes.length ≤ (Os.write world path bytes).2
  done : ∀ world path, taking world path → ready world

section Decoding

variable {W : Type} [Os W]

theorem UploadArea.getFileName_eq {directory : Str}
    (area : UploadArea W directory) {world : W} (hready : area.ready world)
    {client : Client}
    (hdirectory : uploadDirectory client.serverClientObj = directory) :
    getFileName world client = (client, directory) := by
  obtain ⟨statbuf, hstat, hkind, hwrite⟩ := area.stat world hready
  unfold getFileName
  simp only [hdirectory, hstat, hkind, hwrite]
  simp

/-- The static stream writes to the file of a part. -/
structure Writing {directory : Str} (area : UploadArea W directory)
    (process : Process W) (path : Str) : Prop where
  file : process.part.file = ⟨some path, false⟩
  taking : area.taking process.world path

theorem Writing.putPart {directory : Str} {area : UploadArea W directory}
    {process : Process W} {path : Str} (h : Writing area process path)
    (client : Client) (bytes : Str) :
    Writing area (putPart process client bytes) path ∧
      (putPart process client bytes).part = process.part ∧
      (putPart process client bytes).filesOf client.clientId =
        appendLast bytes (process.filesOf client.clientId) := by
  obtain ⟨htaking, hcount⟩ := area.write process.world path bytes h.taking
  have hput : process.part.file.put process.world bytes =
      (process.part.file,
        if bytes = [] then process.world
        else (Os.write process.world path bytes).1, bytes) := by
    unfold OFStream.put
    rw [h.file]
    by_cases hempty : bytes = []
    · simp [hempty]
    · have hall : decide ((Os.write process.world path bytes).2 <
          bytes.length) = false := by
        simpa using hcount
      simp [hempty, hall, List.take_of_length_le hcount]
  unfold Webserv.putPart
  rw [hput]
  refine ⟨⟨h.file, ?_⟩, rfl, Process.filesOf_writePart ..⟩
  change area.taking (if bytes = [] then _ else _) path
  split
  · exact h.taking
  · exact htaking

theorem createPart_named {directory : Str} (area : UploadArea W directory)
    {process : Process W} (hready : area.ready process.world)
    {client : Client}
    (hdirectory : uploadDirectory client.serverClientObj = directory)
    {name : Str} (hname : PlainPart name) (hdot : name ≠ ".".toList)
    (content : Str) :
    ∃ process', createPart process client (.named name) content =
        (process', client) ∧
      Writing area process' (partPath directory name) ∧
      process'.part = { process.part with
        file := process'.part.file
        fileCreated := true } ∧
      process'.filesOf client.clientId = process.filesOf client.clientId ++
        [⟨partPath directory name, content⟩] := by
  obtain ⟨next, hopen, htaking⟩ :=
    area.openWrite process.world name hready hname hdot
  let path := partPath directory name
  let opened : Process W := ({ process with
    world := next
    part := { process.part with file := ⟨some path, false⟩ } }).log client
      (.openPart path true)
  have hopened : openPart process client
      (cStr (directory ++ "/".toList ++ name)) = opened := by
    have hfile : process.part.file.close.openFile process.world path =
        (⟨some path, false⟩, next) := by
      simp only [OFStream.openFile, OFStream.close_isOpen, path, hopen]
      rfl
    unfold openPart
    rw [show cStr (directory ++ "/".toList ++ name) = path from rfl, hfile]
    rfl
  let created : Process W :=
    { opened with part := { opened.part with fileCreated := true } }
  have hcreated : createPart process client (.named name) content =
      if content = [] then (created, client)
      else (putPart created client content, client) := by
    unfold createPart
    simp only [area.getFileName_eq hready hdirectory]
    rw [if_neg (by simp [area.ne_nil]), hopened]
    rfl
  have hwriting : Writing area created path := ⟨rfl, htaking⟩
  have hfiles : created.filesOf client.clientId =
      process.filesOf client.clientId ++ [⟨path, []⟩] :=
    Process.filesOf_openPart ..
  rw [hcreated]
  split
  · rename_i hempty
    subst hempty
    exact ⟨created, rfl, hwriting, rfl, hfiles⟩
  · obtain ⟨hstill, hpart, hput⟩ := hwriting.putPart client content
    refine ⟨_, rfl, hstill, by rw [hpart]; rfl, ?_⟩
    rw [hput, hfiles, appendLast_concat]
    rfl

omit [Os W] in
/-- Whether the text behind a delimiter marks it as the closing one. -/
def closes (rest : Str) : Bool := rest.take 2 = "--".toList

theorem checkIfHaveNewBoundary_found {boundary front rest : Str}
    (hfirst : search? (delimiter boundary)
      (front ++ delimiter boundary ++ rest) = some front.length)
    (hlength : front.length < 2 ^ 31) :
    checkIfHaveNewBoundary (front ++ delimiter boundary ++ rest) boundary 0 =
      ((front.length : Int), closes rest) := by
  have hnonempty : 0 < (delimiter boundary).length :=
    List.length_pos_iff.mpr (delimiter_ne_nil boundary)
  have hbehind : ∀ i, (front ++ delimiter boundary ++ rest)[
      front.length + (delimiter boundary).length + i]? = rest[i]? := by
    intro i
    rw [List.getElem?_append_right (by simp), List.length_append,
      Nat.add_sub_cancel_left]
  unfold checkIfHaveNewBoundary
  simp only
  rw [if_neg (by simp only [List.length_append]; omega),
    show "--".toList ++ boundary = delimiter boundary from rfl,
    searchFrom?, if_pos (Nat.zero_le _), List.drop_zero, hfirst]
  have hfront := hbehind 0
  simp only [Option.map_some, Nat.add_zero, int32_of_lt hlength, hbehind 1]
    at hfront ⊢
  rw [hfront]
  congr 1
  cases rest with
  | nil => simp [closes]
  | cons c rest =>
      cases rest with
      | nil => simp [closes]
      | cons d rest =>
          have hroom : front.length + (delimiter boundary).length + 1 <
              front.length + ((delimiter boundary).length +
                (rest.length + 1 + 1)) := by omega
          simp [closes, hroom]

theorem checkIfHaveNewBoundary_none {boundary buffer : Str}
    (habsent : ¬delimiter boundary <:+: buffer) :
    checkIfHaveNewBoundary buffer boundary 0 = (-1, false) := by
  have hnone := search?_eq_none_iff.mpr habsent
  unfold checkIfHaveNewBoundary
  simp only
  split
  · rfl
  · rw [show "--".toList ++ boundary = delimiter boundary from rfl,
      searchFrom?, if_pos (Nat.zero_le _), List.drop_zero, hnone]
    rfl

omit [Os W] in
theorem skipSize_le (boundary rest : Str) :
    skipSize (delimiter boundary ++ rest) boundary ≤
      (delimiter boundary ++ rest).length := by
  have hstart : (delimiter boundary).length ≤
      (delimiter boundary ++ rest).length := by simp
  unfold skipSize
  simp only [show "--".toList ++ boundary = delimiter boundary from rfl]
  generalize delimiter boundary ++ rest = buffer at *
  have hstep : ∀ size, size ≤ buffer.length → ∀ c : Char,
      (if buffer[size]? = some c then size + 1 else size) ≤
        buffer.length := by
    intro size hsize c
    split
    · rename_i hchar
      exact (List.getElem?_eq_some_iff.mp hchar).1
    · exact hsize
  exact hstep _ (hstep _ hstart _) _

omit [Os W] in
theorem skipSize_endOfLine (boundary rest : Str) :
    skipSize (delimiter boundary ++ (endOfLine ++ rest)) boundary =
      (delimiter boundary ++ endOfLine).length := by
  have hbehind : ∀ i, (delimiter boundary ++ (endOfLine ++ rest))[
      (delimiter boundary).length + i]? = (endOfLine ++ rest)[i]? := by
    intro i
    rw [List.getElem?_append_right (by simp), Nat.add_sub_cancel_left]
  have hreturn : (delimiter boundary ++ (endOfLine ++ rest))[
      (delimiter boundary).length]? = some '\r' := hbehind 0
  have hbreak : (delimiter boundary ++ (endOfLine ++ rest))[
      (delimiter boundary).length + 1]? = some '\n' := hbehind 1
  unfold skipSize
  simp only [show "--".toList ++ boundary = delimiter boundary from rfl]
  rw [if_pos hreturn, if_pos hbreak, List.length_append]
  rfl

omit [Os W] in
theorem skipSize_closing (boundary rest : Str) :
    skipSize (delimiter boundary ++ ("--".toList ++ rest)) boundary =
      (delimiter boundary).length := by
  have hbehind : (delimiter boundary ++ ("--".toList ++ rest))[
      (delimiter boundary).length]? = some '-' := by
    rw [List.getElem?_append_right (by simp), Nat.sub_self]
    rfl
  unfold skipSize
  simp only [show "--".toList ++ boundary = delimiter boundary from rfl]
  have hreturn : ¬some '-' = some '\r' := by decide
  have hbreak : ¬some '-' = some '\n' := by decide
  rw [hbehind, if_neg hreturn, hbehind, if_neg hbreak]

theorem dropFinalCrlf_endOfLine (data : Str) :
    dropFinalCrlf (data ++ endOfLine) = .ok data := by
  have hlength : (data ++ endOfLine).length = data.length + 2 := by simp [endOfLine]
  unfold dropFinalCrlf
  rw [if_pos (by omega), hlength, Nat.add_sub_cancel,
    substrFrom_ok (by omega), List.drop_left]
  simp only [bind, Except.bind]
  rw [if_pos (by rfl), substr_zero, List.take_left]

/-! One round of the loop. -/

/-- The client as the loop goes on after a delimiter. -/
def Client.closedBy (client : Client) (rest : Str) : Client :=
  if closes rest then client.setAllRecv true else client

@[simp] theorem Client.closedBy_clientId (client : Client) (rest : Str) :
    (client.closedBy rest).clientId = client.clientId := by
  unfold closedBy
  split <;> rfl

theorem Client.closedBy_block (client : Client) (rest : Str) :
    uploadDirectory (client.closedBy rest).serverClientObj =
      uploadDirectory client.serverClientObj := by
  unfold closedBy
  split <;> rfl

theorem boundaryLoop_front {process : Process W} (client : Client)
    {boundary rest : Str} (hboundary : process.part.boundaryStr = boundary)
    (hprocessing : process.part.processingFile = false)
    (hbuffer : process.part.buffer = delimiter boundary ++ rest)
    (fuel : Nat) :
    boundaryLoop (fuel + 1) process client =
      boundaryLoop fuel (process.setBuffer
        ((delimiter boundary ++ rest).drop
          (skipSize (delimiter boundary ++ rest) boundary)))
        (client.closedBy rest) := by
  have hfound : checkIfHaveNewBoundary (delimiter boundary ++ rest) boundary
      0 = (0, closes rest) :=
    @checkIfHaveNewBoundary_found boundary [] rest
      (search?_eq_some_iff.mpr ⟨by simp, by simp [OccursAt],
        fun _ h => absurd h (by simp)⟩) (by simp)
  have hbound := skipSize_le boundary rest
  rw [boundaryLoop, hboundary, hbuffer, hfound]
  simp only [closeProcessed, hprocessing, Bool.false_eq_true, if_false,
    bind, Except.bind, hboundary, substrFrom_ok hbound]
  rw [if_neg (by decide)]
  rfl

theorem boundaryLoop_line {process : Process W} (client : Client)
    {boundary rest : Str} (hboundary : process.part.boundaryStr = boundary)
    (hprocessing : process.part.processingFile = false)
    (hbuffer : process.part.buffer = delimiter boundary ++ (endOfLine ++ rest))
    (fuel : Nat) :
    boundaryLoop (fuel + 1) process client =
      boundaryLoop fuel (process.setBuffer rest) client := by
  rw [boundaryLoop_front client hboundary hprocessing hbuffer,
    skipSize_endOfLine, ← List.append_assoc, List.drop_left]
  rfl

def Process.leavePart (process : Process W) (buffer : Str) : Process W :=
  { process with
    part := { process.part with
      file := process.part.file.close
      fileCreated := false
      processingFile := false
      buffer := buffer } }

theorem boundaryLoop_chunk {process : Process W} (client : Client)
    {boundary data rest : Str} (hplain : PlainBoundary boundary)
    (hboundary : process.part.boundaryStr = boundary)
    (hbuffer : process.part.buffer =
      data ++ endOfLine ++ delimiter boundary ++ rest)
    (habsent : ¬delimiter boundary <:+: data)
    (hlength : data.length + 2 < 2 ^ 31) (fuel : Nat) :
    boundaryLoop (fuel + 1) process client = (do
      let (process, client) ← createFile process (client.closedBy rest) data
        (if process.part.processingFile then 1 else 0)
      boundaryLoop fuel (process.leavePart (delimiter boundary ++ rest))
        client) := by
  have hfront : (data ++ endOfLine).length = data.length + 2 := by
    simp [endOfLine]
  have hfound := @checkIfHaveNewBoundary_found boundary (data ++ endOfLine)
    rest (by
      rw [search?_after_separator (delimiter_ne_nil boundary) (by decide)
        hplain.disjoint habsent, List.length_append])
    (by omega)
  rw [hfront] at hfound
  have hsize : sizeT ((data.length + 2 : Nat) : Int) = data.length + 2 :=
    sizeT_natCast (by omega)
  have htake : (data ++ endOfLine ++ delimiter boundary ++ rest).take
      (data.length + 2) = data ++ endOfLine := by
    rw [← hfront, List.append_assoc, List.take_left]
  have hdrop : (data ++ endOfLine ++ delimiter boundary ++ rest).drop
      (data.length + 2) = delimiter boundary ++ rest := by
    rw [← hfront, List.append_assoc, List.drop_left]
  have hinside : data.length + 2 ≤
      (data ++ endOfLine ++ delimiter boundary ++ rest).length := by
    rw [List.append_assoc, List.length_append, hfront]
    omega
  rw [boundaryLoop, hboundary, hbuffer, hfound]
  simp only
  rw [if_neg (by omega), if_neg (by omega), hsize, substrFrom_ok hinside,
    hdrop]
  simp only [takeChunk, hbuffer, substr_zero, htake, bind, Except.bind,
    dropFinalCrlf_endOfLine, Client.closedBy]
  cases createFile process (if closes rest then client.setAllRecv true
    else client) data (if process.part.processingFile then 1 else 0) with
  | error fault => rfl
  | ok created => rfl

theorem boundaryLoop_absent {process : Process W} (client : Client)
    (habsent : ¬delimiter process.part.boundaryStr <:+: process.part.buffer)
    (fuel : Nat) :
    boundaryLoop (fuel + 1) process client = takeBuffer process client := by
  rw [boundaryLoop, checkIfHaveNewBoundary_none habsent]
  simp

variable {directory : Str}

/-- The file that `create_file` makes of a part it has in one piece: the lines
are read back without a final line break. -/
def FilePart.decoded (part : FilePart) (directory : Str) : OutFile :=
  ⟨partPath directory part.filename, dropFinalNewline part.content⟩

/-- The decoder stands in front of a text that is no part's content. -/
structure Between (area : UploadArea W directory) (boundary buffer : Str)
    (process : Process W) : Prop where
  boundaryStr : process.part.boundaryStr = boundary
  processing : process.part.processingFile = false
  buffer : process.part.buffer = buffer
  ready : area.ready process.world

theorem Between.setBuffer {area : UploadArea W directory}
    {boundary buffer : Str} {process : Process W}
    (h : Between area boundary buffer process) (rest : Str) :
    Between area boundary rest (process.setBuffer rest) :=
  ⟨h.boundaryStr, h.processing, rfl, h.ready⟩

theorem Between.boundaryLoop_part {area : UploadArea W directory}
    {boundary rest : Str} {part : FilePart} {process : Process W}
    (h : Between area boundary
      (part.text ++ endOfLine ++ delimiter boundary ++ rest) process)
    (hboundary : PlainBoundary boundary) (hplain : part.Plain boundary)
    (hlength : part.text.length + 2 < 2 ^ 31) {client : Client}
    (hdirectory : uploadDirectory client.serverClientObj = directory)
    (fuel : Nat) :
    ∃ process', boundaryLoop (fuel + 1) process client =
        boundaryLoop fuel process' (client.closedBy rest) ∧
      Between area boundary (delimiter boundary ++ rest) process' ∧
      process'.filesOf client.clientId = process.filesOf client.clientId ++
        [part.decoded directory] := by
  have hclosed := (client.closedBy_block rest).trans hdirectory
  obtain ⟨opened, hcreated, hwriting, hpart, hfiles⟩ :=
    createPart_named area h.ready hclosed hplain.filename.1
      hplain.filename.2 (dropFinalNewline part.content)
  have hcreate : createFile process (client.closedBy rest) part.text 0 =
      .ok (opened, client.closedBy rest) := by
    rw [createFile, if_neg (by decide), if_neg (by decide), FilePart.text,
      hplain.partHead_eq, hplain.partContent_eq, ← hcreated]
    rfl
  refine ⟨opened.leavePart (delimiter boundary ++ rest), ?_, ?_, ?_⟩
  · rw [boundaryLoop_chunk client hboundary h.boundaryStr h.buffer
      hplain.noDelimiter hlength, h.processing]
    simp only [Bool.false_eq_true, if_false, hcreate, bind, Except.bind]
  · refine ⟨?_, rfl, rfl, area.done _ _ hwriting.taking⟩
    change opened.part.boundaryStr = boundary
    rw [hpart]
    exact h.boundaryStr
  · rw [client.closedBy_clientId] at hfiles
    exact hfiles

theorem Between.boundaryLoop_parts {area : UploadArea W directory}
    {boundary tail : Str} {parts : List FilePart} {process : Process W}
    (h : Between area boundary
      (delimiter boundary ++ (enclosed boundary parts ++ tail)) process)
    (hboundary : PlainBoundary boundary)
    (hplain : ∀ part ∈ parts, part.Plain boundary)
    (hlength : (enclosed boundary parts).length < 2 ^ 31) {client : Client}
    (hdirectory : uploadDirectory client.serverClientObj = directory)
    {fuel : Nat} (hfuel : (enclosed boundary parts).length ≤ fuel) :
    ∃ fuel' process', boundaryLoop fuel process
        (client.closedBy (enclosed boundary parts ++ tail)) =
          boundaryLoop fuel' process' (client.closedBy tail) ∧
      fuel - (enclosed boundary parts).length ≤ fuel' ∧
      Between area boundary (delimiter boundary ++ tail) process' ∧
      process'.filesOf client.clientId = process.filesOf client.clientId ++
        parts.map (·.decoded directory) := by
  induction parts generalizing process fuel with
  | nil => exact ⟨fuel, process, rfl, by omega, h, by simp⟩
  | cons part rest ih =>
      have hsplit : enclosed boundary (part :: rest) ++ tail =
          endOfLine ++ (part.text ++ endOfLine ++ delimiter boundary ++
            (enclosed boundary rest ++ tail)) := by
        simp [enclosed]
      have hlengths : (enclosed boundary (part :: rest)).length =
          2 + (part.text.length + 2 + (delimiter boundary).length +
            (enclosed boundary rest).length) := by
        simp [enclosed, endOfLine]
        omega
      have hopen : client.closedBy (enclosed boundary (part :: rest) ++ tail) =
          client := rfl
      rw [hsplit] at h
      rw [hlengths] at hlength hfuel
      obtain ⟨fuel, rfl⟩ : ∃ less, fuel = less + 2 := ⟨fuel - 2, by omega⟩
      have hpart := h.setBuffer (part.text ++ endOfLine ++
        delimiter boundary ++ (enclosed boundary rest ++ tail))
      obtain ⟨written, hwritten, hbetween, hfile⟩ := hpart.boundaryLoop_part
        hboundary (hplain part List.mem_cons_self) (by omega) hdirectory fuel
      obtain ⟨fuel', process', hloop, hless, hafter, hfiles⟩ := ih hbetween
        (fun other hother => hplain other (List.mem_cons_of_mem _ hother))
        (by omega) (show _ ≤ fuel by omega)
      refine ⟨fuel', process', ?_, by omega, hafter, ?_⟩
      · rw [hopen, boundaryLoop_line client h.boundaryStr h.processing
          h.buffer, hwritten, hloop]
      · rw [hfiles, hfile, List.append_assoc]
        rfl

omit [Os W] in
theorem delimiter_not_infix_closing {boundary tail : Str}
    (hboundary : PlainBoundary boundary) (htail : tail <+: endOfLine) :
    ¬delimiter boundary <:+: "--".toList ++ tail := by
  intro hoccurs
  have hnoBreak : ∀ c ∈ delimiter boundary, c ∉ endOfLine :=
    fun c hc hmem => hboundary.disjoint c hmem hc
  have hkept : (delimiter boundary).filter (fun c => c ∉ endOfLine) =
      delimiter boundary :=
    List.filter_eq_self.mpr fun c hc => by simpa using hnoBreak c hc
  have hdropped : tail.filter (fun c => c ∉ endOfLine) = [] :=
    List.filter_eq_nil_iff.mpr fun c hc => by simpa using htail.subset hc
  have hsub := hoccurs.sublist.filter (fun c => c ∉ endOfLine)
  rw [hkept, List.filter_append, hdropped] at hsub
  have hlength := hsub.length_le
  have hne := List.length_pos_iff.mpr hboundary.ne_nil
  have hfixed : (("--".toList).filter (fun c => c ∉ endOfLine) ++
      ([] : Str)).length = 2 := by decide
  rw [hfixed, delimiter, List.length_append] at hlength
  have hhyphens : ("--".toList).length = 2 := rfl
  omega

theorem partHead_closing {tail : Str} (htail : tail <+: endOfLine) :
    partHead ("--".toList ++ tail) = .ok .other := by
  have hlines : endOfLine = ['\r', '\n'] := rfl
  rw [hlines] at htail
  rcases List.prefix_cons_iff.mp htail with rfl | ⟨tail, rfl, hrest⟩
  · decide +kernel
  rcases List.prefix_cons_iff.mp hrest with rfl | ⟨tail, rfl, hlast⟩
  · decide +kernel
  · obtain rfl := List.prefix_nil.mp hlast
    decide +kernel

theorem Between.boundaryLoop_closing {area : UploadArea W directory}
    {boundary tail : Str} {process : Process W}
    (h : Between area boundary
      (delimiter boundary ++ ("--".toList ++ tail)) process)
    (hboundary : PlainBoundary boundary) (htail : tail <+: endOfLine)
    (client : Client) {fuel : Nat} (hfuel : 2 ≤ fuel) :
    boundaryLoop fuel process (client.closedBy ("--".toList ++ tail)) =
      .ok ((process.setProcessing true).setBuffer [],
        client.setAllRecv true) := by
  have hcloses : (client.closedBy ("--".toList ++ tail)).closedBy
      ("--".toList ++ tail) = client.setAllRecv true := rfl
  obtain ⟨fuel, rfl⟩ : ∃ less, fuel = less + 2 := ⟨fuel - 2, by omega⟩
  rw [boundaryLoop_front _ h.boundaryStr h.processing h.buffer,
    skipSize_closing, List.drop_left, hcloses]
  have habsent := delimiter_not_infix_closing hboundary htail
  rw [← h.boundaryStr] at habsent
  rw [boundaryLoop_absent _ habsent]
  have hother : createFile (process.setBuffer ("--".toList ++ tail))
      (client.setAllRecv true) ("--".toList ++ tail) 0 =
        .ok (process.setBuffer ("--".toList ++ tail),
          client.setAllRecv true) := by
    rw [createFile, if_neg (by decide), if_neg (by decide),
      partHead_closing htail]
    rfl
  have houtside : (process.setBuffer ("--".toList ++ tail)).part.processingFile
      = false := h.processing
  have hbuffer : (process.setBuffer ("--".toList ++ tail)).part.buffer =
      "--".toList ++ tail := rfl
  simp only [takeBuffer, houtside, if_true, hbuffer, hother]
  rfl

theorem boundaryEnd_done (process : Process W) {client : Client}
    (hdone : client.allRecv = true) :
    ∃ process', boundaryEnd process client = .ok (process', client) ∧
      process'.effects = process.effects ∧
      process'.world = process.world := by
  unfold boundaryEnd
  rw [if_pos hdone]
  unfold closeProcessed
  split <;> exact ⟨_, rfl, rfl, rfl⟩

omit [Os W] in
theorem boundaryLine_delimiter {process : Process W} {boundary rest : Str}
    (hboundary : PlainBoundary boundary)
    (hbuffer : process.part.buffer =
      delimiter boundary ++ (endOfLine ++ rest)) :
    boundaryLine process = .ok (some { process with
      part := { process.part with
        boundaryStr := boundary
        buffer := rest } }) := by
  have hsplit : process.part.buffer =
      (delimiter boundary ++ ['\r']) ++ '\n' :: rest := by
    rw [hbuffer]
    simp [endOfLine]
  have hnoBreak : '\n' ∉ delimiter boundary ++ ['\r'] := by
    have hdelimiter := hboundary.disjoint '\n' (by decide)
    simp [hdelimiter]
  have hlength : (delimiter boundary ++ ['\r']).length =
      (delimiter boundary).length + 1 := by simp
  have hline : firstLineOf process.part.buffer
      (delimiter boundary ++ ['\r']).length = .ok (delimiter boundary) := by
    rw [firstLineOf, substr_zero, hsplit, List.take_left]
    simp only [bind, Except.bind, List.getLast?_concat, if_true, hlength,
      Nat.add_sub_cancel, substr_zero, List.take_left]
  have hlong : (delimiter boundary).length > 2 := by
    have hne := List.length_pos_iff.mpr hboundary.ne_nil
    rw [delimiter, List.length_append]
    have hhyphens : ("--".toList).length = 2 := rfl
    omega
  have hinside : (delimiter boundary ++ ['\r']).length + 1 ≤
      process.part.buffer.length := by
    simp only [hsplit, List.length_append, List.length_cons]
    omega
  have hdrop : process.part.buffer.drop
      ((delimiter boundary ++ ['\r']).length + 1) = rest := by
    rw [hsplit, ← List.drop_drop, List.drop_left]
    rfl
  unfold boundaryLine
  simp only
  rw [show search? "\n".toList process.part.buffer =
    some (delimiter boundary ++ ['\r']).length by
      rw [hsplit]
      exact search?_first hnoBreak]
  simp only [hline, bind, Except.bind]
  rw [if_pos ⟨hlong, by rfl⟩, substrFrom_ok hinside, hdrop]
  rfl

def Process.startPart (process : Process W) (boundary buffer : Str) :
    Process W :=
  { process with
    part := { process.part with
      boundaryStr := boundary
      buffer := buffer
      callCount := process.part.callCount + 1 } }

theorem boundary_start {process : Process W} {client : Client}
    {boundary rest : Str} (hboundary : PlainBoundary boundary)
    (hcall : process.part.callCount = 0)
    (hbuffer : process.part.buffer ++ client.request.sRequest =
      delimiter boundary ++ (endOfLine ++ rest)) :
    Webserv.boundary process client = (do
      let (process, client) ← boundaryLoop (rest.length + 1)
        (process.startPart boundary rest) client
      boundaryEnd process client) := by
  have hline := @boundaryLine_delimiter W (process.setBuffer
    (process.part.buffer ++ client.request.sRequest)) boundary rest
      hboundary hbuffer
  have hstart : startBoundary (process.setBuffer
      (process.part.buffer ++ client.request.sRequest)) =
        boundaryLine (process.setBuffer
          (process.part.buffer ++ client.request.sRequest)) := if_pos hcall
  unfold Webserv.boundary
  simp only [hstart, hline]
  rfl

theorem boundary_encode (area : UploadArea W directory) {process : Process W}
    (hready : area.ready process.world) (hinitial : process.part = {})
    {client : Client}
    (hdirectory : uploadDirectory client.serverClientObj = directory)
    {boundary : Str} {parts : List FilePart}
    (hboundary : PlainBoundary boundary) (hparts : parts ≠ [])
    (hplain : ∀ part ∈ parts, part.Plain boundary)
    (hlength : (encode boundary parts).length < 2 ^ 31)
    (hbody : client.request.sRequest = encode boundary parts) :
    ∃ process' client', Webserv.boundary process client =
        .ok (process', client') ∧
      client'.allRecv = true ∧
      process'.filesOf client.clientId = process.filesOf client.clientId ++
        parts.map (·.decoded directory) := by
  obtain ⟨part, rest, rfl⟩ := List.exists_cons_of_ne_nil hparts
  let tail := enclosed boundary rest ++ ("--".toList ++ endOfLine)
  let first := part.text ++ endOfLine ++ delimiter boundary ++ tail
  have hencode : encode boundary (part :: rest) =
      delimiter boundary ++ (endOfLine ++ first) := by
    simp [encode, enclosed, first, tail]
  have hlengths : first.length = part.text.length + 2 +
      (delimiter boundary).length + (enclosed boundary rest).length + 4 := by
    simp [first, tail, endOfLine]
    omega
  rw [hencode, List.length_append, List.length_append] at hlength
  have hwhole := @boundary_start W _ process client boundary first hboundary
    (by rw [hinitial]) (by rw [hinitial, hbody, hencode]; rfl)
  have hstarted : Between area boundary first
      (process.startPart boundary first) :=
    ⟨rfl, by rw [Process.startPart, hinitial], rfl, hready⟩
  obtain ⟨written, hpart, hbetween, hfile⟩ := hstarted.boundaryLoop_part
    hboundary (hplain part List.mem_cons_self) (by omega) hdirectory
    first.length
  obtain ⟨fuel', process', hloop, hless, hafter, hfiles⟩ :=
    hbetween.boundaryLoop_parts hboundary
      (fun other hother => hplain other (List.mem_cons_of_mem _ hother))
      (by omega) hdirectory (show _ ≤ first.length by omega)
  have hclosing := hafter.boundaryLoop_closing hboundary
    (List.prefix_refl _) client (show 2 ≤ fuel' by omega)
  obtain ⟨final, hend, heffects, -⟩ := @boundaryEnd_done W _
    ((process'.setProcessing true).setBuffer []) (client.setAllRecv true) rfl
  refine ⟨final, client.setAllRecv true, ?_, rfl, ?_⟩
  · rw [hwhole, hpart, hloop, hclosing]
    exact hend
  · have hkept : final.filesOf client.clientId =
        process'.filesOf client.clientId := by
      unfold Process.filesOf Process.actsOf
      rw [heffects]
      rfl
    rw [hkept, hfiles, hfile, List.append_assoc]
    rfl

end Decoding

end Webserv
