import Webserv.ChunkedCgi
import Webserv.RequestLine

namespace Webserv

open Cxx Coding

/-! The size that the two chunk loops read in a size line. -/

def isHex (c : Char) : Bool := (hexDigit c).isSome

/-- Hexadecimal digits, and an extension behind a semicolon. -/
structure SizeLine where
  digits : Str
  ext : Str
  hex : ∀ c ∈ digits, isHex c = true
  semicolon : ext = [] ∨ ext.head? = some ';'
  single : ¬"\r\n".toList <:+: ext

namespace SizeLine

def text (line : SizeLine) : Str := line.digits ++ line.ext ++ "\r\n".toList

def announced (line : SizeLine) : Nat := hexValue line.digits

/-- The number of all hexadecimal digits of the line, those of the extension
included. -/
def gathered (line : SizeLine) : Nat :=
  hexValue ((line.digits ++ line.ext).filter isHex)

end SizeLine

section Rounds

variable {W : Type} [Os W]

/-- A round of the loop of `chunked` for a chunk of this size, which takes
that many bytes with its line break. -/
def uploadRound (fuel : Nat) (process : Process W) (client : Client)
    (size taken : Nat) (rest : Str) : Except Fault (Process W × Client) :=
  if rest.length < taken then .ok (process, client)
  else if size = 0 then
    .ok ({ process with chunkRequest := [] }, client.setAllRecv true)
  else do
    let (process, client) ← hanldePostRequest
      { process with chunkRequest := rest }
      (client.setSRequest (rest.take size))
    let request ← substrFrom process.chunkRequest taken
    chunkedLoop fuel { process with chunkRequest := request } client

/-- A round of the loop of `chunked_for_cgi` for a chunk of this size. -/
def scriptRound (fuel : Nat) (process : Process W) (client : Client)
    (size taken : Nat) (rest : Str) :
    Except Fault (Process W × Client × Str) :=
  if size = 0 then
    .ok ({ process with cgiChunk := {} },
      (client.setAllRecv true).setSRequest process.cgiChunk.result,
      process.cgiChunk.result)
  else if rest.length < size then .ok (process, client, [])
  else do
    let request ← substrFrom rest taken
    chunkedForCgiLoop fuel { process with
      cgiChunk :=
        { request := request
          result := process.cgiChunk.result ++ rest.take size } } client

def Client.Rejected (client : Client) : Prop :=
  ∃ status, client.Stored status ∧ 400 ≤ status

end Rounds

/-- Both loops go by the size that the leading digits denote, or reject the
request. -/
structure SizeRead (line : SizeLine) : Prop where
  upload : ∀ {W : Type} [Os W] (fuel : Nat) (process : Process W)
      (client : Client) (rest : Str),
    process.chunkRequest = line.text ++ rest →
    client.response.readyToSend = false →
      chunkedLoop (fuel + 1) process client =
          uploadRound fuel process client line.announced
            (line.announced + 2) rest ∨
        ∃ process' client', chunkedLoop (fuel + 1) process client =
          .ok (process', client') ∧ client'.Rejected
  script : ∀ {W : Type} (fuel : Nat) (process : Process W)
      (client : Client) (rest : Str),
    process.cgiChunk.request = line.text ++ rest →
    client.response.readyToSend = false →
      chunkedForCgiLoop (fuel + 1) process client =
          scriptRound fuel process client line.announced
            (line.announced + 2) rest ∨
        ∃ process' client' tmp, chunkedForCgiLoop (fuel + 1) process client =
          .ok (process', client', tmp) ∧ client'.Rejected

/-- The leading digits denote the number of all digits modulo `2 ^ 32`, taken
for a signed one and extended to 64 bits, and 2 can be added to it. -/
def SizeTold (line : SizeLine) : Prop :=
  if line.gathered % 2 ^ 32 < 2 ^ 31 then
    line.announced = line.gathered % 2 ^ 32
  else
    line.announced = line.gathered % 2 ^ 32 + (2 ^ 64 - 2 ^ 32) ∧
      line.announced + 2 < 2 ^ 64

/-! What the code reads. -/

theorem hexToInt_filter (s : Str) :
    hexToInt (s.filter isHex) = hexToInt s := by
  unfold hexToInt
  rw [List.foldl_filter]
  congr 1
  funext result c
  unfold isHex hexDigit
  by_cases hdigit : '0' ≤ c ∧ c ≤ '9'
  · simp [hdigit]
  by_cases hlower : 'a' ≤ c ∧ c ≤ 'f'
  · simp [hdigit, hlower]
  by_cases hupper : 'A' ≤ c ∧ c ≤ 'F'
  · simp [hdigit, hlower, hupper]
  · simp [hdigit, hlower, hupper]

theorem hexToInt_eq (s : Str) :
    hexToInt s = BitVec.ofNat 32 (hexValue (s.filter isHex)) := by
  rw [← hexToInt_filter]
  exact @foldl_hexToInt (s.filter isHex)
    (fun c hc => (List.mem_filter.mp hc).2) 0

theorem SizeLine.hexToInt_text (line : SizeLine) :
    hexToInt line.text = BitVec.ofNat 32 line.gathered := by
  have hbreak : "\r\n".toList.filter isHex = [] := by decide
  rw [hexToInt_eq, SizeLine.text, List.filter_append, hbreak, List.append_nil]
  rfl

/-- The `size_t` that the loops make of a line. -/
def SizeLine.size (line : SizeLine) : Nat :=
  sizeT (hexToInt line.text).toInt

theorem SizeLine.size_eq (line : SizeLine) :
    line.size =
      if line.gathered % 2 ^ 32 < 2 ^ 31 then line.gathered % 2 ^ 32
      else line.gathered % 2 ^ 32 + (2 ^ 64 - 2 ^ 32) := by
  unfold SizeLine.size sizeT
  rw [line.hexToInt_text, BitVec.toInt_eq_toNat_cond, BitVec.toNat_ofNat]
  split <;> split <;> omega

theorem sizeTold_iff (line : SizeLine) :
    SizeTold line ↔
      line.announced = line.size ∧ line.announced + 2 < 2 ^ 64 := by
  have hsize := line.size_eq
  unfold SizeTold
  split
  · rename_i hsmall
    rw [if_pos hsmall] at hsize
    omega
  · rename_i hlarge
    rw [if_neg hlarge] at hsize
    rw [hsize]

theorem not_occursAt_before_crlf {front : Str}
    (h : ¬['\r', '\n'] <:+: front) {earlier : Nat}
    (hearlier : earlier < front.length) :
    ¬OccursAt ['\r', '\n'] (front ++ ['\r', '\n']) earlier := by
  intro hoccurs
  unfold OccursAt at hoccurs
  rw [List.drop_append_of_le_length (Nat.le_of_lt hearlier)] at hoccurs
  cases hrest : front.drop earlier with
  | nil => exact absurd (List.drop_eq_nil_iff.mp hrest) (by omega)
  | cons c rest =>
      rw [hrest] at hoccurs
      obtain ⟨rfl, hsecond⟩ := List.cons_prefix_cons.mp hoccurs
      cases rest with
      | nil => exact absurd (List.cons_prefix_cons.mp hsecond).1 (by decide)
      | cons d rest =>
          obtain ⟨rfl, -⟩ := List.cons_prefix_cons.mp hsecond
          have hstarts : ['\r', '\n'] <+: front.drop earlier :=
            ⟨rest, hrest.symm⟩
          exact h (hstarts.isInfix.trans (List.drop_suffix _ _).isInfix)

theorem SizeLine.noBreak (line : SizeLine) :
    ¬"\r\n".toList <:+: line.digits ++ line.ext := by
  intro hinfix
  obtain ⟨front, back, hsplit⟩ := hinfix
  rcases List.append_eq_append_iff.mp
      (hsplit.symm.trans (List.append_assoc ..)) with
    ⟨middle, hfront, hext⟩ | ⟨middle, hdigits, hrest⟩
  · exact line.single ⟨middle, back, by rw [hext]; simp⟩
  · cases middle with
    | nil =>
        exact line.single ⟨[], back, by simpa using hrest⟩
    | cons c middle =>
        have hreturn : c = '\r' := by
          have hhead := (List.cons.inj hrest).1
          exact hhead.symm
        have hdigit := line.hex c (by rw [hdigits]; simp)
        rw [hreturn] at hdigit
        revert hdigit
        decide

theorem SizeLine.search (line : SizeLine) (rest : Str) :
    search? "\r\n".toList (line.text ++ rest) =
      some (line.digits ++ line.ext).length :=
  search?_append_pattern rest fun _ hearlier =>
    not_occursAt_before_crlf line.noBreak hearlier

theorem SizeLine.length_text (line : SizeLine) :
    line.text.length = (line.digits ++ line.ext).length + 2 := by
  rw [SizeLine.text, List.length_append]
  rfl

theorem SizeLine.take (line : SizeLine) (rest : Str) :
    (line.text ++ rest).take ((line.digits ++ line.ext).length + 2) =
      line.text := by
  rw [← line.length_text, List.take_left]

theorem SizeLine.substrFrom (line : SizeLine) (rest : Str) :
    Cxx.substrFrom (line.text ++ rest)
      ((line.digits ++ line.ext).length + 2) = .ok rest := by
  rw [← line.length_text, substrFrom_ok (by simp), List.drop_left]

section Rounds

variable {W : Type}

theorem chunkedLoop_line [Os W] (fuel : Nat) {process : Process W}
    (client : Client) {line : SizeLine} {rest : Str}
    (hrequest : process.chunkRequest = line.text ++ rest) :
    chunkedLoop (fuel + 1) process client =
      uploadRound fuel process client line.size (sizeT (line.size + 2))
        rest := by
  rw [chunkedLoop, hrequest, line.search rest]
  simp only
  rw [substr_zero, line.take, line.substrFrom]
  simp only [bind, Except.bind, pure, Except.pure, substr_zero]
  rfl

theorem chunkedForCgiLoop_line (fuel : Nat) {process : Process W}
    (client : Client) {line : SizeLine} {rest : Str}
    (hrequest : process.cgiChunk.request = line.text ++ rest) :
    chunkedForCgiLoop (fuel + 1) process client =
      scriptRound fuel process client line.size (sizeT (line.size + 2))
        rest := by
  rw [chunkedForCgiLoop, hrequest, line.search rest]
  simp only
  rw [substr_zero, line.take, line.substrFrom]
  simp only [bind, Except.bind, pure, Except.pure, substr_zero]
  rfl

theorem uploadRound_waits [Os W] {fuel : Nat} {process : Process W}
    {client : Client} {size taken : Nat} {rest : Str}
    (h : rest.length < taken) :
    uploadRound fuel process client size taken rest =
      .ok (process, client) := by
  rw [uploadRound, if_pos h]

theorem uploadRound_zero [Os W] {process process' : Process W}
    {client client' : Client} {size taken : Nat} {rest : Str}
    (hrequest : process.chunkRequest ≠ []) (hrest : taken ≤ rest.length)
    (h : uploadRound 0 process client size taken rest =
      .ok (process', client')) :
    process'.chunkRequest ≠ process.chunkRequest ∧
      client'.response = client.response := by
  rw [uploadRound, if_neg (by omega)] at h
  split at h
  · obtain ⟨rfl, rfl⟩ := Prod.mk.inj (Except.ok.inj h)
    exact ⟨Ne.symm hrequest, rfl⟩
  · obtain ⟨⟨later, handled⟩, -, h⟩ := bind_ok h
    obtain ⟨request, -, h⟩ := bind_ok h
    cases h

theorem uploadRound_ne [Os W] {process : Process W} {client : Client}
    {size taken size' taken' : Nat} {rest : Str}
    (hrequest : process.chunkRequest ≠ []) (hlong : taken ≤ rest.length)
    (hshort : rest.length < taken') :
    uploadRound 0 process client size taken rest ≠
      uploadRound 0 process client size' taken' rest := by
  intro hsame
  rw [uploadRound_waits hshort] at hsame
  exact (uploadRound_zero hrequest hlong hsame).1 rfl

theorem uploadRound_not_rejected [Os W] {process process' : Process W}
    {client client' : Client} {size taken : Nat} {rest : Str}
    (hrequest : process.chunkRequest ≠ [])
    (hready : client.response.readyToSend = false)
    (h : uploadRound 0 process client size taken rest =
      .ok (process', client')) : ¬client'.Rejected := by
  rintro ⟨status, ⟨hstored, -⟩, -⟩
  have hresponse : client'.response = client.response := by
    by_cases hshort : rest.length < taken
    · rw [uploadRound_waits hshort] at h
      rw [← (Prod.mk.inj (Except.ok.inj h)).2]
    · exact (uploadRound_zero hrequest (by omega) h).2
  rw [hresponse, hready] at hstored
  cases hstored

end Rounds

theorem SizeRead.round_eq {line : SizeLine} (h : SizeRead line)
    (rest : Str) :
    let process : Process Disk :=
      { world := ⟨[]⟩, chunkRequest := line.text ++ rest }
    uploadRound 0 process (Client.connect 5 {}) line.size
        (sizeT (line.size + 2)) rest =
      uploadRound 0 process (Client.connect 5 {}) line.announced
        (line.announced + 2) rest := by
  intro process
  have hrequest : process.chunkRequest ≠ [] := by
    intro hnil
    have hlength := congrArg List.length hnil
    rw [List.length_append, line.length_text] at hlength
    simp at hlength
  have hread := h.upload 0 process (Client.connect 5 {}) rest rfl rfl
  rw [chunkedLoop_line 0 (Client.connect 5 {}) rfl] at hread
  rcases hread with hsame | ⟨process', client', hround, hrejected⟩
  · exact hsame
  · exact absurd hrejected (uploadRound_not_rejected hrequest rfl hround)

/-- The two loops go by the announced size exactly under that condition. -/
theorem sizeRead_iff (line : SizeLine) : SizeRead line ↔ SizeTold line := by
  rw [sizeTold_iff]
  constructor
  · intro h
    have hpositive : ∀ rest, line.text ++ rest ≠ [] := by
      intro rest hnil
      have hlength := congrArg List.length hnil
      rw [List.length_append, line.length_text] at hlength
      simp at hlength
    have htaken : sizeT (line.size + 2) = line.announced + 2 := by
      rcases Nat.lt_trichotomy (sizeT (line.size + 2)) (line.announced + 2)
        with hless | heq | hgreater
      · let rest := List.replicate (sizeT (line.size + 2)) 'x'
        have hlength : rest.length = sizeT (line.size + 2) :=
          List.length_replicate ..
        exact absurd (h.round_eq rest)
          (uploadRound_ne (hpositive rest) (by omega) (by omega))
      · exact heq
      · let rest := List.replicate (line.announced + 2) 'x'
        have hlength : rest.length = line.announced + 2 :=
          List.length_replicate ..
        exact absurd (h.round_eq rest).symm
          (uploadRound_ne (hpositive rest) (by omega) (by omega))
    have hsize : line.size < 2 ^ 64 := by
      unfold SizeLine.size sizeT
      omega
    unfold sizeT at htaken
    omega
  · rintro ⟨hsize, hbound⟩
    have htaken : sizeT (line.size + 2) = line.announced + 2 := by
      rw [← hsize]
      exact sizeT_natCast hbound
    refine ⟨?_, ?_⟩
    · intro W _ fuel process client rest hrequest _
      rw [chunkedLoop_line fuel client hrequest, htaken, ← hsize]
      exact .inl rfl
    · intro W fuel process client rest hrequest _
      rw [chunkedForCgiLoop_line fuel client hrequest, htaken, ← hsize]
      exact .inl rfl

/-- A size of `2 ^ 32` is taken for the terminating chunk. -/
theorem sizeRead_fails_wrap :
    ¬SizeRead ⟨"100000000".toList, [], by decide, .inl rfl, by decide⟩ := by
  intro h
  have hsame := h.round_eq "xx".toList
  refine uploadRound_ne ?_ ?_ ?_ hsame
  · decide
  · decide
  · decide

end Webserv
