import Webserv.CheckRequest
import Webserv.Disk

namespace Webserv

open Cxx

/-! `parse_request` on any buffer: it stays in bounds, and it either answers
or hands a checked request on to the choice of the location. -/

/-! The path stays above its root. -/

theorem popBack_concat (vec : List Str) (part : Str) :
    popBack (vec ++ [part]) = .ok vec := by
  rw [popBack, if_neg (by simp), List.dropLast_concat]

theorem rebuildDirs_total {parts vec : List Str} {entry sorty : Nat}
    (hcount : countDirs parts entry sorty = true)
    (hlength : vec.length + sorty = entry) :
    ∃ result, rebuildDirs parts vec = .ok result := by
  induction parts generalizing vec entry sorty with
  | nil => exact ⟨vec, rfl⟩
  | cons part rest ih =>
      rw [countDirs] at hcount
      by_cases hpart : part = dotDot
      · simp only [if_pos hpart] at hcount
        split at hcount
        · cases hcount
        rename_i hroom
        obtain ⟨front, last, rfl⟩ : ∃ front last, vec = front ++ [last] := by
          refine ⟨vec.dropLast, vec.getLast ?_, ?_⟩
          · rintro rfl
            rw [List.length_nil] at hlength
            omega
          · exact (List.dropLast_append_getLast _).symm
        rw [List.length_append, List.length_singleton] at hlength
        obtain ⟨result, hresult⟩ := @ih front entry (sorty + 1) hcount
          (by omega)
        refine ⟨result, ?_⟩
        rw [rebuildDirs, if_pos hpart, popBack_concat]
        change (popBack (front ++ [last]) >>= rebuildDirs rest) = _
        rw [popBack_concat]
        exact hresult
      · simp only [if_neg hpart] at hcount
        split at hcount
        · cases hcount
        rw [rebuildDirs, if_neg hpart]
        exact ih hcount (by
          rw [List.length_append, List.length_singleton]
          omega)

section Gate

variable {W : Type} [Os W]

/-- A complete response is stored. -/
def Client.Complete (client : Client) : Prop :=
  client.response.readyToSend = true ∧ client.allRecv = true

theorem complete_setResponseError (world : W) (client : Client)
    (status : Int) : (setResponseError world client status).Complete :=
  ⟨by simp, by simp⟩

theorem outRootDir_cases (world : W) (client : Client) (pa : Str) :
    outRootDir world client pa =
        .ok (setResponseError world client 400, none) ∨
      ∃ vec, outRootDir world client pa =
        .ok (client, some ('/' :: joinDirs vec)) := by
  unfold outRootDir
  by_cases hcount : countDirs (ftSplit pa '/') 0 0 = true
  · obtain ⟨vec, hvec⟩ :=
      @rebuildDirs_total (ftSplit pa '/') [] 0 0 hcount rfl
    refine .inr ⟨vec, ?_⟩
    simp only
    rw [if_pos hcount, hvec]
    rfl
  · refine .inl ?_
    simp only
    rw [if_neg hcount]
    rfl

theorem headerEntry_total (line value : Str) :
    ∃ entry, headerEntry line value = .ok entry := by
  unfold headerEntry
  cases hfound : search? [':'] line with
  | none => exact ⟨_, rfl⟩
  | some pos =>
      have hle := search?_add_length_le hfound
      rw [List.length_singleton] at hle
      simp only
      rw [substr_zero, substrFrom_ok hle]
      exact ⟨_, rfl⟩

theorem fillHeadersLoop_total (world : W) (lines : List Str) (value : Str)
    (client : Client) :
    ∃ client' filled, fillHeadersLoop world lines value client =
        .ok (client', filled) ∧
      (filled = false → client'.Complete ∧
        client'.serverClientObj = client.serverClientObj) ∧
      (filled = true → client'.request.headersMap ≠ []) := by
  have hrefused : ∀ client : Client,
      (setResponseError world client 400).clearHeaders.Complete ∧
        (setResponseError world client 400).clearHeaders.serverClientObj =
          client.serverClientObj := fun client =>
    ⟨complete_setResponseError world client 400,
      setResponseError_serverClientObj ..⟩
  induction lines generalizing value client with
  | nil =>
      rw [fillHeadersLoop]
      split
      · exact ⟨_, _, rfl, fun _ => hrefused client,
          fun hfilled => absurd hfilled (by decide)⟩
      · rename_i hmap
        exact ⟨_, _, rfl, fun hfilled => absurd hfilled (by decide),
          fun _ => hmap⟩
  | cons line rest ih =>
      rw [fillHeadersLoop]
      by_cases hline : line = []
      · rw [if_pos hline]
        exact ih value client
      rw [if_neg hline]
      obtain ⟨⟨key, entered⟩, hentry⟩ := headerEntry_total line value
      rw [hentry]
      change ∃ client' filled, (if key = [] then _ else _) = _ ∧ _
      by_cases hkey : key = []
      · rw [if_pos hkey]
        exact ⟨_, _, rfl, fun _ => hrefused client,
          fun hfilled => absurd hfilled (by decide)⟩
      rw [if_neg hkey]
      by_cases hspace : key.head? = some ' '
      · rw [if_pos hspace]
        exact ⟨_, _, rfl, fun _ => hrefused client,
          fun hfilled => absurd hfilled (by decide)⟩
      rw [if_neg hspace]
      obtain ⟨headersMap, keepAlive, hadd, -⟩ :=
        addHeader_eq client key (trim (trimNonPrintable entered))
      obtain ⟨client', filled, heq, hfalse, htrue⟩ :=
        ih (trim (trimNonPrintable entered))
          (addHeader client key (trim (trimNonPrintable entered)))
      rw [hadd] at hfalse
      exact ⟨client', filled, heq, hfalse, htrue⟩

structure Passed (client passed : Client) (requestPath : Str) : Prop where
  path : requestPath ≠ []
  method : passed.request.method = "GET".toList ∨
    passed.request.method = "POST".toList ∨
    passed.request.method = "DELETE".toList
  version : passed.request.version = "HTTP/1.1".toList
  headers : passed.request.headersMap ≠ []
  block : passed.serverClientObj = client.serverClientObj
  redirection : passed.request.redirection = client.request.redirection
  location : passed.request.location = client.request.location
  response : passed.response = client.response
  allRecv : passed.allRecv = client.allRecv

/-- A request is answered, or handed on to the choice of the location. -/
def Gated (world : W) (client : Client) (result : Except Fault Client) :
    Prop :=
  (∃ answered, result = .ok answered ∧ answered.Complete ∧
    answered.serverClientObj = client.serverClientObj) ∨
  ∃ passed requestPath, Passed client passed requestPath ∧
    result = parseTarget world passed requestPath passed.request.method

theorem gated_setResponseError (world : W) (client : Client) (status : Int) :
    Gated world client (.ok (setResponseError world client status)) :=
  .inl ⟨_, rfl, complete_setResponseError .., by simp⟩

theorem parseFields_gated (world : W) (client : Client) (lines : List Str)
    {method path version : Str} (hmethod : client.request.method = method)
    (hversion : client.request.version = version) :
    Gated world client
      (parseFields world client lines method path version) := by
  unfold parseFields
  split
  · split <;> exact gated_setResponseError ..
  rename_i hunknown
  have hknown : method = "GET".toList ∨ method = "POST".toList ∨
      method = "DELETE".toList := by
    by_contra hnone
    exact hunknown (by simpa only [not_or] using hnone)
  split
  · split <;> exact gated_setResponseError ..
  rename_i hhttp
  split
  · exact gated_setResponseError ..
  rcases outRootDir_cases world client (removeslashes path) with
    hrefused | ⟨vec, hresolved⟩
  · rw [hrefused]
    exact .inl ⟨_, rfl, ⟨rfl, setResponseError_allRecv ..⟩,
      setResponseError_serverClientObj ..⟩
  rw [hresolved]
  obtain ⟨filledClient, filled, hfill, hfalse, htrue⟩ :=
    fillHeadersLoop_total world lines [] (client.setPath ('/' :: joinDirs vec))
  change Gated world client ((fillHeadersLoop world lines []
    (client.setPath ('/' :: joinDirs vec))) >>= _)
  rw [hfill]
  cases filled with
  | false =>
      obtain ⟨hcomplete, hblock⟩ := hfalse rfl
      exact .inl ⟨_, rfl, ⟨rfl, hcomplete.2⟩, hblock⟩
  | true =>
      obtain ⟨headersMap, keepAlive, hclient⟩ :=
        (fillHeadersLoop_ok hfill).2 rfl
      have hsame : filledClient.request.method = method := by
        rw [hclient]
        exact hmethod
      refine .inr ⟨filledClient, '/' :: joinDirs vec, ?_, ?_⟩
      · have hheaders := htrue rfl
        rw [hclient] at hheaders ⊢
        exact
          { path := List.cons_ne_nil _ _
            method := hmethod ▸ hknown
            version := hversion.trans (not_not.mp hhttp)
            headers := hheaders
            block := rfl
            redirection := rfl
            location := rfl
            response := rfl
            allRecv := rfl }
      · rw [hsame]
        rfl

theorem Gated.of_same {world : W} {client before : Client}
    {result : Except Fault Client} (h : Gated world before result)
    (hblock : before.serverClientObj = client.serverClientObj)
    (hredirection : before.request.redirection = client.request.redirection)
    (hlocation : before.request.location = client.request.location)
    (hresponse : before.response = client.response)
    (hallRecv : before.allRecv = client.allRecv) :
    Gated world client result := by
  rcases h with ⟨answered, heq, hcomplete, hsame⟩ |
    ⟨passed, requestPath, hpassed, heq⟩
  · exact .inl ⟨answered, heq, hcomplete, hsame.trans hblock⟩
  · refine .inr ⟨passed, requestPath, ?_, heq⟩
    exact { hpassed with
      block := hpassed.block.trans hblock
      redirection := hpassed.redirection.trans hredirection
      location := hpassed.location.trans hlocation
      response := hpassed.response.trans hresponse
      allRecv := hpassed.allRecv.trans hallRecv }

theorem parseRequestLine_gated (world : W) (client : Client)
    (lines : List Str) :
    Gated world client (parseRequestLine world client lines) := by
  unfold parseRequestLine
  simp only
  split
  · exact gated_setResponseError ..
  split
  · exact gated_setResponseError ..
  · refine Gated.of_same (parseFields_gated world _ lines.tail rfl rfl)
      rfl rfl rfl rfl rfl

theorem parseHead_gated (world : W) (client : Client) {requestData : Str}
    {bodyStart : Nat} (hin : bodyStart + 4 ≤ requestData.length) :
    Gated world client (parseHead world client requestData bodyStart) := by
  unfold parseHead
  rw [substrFrom_ok hin, substr_zero]
  exact (parseRequestLine_gated world
    (client.setSRequest (requestData.drop (bodyStart + 4)))
    (getlines (requestData.take (bodyStart + 4)))).of_same rfl rfl rfl rfl rfl

theorem parseRequest_gated (world : W) (client : Client)
    (hsize : client.request.sRequest.length ≤ 16383) :
    Gated world client (parseRequest world client) := by
  have hdata : ((client.setIndex true).setAlive false).request.sRequest =
      client.request.sRequest := rfl
  unfold parseRequest
  simp only [hdata]
  cases hfound : search? "\r\n\r\n".toList client.request.sRequest with
  | some bodyStart =>
      have hin := search?_add_length_le hfound
      exact (parseHead_gated world ((client.setIndex true).setAlive false)
        hin).of_same rfl rfl rfl rfl rfl
  | none =>
      simp only
      by_cases hshort : client.request.sRequest.length < 4
      · have hnegative : int32 (sizeT
            ((client.request.sRequest.length : Int) - 4)) < 0 := by
          unfold int32 sizeT
          split <;> omega
        rw [if_pos hnegative]
        exact (gated_setResponseError world
          ((client.setIndex true).setAlive false) 400).of_same
          rfl rfl rfl rfl rfl
      · have hstart : sizeT ((client.request.sRequest.length : Int) - 4) =
            client.request.sRequest.length - 4 := by
          unfold sizeT
          omega
        have hin : client.request.sRequest.length - 4 + 4 ≤
            client.request.sRequest.length := by omega
        have hbodyStart : ¬int32 (client.request.sRequest.length - 4) < 0 := by
          rw [int32_of_lt (by omega)]
          omega
        rw [hstart, if_neg hbodyStart]
        exact (parseHead_gated world ((client.setIndex true).setAlive false)
          hin).of_same rfl rfl rfl rfl rfl

/-! The choice of the location. -/

def ServerBlock.InRange (block : ServerBlock) : Prop :=
  ∀ i, block.isLocationUrl = some i → i < block.routes.length

theorem isLocationPath_total {block : ServerBlock} (hrange : block.InRange)
    {path : Str} (hne : path ≠ []) :
    ∃ block' located, block.isLocationPath path = .ok (block', located) ∧
      block'.InRange := by
  have hpos : 1 ≤ path.length := List.length_pos_iff.mpr hne
  have htotal : ∃ result, block.isLocationPath path = .ok result := by
    unfold ServerBlock.isLocationPath
    rw [substrFrom_ok hpos]
    change ∃ result, (if path.drop 1 = [] then _ else _) = Except.ok result
    split
    · exact ⟨_, rfl⟩
    · split <;> exact ⟨_, rfl⟩
  obtain ⟨⟨block', located⟩, hlocated⟩ := htotal
  refine ⟨block', located, hlocated, ?_⟩
  rcases ServerBlock.isLocationPath_ok hlocated with
    ⟨rfl, -⟩ | ⟨i, route, hroute, rfl, -⟩
  · exact hrange
  · intro j hj
    obtain rfl := Option.some.inj hj
    exact (List.getElem?_eq_some_iff.mp hroute).1

/-- No answer is stored, or a complete one. -/
def Client.Settled (client : Client) : Prop :=
  client.response.readyToSend = true → client.allRecv = true

theorem answerRedirections_settled (world : W)
    (redirections : List (Int × Str)) {client : Client}
    (h : client.Settled) :
    (answerRedirections world redirections client).Settled := by
  induction redirections generalizing client with
  | nil => exact h
  | cons entry rest ih => exact ih fun _ => setResponseError_allRecv ..

theorem checkIfHaveRedirection_settled (world : W) {client : Client}
    (h : client.Settled) : (checkIfHaveRedirection world client).Settled := by
  unfold checkIfHaveRedirection
  split
  · exact answerRedirections_settled world _ h
  · exact h

@[simp] theorem answerRedirections_block (world : W)
    (redirections : List (Int × Str)) (client : Client) :
    (answerRedirections world redirections client).serverClientObj =
      client.serverClientObj := by
  induction redirections generalizing client with
  | nil => rfl
  | cons entry rest ih =>
      rw [answerRedirections, ih, setResponseError_serverClientObj]
      rfl

@[simp] theorem checkIfHaveRedirection_block (world : W) (client : Client) :
    (checkIfHaveRedirection world client).serverClientObj =
      client.serverClientObj := by
  unfold checkIfHaveRedirection
  split
  · exact answerRedirections_block ..
  · rfl

@[simp] theorem parseContentLength_block (world : W) (client : Client)
    (tmp : Str) :
    (parseContentLength world client tmp).serverClientObj =
      client.serverClientObj := by
  unfold parseContentLength
  simp only
  split
  · rw [setResponseError_serverClientObj]
    rfl
  split
  · rw [setResponseError_serverClientObj]
    rfl
  · rw [checkIfHaveRedirection_block]
    rfl

theorem parseContentLength_settled (world : W) {client : Client} (tmp : Str)
    (h : client.Settled) : (parseContentLength world client tmp).Settled := by
  unfold parseContentLength
  simp only
  split
  · exact fun _ => setResponseError_allRecv ..
  split
  · exact fun _ => setResponseError_allRecv ..
  · exact checkIfHaveRedirection_settled world h

theorem parseTarget_total (world : W) {client : Client}
    (hrange : client.serverClientObj.InRange) (hsettled : client.Settled)
    {requestPath : Str} (hne : requestPath ≠ []) (method : Str) :
    ∃ parsed, parseTarget world client requestPath method = .ok parsed ∧
      parsed.Settled ∧ parsed.serverClientObj.InRange := by
  obtain ⟨block, located, hlocated, hblock⟩ :=
    isLocationPath_total hrange hne
  unfold parseTarget
  simp only [hlocated, bind, Except.bind, setPath_diskPath_eq]
  split
  · refine ⟨_, rfl, fun _ => setResponseError_allRecv .., ?_⟩
    rw [setResponseError_serverClientObj]
    exact hblock
  split
  · refine ⟨_, rfl, parseContentLength_settled world _ hsettled, ?_⟩
    rw [parseContentLength_block]
    exact hblock
  · refine ⟨_, rfl, checkIfHaveRedirection_settled world hsettled, ?_⟩
    rw [checkIfHaveRedirection_block]
    exact hblock

/-- A request that is taken on. -/
structure Client.Admitted (client : Client) : Prop where
  method : client.request.method = "GET".toList ∨
    client.request.method = "POST".toList ∨
    client.request.method = "DELETE".toList
  version : client.request.version = "HTTP/1.1".toList
  headers : client.request.headersMap ≠ []
  length : client.request.method = "POST".toList →
    1 ≤ client.request.contentLength ∧
      client.request.contentLength ≤ client.serverClientObj.clientBodySize

/-- The first buffer of a connection, on its way to `parse_request`. -/
def firstBuffer (fd : Int) (block : ServerBlock) (bytes : Str) : Client :=
  ((Client.connect fd block).setSRequest bytes).forgetLocation

/-- Whatever comes first on a connection is parsed without leaving a text or a
vector, and is answered or admitted. -/
theorem parseRequest_gate (world : W) (fd : Int) (block : ServerBlock)
    {bytes : Str} (hsize : bytes.length ≤ 16383) :
    ∃ parsed, parseRequest world (firstBuffer fd block bytes) = .ok parsed ∧
      parsed.serverClientObj.InRange ∧
      (parsed.Complete ∨ parsed.Admitted) := by
  have hrange : (firstBuffer fd block bytes).serverClientObj.InRange := nofun
  rcases parseRequest_gated world (firstBuffer fd block bytes) hsize with
    ⟨answered, heq, hcomplete, hblock⟩ | ⟨passed, requestPath, hpassed, heq⟩
  · exact ⟨answered, heq, hblock ▸ hrange, .inl hcomplete⟩
  have hwaiting : passed.response.readyToSend = false := by
    rw [hpassed.response]
    rfl
  obtain ⟨parsed, hparsed, hsettled, hinRange⟩ :=
    parseTarget_total world (hpassed.block.symm ▸ hrange)
      (fun hready => absurd (hready.symm.trans hwaiting) (by decide))
      hpassed.path passed.request.method
  refine ⟨parsed, heq.trans hparsed, hinRange, ?_⟩
  cases hready : parsed.response.readyToSend with
  | true => exact .inl ⟨hready, hsettled hready⟩
  | false =>
      obtain ⟨block', located, size, -, -, hlength, rfl⟩ :=
        parseTarget_accepted hparsed hready
      exact .inr
        { method := hpassed.method
          version := hpassed.version
          headers := hpassed.headers
          length := hlength }

end Gate

theorem parseRequest_gate_short :
    "GET /\r\n".toList.length ≤ 16383 ∧
      ∃ parsed, parseRequest (⟨[]⟩ : Disk)
          (firstBuffer 4 {} "GET /\r\n".toList) = .ok parsed ∧
        parsed.serverClientObj.InRange ∧
        (parsed.Complete ∨ parsed.Admitted) :=
  ⟨by decide, parseRequest_gate (⟨[]⟩ : Disk) 4 {} (by decide)⟩

end Webserv
