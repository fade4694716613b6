import Webserv.RequestPath

namespace Webserv

open Cxx

/-! `parse_request`, stage by stage, in the order of its exits. -/

def trim (str : Str) : Str := trimBy isspace str

def trimNonPrintable (str : Str) : Str := trimBy (fun c => !isprint c) str

/-- Every branch of the loop of `check_request_line` is commented out. -/
def checkRequestLine (_line : Str) : Bool := true

def isUpper (line : Str) : Bool := line.all fun c => 'A' ≤ c ∧ c ≤ 'Z'

section Parse

variable {W : Type} [Os W]

def Client.clearHeaders (client : Client) : Client :=
  { client with request := { client.request with headersMap := [] } }

/-- The key and value of a header line; a line without a colon is all key
and leaves the value of the line before. -/
def headerEntry (line value : Str) : Except Fault (Str × Str) :=
  match search? [':'] line with
  | some pos => do
      let key ← substr line 0 pos
      let value ← substrFrom line (pos + 1)
      return (key, value)
  | none => .ok (line, value)

def addHeader (client : Client) (key value : Str) : Client :=
  let client :=
    if key = "Connection".toList ∧ value = "close".toList then
      client.setAlive false
    else client
  { client with
    request := { client.request with
      headersMap := mapAssign key value client.request.headersMap } }

/-- The loop of `fill_headers_map`. -/
def fillHeadersLoop (world : W) :
    List Str → Str → Client → Except Fault (Client × Bool)
  | [], _, client =>
      if client.request.headersMap = [] then
        .ok ((setResponseError world client 400).clearHeaders, false)
      else .ok (client, true)
  | line :: rest, value, client =>
      if line = [] then fillHeadersLoop world rest value client
      else do
        let (key, value) ← headerEntry line value
        if key = [] then
          return ((setResponseError world client 400).clearHeaders, false)
        if key.head? = some ' ' then
          return ((setResponseError world client 400).clearHeaders, false)
        let value := trim (trimNonPrintable value)
        fillHeadersLoop world rest value (addHeader client key value)

def fillHeadersMap (world : W) (client : Client) (lines : List Str) :
    Except Fault (Client × Bool) :=
  fillHeadersLoop world lines [] client

/-- The path on disk for a request path, given what `is_location_path` has
returned for it. -/
def diskPath (block : ServerBlock) (requestPath located : Str) : Str :=
  if requestPath.head? = some '/' ∧ located = [] then
    if requestPath.length = 1 then block.serverRoot
    else block.serverRoot ++ "/".toList ++ cStr (requestPath.drop 1)
  else located

/-- The length check, which only a `POST` goes through. -/
def parseContentLength (world : W) (client : Client) (tmp : Str) : Client :=
  let (size, fail) := extractSizeT tmp
  let client := client.setContentLength size
  if fail ∨ size = 0 then setResponseError world client 400
  else if size > client.serverClientObj.clientBodySize then
    setResponseError world client 413
  else checkIfHaveRedirection world client

def parseTarget (world : W) (client : Client) (requestPath method : Str) :
    Except Fault Client := do
  let tmp := client.request.getMapValues "Content-Length".toList
  let (block, located) ← client.serverClientObj.isLocationPath requestPath
  let client := client.setBlock block
  let pa := diskPath block requestPath located
  let client := if pa ≠ [] then client.setPath pa else client
  if ServerBlock.isValidMethod block.routes pa method = false then
    return setResponseError world client 405
  if method = "POST".toList then
    return parseContentLength world client tmp
  return checkIfHaveRedirection world client

/-- From the checks of the method, the version and the path on. -/
def parseFields (world : W) (client : Client) (lines : List Str)
    (method path version : Str) : Except Fault Client := do
  if method ≠ "GET".toList ∧ method ≠ "POST".toList ∧
      method ≠ "DELETE".toList then
    if isUpper method = false then
      return setResponseError world client 400
    else return setResponseError world client 405
  if version ≠ "HTTP/1.1".toList then
    if strncmp 5 (cStr version) "HTTP/".toList > 0 then
      return setResponseError world client 400
    else return setResponseError world client 505
  if path.head? ≠ some '/' then
    return setResponseError world client 400
  let (client, resolved) ← outRootDir world client (removeslashes path)
  match resolved with
  | none => return client.setResponseIndex true
  | some pa =>
      let client := client.setPath pa
      let (client, filled) ← fillHeadersMap world client lines
      if filled = false then return client.setResponseIndex true
      parseTarget world client pa method

def parseRequestLine (world : W) (client : Client) (lines : List Str) :
    Except Fault Client :=
  let line := lines.headD []
  if checkRequestLine line = false then
    .ok (setResponseError world client 400)
  else
    let tokens := words line
    let method := tokens.getD 0 []
    let path := tokens.getD 1 []
    let version := tokens.getD 2 []
    let error := tokens.getD 3 []
    if error ≠ [] ∨ method = [] ∨ path = [] ∨ version = [] then
      .ok (setResponseError world client 400)
    else
      parseFields world (client.setLine method path version) lines.tail
        method path version

/-- The request data cut behind the head at `bodyStart`. -/
def parseHead (world : W) (client : Client) (requestData : Str)
    (bodyStart : Nat) : Except Fault Client := do
  let newRequest ← substrFrom requestData (bodyStart + 4)
  let client := client.setSRequest newRequest
  let requestData ← substr requestData 0 (bodyStart + 4)
  parseRequestLine world client (getlines requestData)

def parseRequest (world : W) (client : Client) : Except Fault Client :=
  let client := (client.setIndex true).setAlive false
  let requestData := client.request.sRequest
  match search? "\r\n\r\n".toList requestData with
  | some bodyStart => parseHead world client requestData bodyStart
  | none =>
      let bodyStart := sizeT ((requestData.length : Int) - 4)
      if int32 bodyStart < 0 then .ok (setResponseError world client 400)
      else parseHead world client requestData bodyStart

/-! What an accepted request has gone through. -/

theorem addHeader_eq (client : Client) (key value : Str) :
    ∃ headersMap keepAlive,
      addHeader client key value = { client with
        request := { client.request with headersMap := headersMap }
        keepAlive := keepAlive } ∧
      (client.keepAlive = false → keepAlive = false) := by
  unfold addHeader
  simp only
  split
  · exact ⟨_, _, rfl, fun _ => rfl⟩
  · exact ⟨_, _, rfl, id⟩

theorem clearHeaders_kept (world : W) (client : Client) (status : Int) :
    Client.Kept client (setResponseError world client status).clearHeaders :=
  (setResponseError_kept world client status).trans
    ⟨rfl, ⟨_, rfl⟩, id⟩

theorem fillHeadersLoop_ok {world : W} {lines : List Str} {value : Str}
    {client client' : Client} {filled : Bool}
    (h : fillHeadersLoop world lines value client = .ok (client', filled)) :
    Client.Kept client client' ∧
      (filled = true → ∃ headersMap keepAlive,
        client' = { client with
          request := { client.request with headersMap := headersMap }
          keepAlive := keepAlive }) := by
  induction lines generalizing value client with
  | nil =>
      rw [fillHeadersLoop] at h
      split at h
      · obtain ⟨rfl, rfl⟩ := Prod.mk.inj (Except.ok.inj h)
        exact ⟨clearHeaders_kept world client 400, by simp⟩
      · obtain ⟨rfl, rfl⟩ := Prod.mk.inj (Except.ok.inj h)
        exact ⟨.refl client, fun _ => ⟨_, _, rfl⟩⟩
  | cons line rest ih =>
      rw [fillHeadersLoop] at h
      split at h
      · exact ih h
      · obtain ⟨⟨key, value⟩, -, h⟩ := bind_ok h
        simp only at h
        split at h
        · obtain ⟨rfl, rfl⟩ := Prod.mk.inj (Except.ok.inj h)
          exact ⟨clearHeaders_kept world client 400, by simp⟩
        split at h
        · obtain ⟨rfl, rfl⟩ := Prod.mk.inj (Except.ok.inj h)
          exact ⟨clearHeaders_kept world client 400, by simp⟩
        obtain ⟨hkept, hfilled⟩ := ih h
        obtain ⟨headersMap, keepAlive, hadd, halive⟩ :=
          addHeader_eq client key (trim (trimNonPrintable value))
        have hline : Client.Kept client
            (addHeader client key (trim (trimNonPrintable value))) := by
          rw [hadd]
          exact ⟨rfl, ⟨_, rfl⟩, halive⟩
        refine ⟨hline.trans hkept, ?_⟩
        intro htrue
        rw [hadd] at hfilled
        obtain ⟨headersMap', keepAlive', heq⟩ := hfilled htrue
        exact ⟨headersMap', keepAlive', heq⟩

theorem parseContentLength_kept (world : W) (client : Client) (tmp : Str) :
    Client.Kept client (parseContentLength world client tmp) := by
  unfold parseContentLength
  simp only
  split
  · exact (setResponseError_kept ..).after ⟨rfl, ⟨_, rfl⟩, id⟩
  split
  · exact (setResponseError_kept ..).after ⟨rfl, ⟨_, rfl⟩, id⟩
  · exact (checkIfHaveRedirection_kept ..).after ⟨rfl, ⟨_, rfl⟩, id⟩

theorem parseContentLength_of_not_ready {world : W} {client : Client}
    {tmp : Str}
    (h : (parseContentLength world client tmp).response.readyToSend =
      false) :
    ∃ size, 0 < size ∧ size ≤ client.serverClientObj.clientBodySize ∧
      parseContentLength world client tmp = client.setContentLength size := by
  unfold parseContentLength at h ⊢
  simp only at h ⊢
  split at h
  · simp at h
  split at h
  · simp at h
  rename_i hsize hlimit
  rw [if_neg hsize, if_neg hlimit,
    checkIfHaveRedirection_of_not_ready h]
  refine ⟨(extractSizeT tmp).1, ?_, ?_, rfl⟩
  · exact Nat.pos_of_ne_zero fun hzero => hsize (.inr hzero)
  · exact Nat.not_lt.mp hlimit

theorem setPath_diskPath_eq (client : Client) (pa : Str) :
    (if pa ≠ [] then client.setPath pa else client) =
      client.setPath (if pa = [] then client.request.path else pa) := by
  by_cases hpa : pa = [] <;> simp [hpa, Client.setPath]

theorem parseTarget_kept {world : W} {client client' : Client}
    {requestPath method : Str}
    (h : parseTarget world client requestPath method = .ok client') :
    Client.Kept client client' := by
  unfold parseTarget at h
  obtain ⟨⟨block, located⟩, hlocated, h⟩ := bind_ok h
  simp only [setPath_diskPath_eq] at h
  have hblock : ∃ url, block =
      client.serverClientObj.setLocationUrl url := by
    rcases ServerBlock.isLocationPath_ok hlocated with
      ⟨rfl, -⟩ | ⟨i, route, -, rfl, -⟩
    · exact ⟨_, rfl⟩
    · exact ⟨_, rfl⟩
  split at h
  · rw [← Except.ok.inj h]
    exact (setResponseError_kept ..).after ⟨rfl, hblock, id⟩
  split at h
  · rw [← Except.ok.inj h]
    exact (parseContentLength_kept ..).after ⟨rfl, hblock, id⟩
  · rw [← Except.ok.inj h]
    exact (checkIfHaveRedirection_kept ..).after ⟨rfl, hblock, id⟩

theorem parseTarget_accepted {world : W} {client client' : Client}
    {requestPath method : Str}
    (h : parseTarget world client requestPath method = .ok client')
    (hready : client'.response.readyToSend = false) :
    ∃ block located size,
      client.serverClientObj.isLocationPath requestPath =
        .ok (block, located) ∧
      ServerBlock.isValidMethod block.routes
        (diskPath block requestPath located) method = true ∧
      (method = "POST".toList →
        0 < size ∧ size ≤ block.clientBodySize) ∧
      client' = ((client.setBlock block).setPath
        (if diskPath block requestPath located = [] then client.request.path
          else diskPath block requestPath located)).setContentLength
            size := by
  unfold parseTarget at h
  obtain ⟨⟨block, located⟩, hlocated, h⟩ := bind_ok h
  simp only [setPath_diskPath_eq] at h
  split at h
  · rw [← Except.ok.inj h] at hready
    simp at hready
  rename_i hallowed
  have hvalid : ServerBlock.isValidMethod block.routes
      (diskPath block requestPath located) method = true := by
    simpa using hallowed
  split at h
  · have heq := Except.ok.inj h
    rw [← heq] at hready
    obtain ⟨size, hpositive, hlimit, hsize⟩ :=
      parseContentLength_of_not_ready hready
    exact ⟨block, located, size, hlocated, hvalid,
      fun _ => ⟨hpositive, hlimit⟩, by rw [← heq, hsize]; rfl⟩
  · rename_i hmethod
    have heq := Except.ok.inj h
    rw [← heq] at hready
    rw [checkIfHaveRedirection_of_not_ready hready] at heq
    exact ⟨block, located, client.request.contentLength, hlocated, hvalid,
      fun hpost => absurd hpost hmethod, by rw [← heq]; rfl⟩

theorem parseFields_kept {world : W} {client client' : Client}
    {lines : List Str} {method path version : Str}
    (h : parseFields world client lines method path version =
      .ok client') : Client.Kept client client' := by
  unfold parseFields at h
  split at h
  · split at h <;>
      (rw [← Except.ok.inj h]
       exact setResponseError_kept ..)
  split at h
  · split at h <;>
      (rw [← Except.ok.inj h]
       exact setResponseError_kept ..)
  split at h
  · rw [← Except.ok.inj h]
    exact setResponseError_kept ..
  obtain ⟨⟨client₁, resolved⟩, hresolved, hnext⟩ := bind_ok h
  rcases outRootDir_ok hresolved with
    ⟨rfl, rfl⟩ | ⟨parts, hplain, rfl, rfl⟩
  · rw [← Except.ok.inj hnext]
    exact (setResponseError_kept ..).trans (Client.kept_setResponseIndex ..)
  · simp only at hnext
    obtain ⟨⟨client₂, filled⟩, hfilled, hlast⟩ := bind_ok hnext
    have hkept := (fillHeadersLoop_ok hfilled).1.after
      (Client.kept_setPath client₁ _)
    simp only at hlast
    split at hlast
    · rw [← Except.ok.inj hlast]
      exact hkept.trans (Client.kept_setResponseIndex ..)
    · exact hkept.trans (parseTarget_kept hlast)

theorem parseRequestLine_kept {world : W} {client client' : Client}
    {lines : List Str}
    (h : parseRequestLine world client lines = .ok client') :
    Client.Kept client client' := by
  unfold parseRequestLine at h
  simp only at h
  split at h
  · rw [← Except.ok.inj h]
    exact setResponseError_kept ..
  split at h
  · rw [← Except.ok.inj h]
    exact setResponseError_kept ..
  · exact (parseFields_kept h).after ⟨rfl, ⟨_, rfl⟩, id⟩

/-- What an accepted request has gone through, with the components of its
path and what `is_location_path` has returned. -/
structure Accepted (client client' : Client) (parts : List Str)
    (located : Str) : Prop where
  plain : ∀ part ∈ parts, PlainPart part
  location : client.serverClientObj.isLocationPath ('/' :: joinDirs parts) =
    .ok (client'.serverClientObj, located)
  path : client'.request.path =
    let pa := diskPath client'.serverClientObj ('/' :: joinDirs parts) located
    if pa = [] then '/' :: joinDirs parts else pa
  allowed : ServerBlock.isValidMethod client'.serverClientObj.routes
    (diskPath client'.serverClientObj ('/' :: joinDirs parts) located)
    client'.request.method = true
  length : client'.request.method = "POST".toList →
    0 < client'.request.contentLength ∧
      client'.request.contentLength ≤ client'.serverClientObj.clientBodySize
  method : client'.request.method = "GET".toList ∨
    client'.request.method = "POST".toList ∨
    client'.request.method = "DELETE".toList
  index : client'.request.index = true
  file : client'.request.file = client.request.file
  allRecv : client'.allRecv = client.allRecv
  response : client'.response = client.response

theorem Accepted.of_same {client before client' : Client}
    {parts : List Str} {located : Str}
    (h : Accepted before client' parts located)
    (hblock : before.serverClientObj = client.serverClientObj)
    (hfile : before.request.file = client.request.file)
    (hallRecv : before.allRecv = client.allRecv)
    (hresponse : before.response = client.response) :
    Accepted client client' parts located :=
  { h with
    location := hblock ▸ h.location
    file := h.file.trans hfile
    allRecv := h.allRecv.trans hallRecv
    response := h.response.trans hresponse }

theorem parseFields_accepted {world : W} {client client' : Client}
    {lines : List Str} {method path version : Str}
    (hmethod : client.request.method = method)
    (hindex : client.request.index = true)
    (h : parseFields world client lines method path version = .ok client')
    (hready : client'.response.readyToSend = false) :
    ∃ parts located, Accepted client client' parts located := by
  unfold parseFields at h
  split at h
  · split at h <;>
      (rw [← Except.ok.inj h] at hready
       simp at hready)
  rename_i hunknown
  have hknown : method = "GET".toList ∨ method = "POST".toList ∨
      method = "DELETE".toList := by
    by_contra hnone
    exact hunknown (by simpa only [not_or] using hnone)
  split at h
  · split at h <;>
      (rw [← Except.ok.inj h] at hready
       simp at hready)
  split at h
  · rw [← Except.ok.inj h] at hready
    simp at hready
  obtain ⟨⟨client₁, resolved⟩, hresolved, hnext⟩ := bind_ok h
  rcases outRootDir_ok hresolved with
    ⟨rfl, rfl⟩ | ⟨parts, hplain, rfl, rfl⟩
  · rw [← Except.ok.inj hnext] at hready
    cases hready
  simp only at hnext
  obtain ⟨⟨client₂, filled⟩, hfilled, hlast⟩ := bind_ok hnext
  obtain ⟨-, hframe⟩ := fillHeadersLoop_ok hfilled
  simp only at hlast
  split at hlast
  · rw [← Except.ok.inj hlast] at hready
    cases hready
  rename_i htrue
  obtain ⟨headersMap, keepAlive, rfl⟩ := hframe (by simpa using htrue)
  obtain ⟨block, located, size, hlocated, hvalid, hsize, rfl⟩ :=
    parseTarget_accepted hlast hready
  subst hmethod
  exact ⟨parts, located, hplain, hlocated, rfl, hvalid, hsize, hknown,
    hindex, rfl, rfl, rfl⟩

theorem parseRequestLine_accepted {world : W} {client client' : Client}
    {lines : List Str} (hindex : client.request.index = true)
    (h : parseRequestLine world client lines = .ok client')
    (hready : client'.response.readyToSend = false) :
    ∃ parts located, Accepted client client' parts located := by
  unfold parseRequestLine at h
  simp only at h
  split at h
  · rw [← Except.ok.inj h] at hready
    simp at hready
  split at h
  · rw [← Except.ok.inj h] at hready
    simp at hready
  obtain ⟨parts, located, haccepted⟩ :=
    parseFields_accepted (by rfl) (by exact hindex) h hready
  exact ⟨parts, located, haccepted.of_same rfl rfl rfl rfl⟩

theorem parseHead_ok {world : W} {client client' : Client}
    {requestData : Str} {bodyStart : Nat}
    (h : parseHead world client requestData bodyStart = .ok client') :
    ∃ lines, parseRequestLine world
      (client.setSRequest (requestData.drop (bodyStart + 4))) lines =
        .ok client' := by
  unfold parseHead at h
  obtain ⟨newRequest, hnew, h⟩ := bind_ok h
  obtain ⟨-, rfl⟩ := substrFrom_eq_ok hnew
  obtain ⟨head, -, h⟩ := bind_ok h
  exact ⟨_, h⟩

/-- Every request is either answered or passes through `parseHead`. -/
theorem parseRequest_cases {world : W} {client client' : Client}
    (h : parseRequest world client = .ok client') :
    client' = setResponseError world
        ((client.setIndex true).setAlive false) 400 ∨
      ∃ newRequest lines, parseRequestLine world
        (((client.setIndex true).setAlive false).setSRequest newRequest)
          lines = .ok client' := by
  unfold parseRequest at h
  simp only at h
  split at h
  · obtain ⟨lines, h⟩ := parseHead_ok h
    exact .inr ⟨_, lines, h⟩
  split at h
  · exact .inl (Except.ok.inj h).symm
  · obtain ⟨lines, h⟩ := parseHead_ok h
    exact .inr ⟨_, lines, h⟩

theorem parseRequest_kept {world : W} {client client' : Client}
    (h : parseRequest world client = .ok client') :
    Client.Kept client client' := by
  rcases parseRequest_cases h with rfl | ⟨newRequest, lines, h⟩
  · exact (setResponseError_kept ..).after ⟨rfl, ⟨_, rfl⟩, fun _ => rfl⟩
  · exact (parseRequestLine_kept h).after ⟨rfl, ⟨_, rfl⟩, fun _ => rfl⟩

theorem parseRequest_accepted {world : W} {client client' : Client}
    (h : parseRequest world client = .ok client')
    (hready : client'.response.readyToSend = false) :
    ∃ parts located, Accepted client client' parts located := by
  rcases parseRequest_cases h with rfl | ⟨newRequest, lines, h⟩
  · simp at hready
  · obtain ⟨parts, located, haccepted⟩ :=
      parseRequestLine_accepted (by rfl) h hready
    exact ⟨parts, located, haccepted.of_same rfl rfl rfl rfl⟩

end Parse

end Webserv
