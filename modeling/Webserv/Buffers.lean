import Webserv.Session

namespace Webserv

open Cxx

/-! A request that reaches `check_request` in several buffers. -/

theorem ok_of_toOption_map {α β : Type} {result : Except Fault α}
    {part : α → β} {value : β}
    (h : result.toOption.map part = some value) :
    ∃ final, result = .ok final ∧ part final = value := by
  cases result with
  | error fault => cases h
  | ok final => exact ⟨final, rfl, Option.some.inj h⟩

section Head

variable {W : Type} [Os W]

/-! The head is parsed without a look at the bytes behind it. -/

theorem fillResponse_setSRequest (world : W) (client : Client) (bytes : Str)
    (filePath : Str) (status : Int) :
    fillResponse world (client.setSRequest bytes) filePath status =
      ((fillResponse world client filePath status).1.setSRequest bytes,
        (fillResponse world client filePath status).2) := by
  unfold fillResponse
  simp only [show (client.setSRequest bytes).response = client.response
    from rfl]
  split <;> rfl

theorem setResponseError_setSRequest (world : W) (client : Client)
    (bytes : Str) (status : Int) :
    setResponseError world (client.setSRequest bytes) status =
      (setResponseError world client status).setSRequest bytes := by
  have hfill := fillResponse_setSRequest world (client.setAllRecv true) bytes
    (client.serverClientObj.findErrorPagePath status) status
  unfold setResponseError
  simp only [show (client.setSRequest bytes).serverClientObj =
    client.serverClientObj from rfl]
  split
  · rfl
  · rw [show (client.setSRequest bytes).setAllRecv true =
      (client.setAllRecv true).setSRequest bytes from rfl, hfill]
    split <;> rfl

theorem answerRedirections_setSRequest (world : W)
    (redirections : List (Int × Str)) (client : Client) (bytes : Str) :
    answerRedirections world redirections (client.setSRequest bytes) =
      (answerRedirections world redirections client).setSRequest bytes := by
  induction redirections generalizing client with
  | nil => rfl
  | cons entry rest ih =>
      obtain ⟨code, url⟩ := entry
      have hset : (client.setSRequest bytes).setRedirection code url =
          (client.setRedirection code url).setSRequest bytes := rfl
      rw [answerRedirections, answerRedirections, hset,
        setResponseError_setSRequest, ih]

theorem checkIfHaveRedirection_setSRequest (world : W) (client : Client)
    (bytes : Str) :
    checkIfHaveRedirection world (client.setSRequest bytes) =
      (checkIfHaveRedirection world client).setSRequest bytes := by
  unfold checkIfHaveRedirection
  simp only [show (client.setSRequest bytes).serverClientObj =
    client.serverClientObj from rfl]
  split
  · exact answerRedirections_setSRequest ..
  · rfl

theorem addHeader_setSRequest (client : Client) (key value bytes : Str) :
    addHeader (client.setSRequest bytes) key value =
      (addHeader client key value).setSRequest bytes := by
  unfold addHeader
  simp only
  split <;> rfl

theorem fillHeadersLoop_setSRequest (world : W) (lines : List Str)
    (value : Str) (client : Client) (bytes : Str) :
    fillHeadersLoop world lines value (client.setSRequest bytes) =
      (fillHeadersLoop world lines value client).map
        fun filled => (filled.1.setSRequest bytes, filled.2) := by
  induction lines generalizing value client with
  | nil =>
      rw [fillHeadersLoop, fillHeadersLoop, setResponseError_setSRequest]
      simp only [show (client.setSRequest bytes).request.headersMap =
        client.request.headersMap from rfl]
      split <;> rfl
  | cons line rest ih =>
      rw [fillHeadersLoop, fillHeadersLoop, setResponseError_setSRequest]
      split
      · exact ih value client
      · cases headerEntry line value with
        | error fault => rfl
        | ok entry =>
            simp only [bind, Except.bind]
            split
            · rfl
            split
            · rfl
            · rw [addHeader_setSRequest, ih]

theorem outRootDir_setSRequest (world : W) (client : Client)
    (pa bytes : Str) :
    outRootDir world (client.setSRequest bytes) pa =
      (outRootDir world client pa).map
        fun resolved => (resolved.1.setSRequest bytes, resolved.2) := by
  unfold outRootDir
  simp only [setResponseError_setSRequest]
  split
  · cases rebuildDirs (ftSplit pa '/') [] <;> rfl
  · rfl

theorem parseContentLength_setSRequest (world : W) (client : Client)
    (tmp bytes : Str) :
    parseContentLength world (client.setSRequest bytes) tmp =
      (parseContentLength world client tmp).setSRequest bytes := by
  have hset : ∀ size, (client.setSRequest bytes).setContentLength size =
      (client.setContentLength size).setSRequest bytes := fun _ => rfl
  unfold parseContentLength
  simp only [hset, setResponseError_setSRequest,
    checkIfHaveRedirection_setSRequest]
  split
  · rfl
  simp only [show ∀ size, ((client.setContentLength size).setSRequest
    bytes).serverClientObj = (client.setContentLength size).serverClientObj
      from fun _ => rfl]
  split <;> rfl

theorem parseTarget_setSRequest (world : W) (client : Client)
    (requestPath method bytes : Str) :
    parseTarget world (client.setSRequest bytes) requestPath method =
      (parseTarget world client requestPath method).map
        (·.setSRequest bytes) := by
  unfold parseTarget
  simp only [setPath_diskPath_eq]
  simp only [show (client.setSRequest bytes).serverClientObj =
    client.serverClientObj from rfl]
  cases client.serverClientObj.isLocationPath requestPath with
  | error fault => rfl
  | ok target =>
      obtain ⟨block, located⟩ := target
      have hset : ∀ path : Str,
          ((client.setSRequest bytes).setBlock block).setPath path =
            ((client.setBlock block).setPath path).setSRequest bytes :=
        fun _ => rfl
      simp only [bind, Except.bind, hset, setResponseError_setSRequest,
        parseContentLength_setSRequest, checkIfHaveRedirection_setSRequest]
      split
      · rfl
      split <;> rfl

theorem parseFields_setSRequest (world : W) (client : Client)
    (lines : List Str) (method path version bytes : Str) :
    parseFields world (client.setSRequest bytes) lines method path version =
      (parseFields world client lines method path version).map
        (·.setSRequest bytes) := by
  unfold parseFields
  simp only [setResponseError_setSRequest, outRootDir_setSRequest]
  split
  · split <;> rfl
  split
  · split <;> rfl
  split
  · rfl
  cases outRootDir world client (removeslashes path) with
  | error fault => rfl
  | ok resolved =>
      obtain ⟨client₁, resolved⟩ := resolved
      cases resolved with
      | none => rfl
      | some pa =>
          have hset : (client₁.setSRequest bytes).setPath pa =
              (client₁.setPath pa).setSRequest bytes := rfl
          simp only [Except.map, bind, Except.bind, hset, fillHeadersMap,
            fillHeadersLoop_setSRequest]
          cases fillHeadersLoop world lines [] (client₁.setPath pa) with
          | error fault => rfl
          | ok filled =>
              obtain ⟨client₂, filled⟩ := filled
              cases filled with
              | false => rfl
              | true => exact parseTarget_setSRequest ..

theorem parseRequestLine_setSRequest (world : W) (client : Client)
    (lines : List Str) (bytes : Str) :
    parseRequestLine world (client.setSRequest bytes) lines =
      (parseRequestLine world client lines).map (·.setSRequest bytes) := by
  unfold parseRequestLine
  simp only [setResponseError_setSRequest]
  split
  · rfl
  split
  · rfl
  · exact parseFields_setSRequest world (client.setLine _ _ _) ..

def CompleteHead (head : Str) : Prop :=
  ∃ bodyStart, search? "\r\n\r\n".toList head = some bodyStart ∧
    head.length = bodyStart + 4

theorem parseRequest_append (world : W) (client : Client) {head : Str}
    (hhead : CompleteHead head) (body : Str) :
    parseRequest world (client.setSRequest (head ++ body)) =
      (parseRequestLine world ((client.setIndex true).setAlive false)
        (getlines head)).map (·.setSRequest body) := by
  obtain ⟨bodyStart, hfound, hlength⟩ := hhead
  have hset : ((((client.setSRequest (head ++ body)).setIndex true).setAlive
      false).setSRequest body) =
        (((client.setIndex true).setAlive false).setSRequest body) := rfl
  unfold parseRequest
  simp only
  rw [show (((client.setSRequest (head ++ body)).setIndex true).setAlive
    false).request.sRequest = head ++ body from rfl,
    search?_append_of_some hfound]
  simp only
  unfold parseHead
  rw [substrFrom_ok (by simp [hlength]), substr_zero, ← hlength,
    List.drop_left, List.take_left]
  simp only [bind, Except.bind]
  rw [hset, parseRequestLine_setSRequest]

end Head

section Feed

variable {W : Type} [Os W]

def feed (process : Process W) (client : Client) (buffers : List Str) :
    Except Fault (Process W × Client) :=
  Machine.run (fun state bytes => receive state.1 state.2 bytes)
    (process, client) buffers

variable {process process' : Process W} {client client' : Client}

theorem parseOnce_fresh (hrequest : client.request = {}) (bytes : Str) :
    parseOnce process.world (client.setSRequest bytes).forgetLocation =
      parseRequest process.world (client.forgetLocation.setSRequest bytes) := by
  have hindex : (client.setSRequest bytes).forgetLocation.request.index =
      false := by
    change client.request.index = false
    rw [hrequest]
  unfold parseOnce
  rw [if_pos hindex]
  rfl

theorem parseOnce_append (hrequest : client.request = {}) {head : Str}
    (hhead : CompleteHead head) {parsed : Client}
    (hparsed : parseOnce process.world
      (client.setSRequest head).forgetLocation = .ok parsed) (body : Str) :
    parseOnce process.world
      (client.setSRequest (head ++ body)).forgetLocation =
        .ok (parsed.setSRequest body) := by
  rw [parseOnce_fresh hrequest, parseRequest_append _ _ hhead]
  rw [parseOnce_fresh hrequest, ← List.append_nil head,
    parseRequest_append _ _ hhead] at hparsed
  cases hline : parseRequestLine process.world
      ((client.forgetLocation.setIndex true).setAlive false)
      (getlines head) with
  | error fault =>
      rw [hline] at hparsed
      cases hparsed
  | ok plain =>
      rw [hline] at hparsed
      rw [← Except.ok.inj hparsed]
      rfl

theorem parseRequest_keepAlive {world : W}
    (h : parseRequest world client = .ok client') :
    client'.keepAlive = false := by
  rcases parseRequest_cases h with rfl | ⟨newRequest, lines, hline⟩
  · rw [setResponseError_keepAlive]
    rfl
  · exact (parseRequestLine_kept hline).keepAlive rfl

@[simp] theorem feed_nil : feed process client [] = .ok (process, client) :=
  rfl

theorem feed_cons {bytes : Str} {rest : List Str}
    {next : Process W × Client}
    (h : receive process client bytes = .ok next) :
    feed process client (bytes :: rest) = feed next.1 next.2 rest := by
  unfold feed
  rw [Machine.run, h]

theorem feed_cons_ok {bytes : Str} {rest : List Str}
    {final : Process W × Client}
    (h : feed process client (bytes :: rest) = .ok final) :
    ∃ process₁ client₁,
      receive process client bytes = .ok (process₁, client₁) ∧
        feed process₁ client₁ rest = .ok final := by
  obtain ⟨⟨process₁, client₁⟩, hfirst, hrest⟩ := Machine.run_cons_ok h
  exact ⟨process₁, client₁, hfirst, hrest⟩

theorem feed_of_allRecv (hall : client.allRecv = true) (buffers : List Str) :
    feed process client buffers = .ok (process, client) := by
  induction buffers with
  | nil => rfl
  | cons bytes rest ih =>
      have hfirst : receive process client bytes = .ok (process, client) := by
        unfold receive
        rw [if_pos hall]
      rw [feed_cons hfirst, ih]

theorem receive_request {bytes : Str} (hindex : client.request.index = true)
    (h : receive process client bytes = .ok (process', client')) :
    ∃ file sRequest, client'.request =
      { client.request with file := file, sRequest := sRequest } := by
  cases receive_cases h with
  | inl hall => exact ⟨_, _, congrArg Client.request hall.2.2⟩
  | inr hopen =>
      obtain ⟨-, parsed, hparsed, h⟩ := hopen
      cases parseOnce_cases hparsed with
      | inl hfresh =>
          have hfalse : client.request.index = false := hfresh.1
          rw [hindex] at hfalse
          cases hfalse
      | inr hkept =>
          obtain ⟨-, rfl⟩ := hkept
          obtain ⟨file, sRequest, hrequest⟩ :=
            (dispatchRequest_served h).request
          exact ⟨file, sRequest, hrequest⟩

theorem feed_request {buffers : List Str}
    (hindex : client.request.index = true)
    (h : feed process client buffers = .ok (process', client')) :
    ∃ file sRequest, client'.request =
      { client.request with file := file, sRequest := sRequest } := by
  induction buffers generalizing process client with
  | nil =>
      obtain ⟨rfl, rfl⟩ := Prod.mk.inj (Except.ok.inj h)
      exact ⟨_, _, rfl⟩
  | cons bytes rest ih =>
      obtain ⟨process₁, client₁, hfirst, hrest⟩ := feed_cons_ok h
      obtain ⟨file, sRequest, hrequest⟩ := receive_request hindex hfirst
      have hindex₁ : client₁.request.index = true := by
        rw [hrequest]
        exact hindex
      obtain ⟨file', sRequest', hrequest'⟩ := ih hindex₁ hrest
      exact ⟨file', sRequest', by rw [hrequest', hrequest]⟩

theorem feed_parsed {first : Str} {rest : List Str} {parsed : Client}
    (hopen : client.allRecv = false)
    (hparsed : parseOnce process.world
      (client.setSRequest first).forgetLocation = .ok parsed)
    (h : feed process client (first :: rest) = .ok (process', client')) :
    ∃ file sRequest, client'.request =
      { parsed.request with file := file, sRequest := sRequest } := by
  obtain ⟨process₁, client₁, hfirst, hrest⟩ := feed_cons_ok h
  cases receive_cases hfirst with
  | inl hall =>
      rw [hopen] at hall
      cases hall.1
  | inr hreceived =>
      obtain ⟨-, parsed', hparsed', hdispatch⟩ := hreceived
      obtain rfl := Except.ok.inj (hparsed.symm.trans hparsed')
      by_cases hready : parsed.response.readyToSend = true
      · rw [dispatchRequest_of_ready hready] at hdispatch
        obtain ⟨rfl, rfl⟩ := Prod.mk.inj (Except.ok.inj hdispatch)
        rw [feed_of_allRecv rfl] at hrest
        obtain ⟨rfl, rfl⟩ := Prod.mk.inj (Except.ok.inj hrest)
        exact ⟨_, _, rfl⟩
      · obtain ⟨hindex, -⟩ := parseOnce_open hparsed (by simpa using hready)
        obtain ⟨file, sRequest, hrequest⟩ :=
          (dispatchRequest_served hdispatch).request
        have hindex₁ : client₁.request.index = true := by
          rw [hrequest]
          exact hindex
        obtain ⟨file', sRequest', hrequest'⟩ := feed_request hindex₁ hrest
        exact ⟨file', sRequest', by rw [hrequest', hrequest]⟩

end Feed

end Webserv
