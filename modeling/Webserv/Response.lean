import Webserv.Client

namespace Webserv

open Cxx

/-! The response heads and pages, and the checks that only answer with one. -/

/-- The frame shared by the built-in pages. -/
def statusPage (code colour message : String) : Str :=
  ("<!DOCTYPE html><html lang=\"en\"><head><meta charset=\"UTF-8\"><meta name=\"viewport\" content=\"width=device-width, initial-scale=1.0\"><title>" ++ code ++ "</title>" ++
    "<style>" ++
    "  body\x7bfont-family:\"Arial\",sans-serif;background:#f4f4f4;color:#333;margin:0;padding:0;display:flex;justify-content:center;align-items:center;height:100vh\x7d" ++
    "  .error-container\x7btext-align:center;max-width:600px;padding:40px;background:#fff;box-shadow:0 4px 10px rgba(0,0,0,0.1);border-radius:8px\x7d" ++
    "  h1\x7bfont-size:100px;margin:0;color:" ++ colour ++ "\x7d" ++
    "  p\x7bfont-size:18px;margin-top:20px\x7d" ++
    "  a\x7bcolor:#3498db;text-decoration:none\x7d" ++
    "  a:hover\x7btext-decoration:underline\x7d" ++
    "</style></head><body>" ++
    "<div class=\"error-container\">" ++
    "  <h1>" ++ code ++ "</h1>" ++
    "  <p>" ++ message ++ "</p>" ++
    "  <p><a href=\"/\">Go back to homepage</a></p>" ++
    "</div>" ++
    "</body></html>").toList

def status400 : Str := statusPage "400" "#e74c3c" "Oops! Bad request."
def status403 : Str := statusPage "403" "#e74c3c" "Oops! Forbidden."
def status404 : Str := statusPage "404" "#e74c3c"
  "Oops! The page you are looking for could not be found."
def status201 : Str := statusPage "201" "#28a745"
  "Success! The request has been fulfilled and a new resource created."
def status405 : Str := statusPage "405" "#e74c3c" "Oops! Method not allowed."
def status413 : Str := statusPage "413" "#e74c3c" "Request entity too large."
def status415 : Str := statusPage "415" "#e74c3c" "Unsupported media type."
def status500 : Str := statusPage "500" "#e74c3c" "Internal server error."
def status502 : Str := statusPage "502" "#e74c3c" "Bad gateway."
def status505 : Str := statusPage "505" "#e74c3c" "HTTP version not supported."
def status504 : Str := statusPage "504" "#e67e22"
  "Gateway Timeout: The server took too long to respond."

/-- The page `set_response_error` sends; empty for any other status. -/
def builtInPage (status : Int) : Str :=
  if status = 400 then status400
  else if status = 404 then status404
  else if status = 403 then status403
  else if status = 201 then status201
  else if status = 405 then status405
  else if status = 415 then status415
  else if status = 505 then status505
  else if status = 413 then status413
  else if status = 502 then status502
  else if status = 500 then status500
  else if status = 504 then status504
  else []

def getResponseTitle (status : Int) : Str :=
  if status = 400 then "Bad Request".toList
  else if status = 404 then "Not Found".toList
  else if status = 403 then "Forbidden".toList
  else if status = 201 then "Created".toList
  else if status = 405 then "Method Not Allowed".toList
  else if status = 415 then "Unsupported Media Type".toList
  else if status = 505 then "HTTP Version Not Supported".toList
  else if status = 413 then "Payload Too Large".toList
  else if status = 502 then "Bad Gateway".toList
  else if status = 500 then "\tInternal Server Error".toList
  else if status = 504 then "\tGateway Timeout".toList
  else "ok".toList

def getContentType (path : Str) : Str :=
  match findLast? '.' path with
  | none => []
  | some dot =>
      let ext := path.drop dot
      if ext = ".html".toList then "text/html".toList
      else if ext = ".css".toList then "text/css".toList
      else if ext = ".js".toList then "application/javascript".toList
      else if ext = ".json".toList then "application/json".toList
      else if ext = ".jpg".toList ∨ ext = ".jpeg".toList then
        "image/jpeg".toList
      else if ext = ".png".toList then "image/png".toList
      else if ext = ".gif".toList then "image/gif".toList
      else if ext = ".mp4".toList then "video/mp4".toList
      else if ext = ".pdf".toList then "application/pdf".toList
      else if ext = ".txt".toList then "text/plain".toList
      else if ext = ".zip".toList then "application/zip".toList
      else if ext = ".mp3".toList then "audio/mpeg".toList
      else []

def connectionLine (client : Client) : Str :=
  if client.keepAlive then "Connection: keep-alive\r\n".toList
  else "Connection: close\r\n".toList

/-- The status line and `Location` of a redirection both builders know. -/
def redirectionLines (redirection : Int) (location : Str) : Str :=
  if redirection = 301 then
    "301 Moved Permanently\r\nLocation: ".toList ++ location ++
      " \r\n".toList
  else if redirection = 302 then
    "302 Found\r\nLocation: ".toList ++ location ++ " \r\n".toList
  else []

section Builders

variable {W : Type} [Os W]

/-- The head for a file left open in the client's stream; empty when the file
cannot be opened. -/
def fillResponse (world : W) (client : Client) (filePath : Str)
    (status : Int) : Client × Str :=
  let fileStream := client.response.fileStream.close.openFile world filePath
  let client := client.setFileStream fileStream
  match fileStream.content with
  | none => (client, [])
  | some _ =>
      let client := client.setResponseStatus 200
      let redirection := client.request.redirection
      let first :=
        if redirection ≠ -1 then
          redirectionLines redirection client.request.location
        else
          decimalInt status ++ " ".toList ++ getResponseTitle status ++
            " \r\n".toList
      (client,
        "HTTP/1.1 ".toList ++ first ++
          "Content-Type:".toList ++ getContentType filePath ++
          "\r\n".toList ++
          "Content-Length: ".toList ++ decimal fileStream.size ++
          "\r\n".toList ++
          "Accept-Ranges: bytes\r\n".toList ++ connectionLine client ++
          "\r\n".toList)

/-- The complete message around a built-in page. -/
def builtInResponse (client : Client) (status : Int) : Str :=
  let red := client.request.redirection
  "HTTP/1.1 ".toList ++
    (if red ≠ -1 then redirectionLines red client.request.location else []) ++
    decimalInt status ++ getResponseTitle status ++ " \r\n".toList ++
    "Content-Type: text/html; charset=UTF-8\r\n".toList ++
    "Content-Length: ".toList ++ decimal (builtInPage status).length ++
    "\r\n".toList ++ connectionLine client ++ "\r\n".toList ++
    builtInPage status

def unreadablePageResponse (client : Client) (status : Int) : Str :=
  "HTTP/1.1 500 ".toList ++ getResponseTitle status ++ " \r\n".toList ++
    "Content-Type: text/html; charset=UTF-8\r\n".toList ++
    connectionLine client ++ "\r\n".toList ++ status500

def setResponseError (world : W) (client : Client) (status : Int) : Client :=
  let errorPath := client.serverClientObj.findErrorPagePath status
  let client := client.setAllRecv true
  if errorPath = "NULL".toList then
    client.answer status (builtInResponse client status)
  else
    let (client, res) := fillResponse world client errorPath status
    client.answer status
      (if res = [] then unreadablePageResponse client status else res)

/-- Whether the request path is a directory, answered with an error if not. -/
def checkUri (world : W) (client : Client) : Client × Bool :=
  match Os.stat world client.request.path with
  | none => (setResponseError world client 404, false)
  | some statbuf =>
      if statbuf.kind ≠ .directory then
        (setResponseError world client 405, false)
      else (client, true)

/-- The upload directory of the request, before it is looked at. -/
def uploadDirectory (block : ServerBlock) : Str :=
  match block.selected with
  | some route => route.clientBodyTempPath
  | none => "./upload".toList

/-- The upload directory, empty when it cannot be written to. -/
def getFileName (world : W) (client : Client) : Client × Str :=
  let dir := uploadDirectory client.serverClientObj
  match Os.stat world dir with
  | none => (setResponseError world client 502, [])
  | some statbuf =>
      if statbuf.kind ≠ .directory then (setResponseError world client 502, [])
      else if statbuf.ownerWrite = false then
        (setResponseError world client 502, [])
      else (client, dir)

/-- One answer for each entry of the route's redirections. -/
def answerRedirections (world : W) :
    List (Int × Str) → Client → Client
  | [], client => client
  | (code, url) :: rest, client =>
      answerRedirections world rest
        (setResponseError world (client.setRedirection code url) code)

def checkIfHaveRedirection (world : W) (client : Client) : Client :=
  match client.serverClientObj.selected with
  | some route => answerRedirections world route.redirections client
  | none => client

/-! What the builders leave as it was. -/

theorem fillResponse_frame (world : W) (client : Client) (filePath : Str)
    (status : Int) :
    ∃ fileStream responseStatus,
      (fillResponse world client filePath status).1 =
        { client with
          response := { client.response with
            fileStream := fileStream
            responseStatus := responseStatus } } := by
  unfold fillResponse
  simp only
  split
  · exact ⟨_, client.response.responseStatus, rfl⟩
  · exact ⟨_, 200, rfl⟩

/-- Every error answer is final: it only fills in the response. -/
theorem setResponseError_frame (world : W) (client : Client) (status : Int) :
    ∃ response,
      setResponseError world client status =
        { client with allRecv := true, response := response } ∧
      response.readyToSend = true ∧ response.responseStatus = status := by
  unfold setResponseError
  simp only
  split
  · exact ⟨_, rfl, rfl, rfl⟩
  · obtain ⟨fileStream, responseStatus, hfill⟩ :=
      fillResponse_frame world (client.setAllRecv true)
        (client.serverClientObj.findErrorPagePath status) status
    rw [hfill]
    exact ⟨_, rfl, rfl, rfl⟩

@[simp] theorem setResponseError_readyToSend (world : W) (client : Client)
    (status : Int) :
    (setResponseError world client status).response.readyToSend = true := by
  obtain ⟨response, heq, hready, -⟩ :=
    setResponseError_frame world client status
  rw [heq]
  exact hready

@[simp] theorem setResponseError_responseStatus (world : W) (client : Client)
    (status : Int) :
    (setResponseError world client status).response.responseStatus =
      status := by
  obtain ⟨response, heq, -, hstatus⟩ :=
    setResponseError_frame world client status
  rw [heq]
  exact hstatus

@[simp] theorem setResponseError_request (world : W) (client : Client)
    (status : Int) :
    (setResponseError world client status).request = client.request := by
  obtain ⟨response, heq, -, -⟩ := setResponseError_frame world client status
  rw [heq]

@[simp] theorem setResponseError_serverClientObj (world : W)
    (client : Client) (status : Int) :
    (setResponseError world client status).serverClientObj =
      client.serverClientObj := by
  obtain ⟨response, heq, -, -⟩ := setResponseError_frame world client status
  rw [heq]

@[simp] theorem setResponseError_keepAlive (world : W) (client : Client)
    (status : Int) :
    (setResponseError world client status).keepAlive = client.keepAlive := by
  obtain ⟨response, heq, -, -⟩ := setResponseError_frame world client status
  rw [heq]

@[simp] theorem setResponseError_clientId (world : W) (client : Client)
    (status : Int) :
    (setResponseError world client status).clientId = client.clientId := by
  obtain ⟨response, heq, -, -⟩ := setResponseError_frame world client status
  rw [heq]

@[simp] theorem setResponseError_allRecv (world : W) (client : Client)
    (status : Int) :
    (setResponseError world client status).allRecv = true := by
  obtain ⟨response, heq, -, -⟩ := setResponseError_frame world client status
  rw [heq]

theorem setResponseError_kept (world : W) (client : Client) (status : Int) :
    Client.Kept client (setResponseError world client status) :=
  ⟨setResponseError_clientId .., ⟨_, setResponseError_serverClientObj ..⟩,
    by simp⟩

theorem answerRedirections_kept (world : W)
    (redirections : List (Int × Str)) (client : Client) :
    Client.Kept client (answerRedirections world redirections client) := by
  induction redirections generalizing client with
  | nil => exact .refl client
  | cons entry rest ih =>
      obtain ⟨code, url⟩ := entry
      rw [answerRedirections]
      refine Client.Kept.trans ?_ (ih _)
      have hset : Client.Kept client (client.setRedirection code url) :=
        ⟨rfl, ⟨_, rfl⟩, id⟩
      exact hset.trans (setResponseError_kept world _ code)

theorem checkIfHaveRedirection_kept (world : W) (client : Client) :
    Client.Kept client (checkIfHaveRedirection world client) := by
  unfold checkIfHaveRedirection
  split
  · exact answerRedirections_kept world _ client
  · exact .refl client

theorem answerRedirections_frame (world : W)
    (redirections : List (Int × Str)) (client : Client) :
    (redirections = [] ∧
      answerRedirections world redirections client = client) ∨
    (answerRedirections world redirections client).response.readyToSend =
      true := by
  induction redirections generalizing client with
  | nil => exact .inl ⟨rfl, rfl⟩
  | cons entry rest ih =>
      right
      obtain ⟨code, url⟩ := entry
      rw [answerRedirections]
      rcases ih (setResponseError world (client.setRedirection code url)
        code) with ⟨-, heq⟩ | hready
      · rw [heq, setResponseError_readyToSend]
      · exact hready

theorem checkIfHaveRedirection_of_not_ready {world : W} {client : Client}
    (h : (checkIfHaveRedirection world client).response.readyToSend =
      false) :
    checkIfHaveRedirection world client = client := by
  unfold checkIfHaveRedirection at h ⊢
  split
  · rename_i route hselected
    rw [hselected] at h
    rcases answerRedirections_frame world route.redirections client with
      ⟨-, heq⟩ | hready
    · exact heq
    · rw [hready] at h
      cases h
  · rfl

end Builders

end Webserv
