import Webserv.Upload

namespace Webserv

open Cxx

/-! The dispatch of a request to a script. -/

/-- The extension of a script path: 1 for php, 2 for python, 0 otherwise. -/
def checkExtension (fullPath : Str) : Nat :=
  if fullPath.length ≥ 4 then
    let extension := fullPath.drop (fullPath.length - 4)
    if extension ≠ ".php".toList then
      if extension.drop 1 = ".py".toList then 2 else 0
    else 1
  else 0

/-- The status in a header section that starts with `Status:`. -/
def checkStatus (header : Str) : Int :=
  match words header with
  | first :: second :: _ =>
      if first = "Status:".toList then extractInt second else 0
  | _ => 0

/-- The body behind the header section, and the section's status. -/
def checkContent (content : Str) : Str × Int :=
  match search? "\r\n\r\n".toList content with
  | some pos => (content.drop (pos + 4), checkStatus (content.take pos))
  | none => (content, 0)

def convertToUp (key : Str) : Str :=
  key.map fun c => if c = '-' then '_' else c.toUpper

def getEnv (map : List (Str × Str)) (fullPath method scriptName : Str) :
    List Str :=
  map.filterMap (fun (key, value) =>
    let key := convertToUp key
    if key = "CONTENT_TYPE".toList ∨ key = "CONTENT_LENGTH".toList then
      some (key ++ "=".toList ++ value)
    else none) ++
  ["REDIRECT_STATUS=200".toList,
    "GATEWAY_INTERFACE=CGI/1.1".toList,
    "REQUEST_METHOD=".toList ++ method,
    "SCRIPT_FILENAME=".toList ++ fullPath,
    "SCRIPT_NAME=".toList ++ scriptName]

section Cgi

variable {W : Type} [Os W]

def scriptOutput (script : Script) (content : Str) : Str × Int :=
  if checkExtension script.argument = 1 then checkContent content
  else (content, 0)

def execScript (process : Process W) (client : Client) (script : Script) :
    Process W × Client :=
  let (world, outcome) := Os.run process.world script
  let process := { process with world := world }
  match outcome with
  | .notStarted => (process, client)
  | .timedOut => (process, setResponseError world client 504)
  | .signaled => (process, setResponseError world client 500)
  | .exited code content =>
      if code = 1 then (process, setResponseError world client 500)
      else if code = 2 then (process, setResponseError world client 404)
      else
        let (content, status) := scriptOutput script content
        if status = 500 then (process, setResponseError world client 500)
        else if status = 404 then
          (process, setResponseError world client 404)
        else
          (process, client.setResponse (client.response.response ++ content))

def cgiHandler (process : Process W) (client : Client) (body sn : Str) :
    Process W × Client :=
  let process := process.log client (.cgi sn body)
  let fullPath := client.request.path
  let env := getEnv client.request.headersMap fullPath client.request.method sn
  let code := checkExtension fullPath
  if code = 1 then
    execScript process client ⟨"/usr/bin/php-cgi".toList, fullPath, env, body⟩
  else if code = 2 then
    execScript process client ⟨"/usr/bin/python3".toList, fullPath, env, body⟩
  else (process, client)

/-- The loop of `chunked_for_cgi`, with the text it returns. -/
def chunkedForCgiLoop : Nat → Process W → Client →
    Except Fault (Process W × Client × Str)
  | 0, _, _ => .error .diverges
  | fuel + 1, process, client =>
      match search? "\r\n".toList process.cgiChunk.request with
      | none => .ok (process, client, [])
      | some pos => do
          let line ← substr process.cgiChunk.request 0 (pos + 2)
          let size := sizeT (hexToInt line).toInt
          if size = 0 then
            return ({ process with cgiChunk := {} },
              (client.setAllRecv true).setSRequest process.cgiChunk.result,
              process.cgiChunk.result)
          let tmp ← substrFrom process.cgiChunk.request (pos + 2)
          if tmp.length < size then return (process, client, [])
          let request ← substrFrom process.cgiChunk.request (pos + 2)
          let data ← substr request 0 size
          let request ← substrFrom request (sizeT (size + 2))
          chunkedForCgiLoop fuel { process with
            cgiChunk :=
              { request := request
                result := process.cgiChunk.result ++ data } } client

def chunkedForCgi (process : Process W) (client : Client) :
    Except Fault (Process W × Client × Str) :=
  let request := process.cgiChunk.request ++ client.request.sRequest
  chunkedForCgiLoop (request.length + 1)
    { process with cgiChunk := { process.cgiChunk with request := request } }
    client

/-- Which of the two statics called `body_cgi` is meant. -/
inductive BodySlot
  | location
  | server
  deriving DecidableEq, Repr

def Process.getBody (process : Process W) : BodySlot → Str
  | .location => process.bodyCgi.location
  | .server => process.bodyCgi.server

def Process.setBody (process : Process W) (slot : BodySlot) (body : Str) :
    Process W :=
  match slot with
  | .location =>
      { process with bodyCgi := { process.bodyCgi with location := body } }
  | .server =>
      { process with bodyCgi := { process.bodyCgi with server := body } }

omit [Os W] in
@[simp] theorem Process.setBody_effects (process : Process W)
    (slot : BodySlot) (body : Str) :
    (process.setBody slot body).effects = process.effects := by
  cases slot <;> rfl

/-- The script is run on the whole body, which is then forgotten. -/
def runOnBody (slot : BodySlot) (process : Process W) (client : Client)
    (path : Str) : Process W × Client :=
  let (process, client) :=
    cgiHandler process client (process.getBody slot) path
  (process.setBody slot [], client)

/-- The handling of a `POST` body, the same for both statics. -/
def cgiPost (slot : BodySlot) (process : Process W) (client : Client)
    (path : Str) : Except Fault (Process W × Client) :=
  if client.request.getMapValues "Transfer-Encoding".toList =
      "chunked".toList then do
    let (process, client, tmp) ← chunkedForCgi process client
    let process := process.setBody slot (process.getBody slot ++ tmp)
    if client.allRecv then return runOnBody slot process client path
    else return (process, client)
  else
    let process := process.setBody slot
      (process.getBody slot ++ client.request.sRequest)
    if client.request.contentLength = (process.getBody slot).length then
      let (process, client) := runOnBody slot process client path
      .ok (process, client.setAllRecv true)
    else .ok (process, client)

/-- What follows a handled request on a connection that is kept. -/
def markAlive (client : Client) : Client :=
  if client.keepAlive then
    (client.setResponseIndex true).setResponseStatus 200
  else client

/-- The loop over the extensions of the selected location. -/
def cgiExtensions (ex path : Str) : List Str → Process W → Client → Bool →
    Except Fault (Process W × Client × Bool)
  | [], process, client, bol => .ok (process, client, bol)
  | extension :: rest, process, client, bol =>
      if extension = ex then
        if client.request.method = "POST".toList then do
          let (process, client) ← cgiPost .location process client path
          cgiExtensions ex path rest process (markAlive client) true
        else if client.request.method = "GET".toList then
          let (process, client) :=
            cgiHandler process (client.setAllRecv true) [] path
          cgiExtensions ex path rest process (markAlive client) true
        else
          .ok (process, setResponseError process.world client 415, true)
      else cgiExtensions ex path rest process client bol

/-- The branch of `check_if_have_cgi` without a location. -/
def cgiServer (process : Process W) (client : Client) (path : Str) :
    Except Fault (Process W × Client × Bool) :=
  if client.request.method = "POST".toList then do
    let (process, client) ← cgiPost .server process client path
    return (process, markAlive client, true)
  else if client.request.method = "GET".toList then
    let (process, client) := cgiHandler process client [] path
    .ok (process, markAlive (client.setAllRecv true), true)
  else .ok (process, setResponseError process.world client 405, true)

def scriptExtension? (path : Str) : Option Str :=
  match findLast? '.' path with
  | none => none
  | some pos =>
      let ex := path.drop pos
      if ex = ".php".toList ∨ ex = ".py".toList then some ex else none

def checkIfHaveCgi (process : Process W) (client : Client) :
    Except Fault (Process W × Client × Bool) :=
  let path := client.request.path
  match scriptExtension? path with
  | none => .ok (process, client, false)
  | some ex =>
      match client.serverClientObj.selected with
      | some route =>
          cgiExtensions ex path route.cgiExtension process client false
      | none => cgiServer process client path

end Cgi

end Webserv
