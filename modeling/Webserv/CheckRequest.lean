import Webserv.Cgi

namespace Webserv

open Cxx

/-! The handlers for `GET` and `DELETE`, and the dispatch of a buffer. -/

section Handlers

variable {W : Type} [Os W]

/-- The answer of `check_auto_index`, with the value of its out-parameter. -/
def checkAutoIndex (world : W) (client : Client) :
    List RouteBlock → Client × Nat
  | [] => (client, 2)
  | route :: rest =>
      if client.request.path = route.location ∧ route.autoindex = false then
        (setResponseError world client 403, 1)
      else checkAutoIndex world client rest

/-- The last candidate of a list of names, or the first one that exists. -/
def findIndex (world : W) (path : Str) : List Str → Str → Str
  | [], str => str
  | name :: rest, _ =>
      let str := path ++ "/".toList ++ name
      if (Os.stat world str).isSome then str
      else findIndex world path rest str

/-- The file tried for a directory. -/
def indexCandidate (world : W) (client : Client) : Str :=
  let block := client.serverClientObj
  let path := client.request.path
  let index := match block.selected with
    | some route => route.index
    | none => block.index
  if index = [] then path ++ "/".toList ++ "index.html".toList
  else findIndex world path index []

def listingHead : Str :=
  ("<html>\n<head>\n<title>Found Files</title>\n" ++
    "<style>\n" ++
    "  body \x7b font-family: Arial, sans-serif; background-color: #f4f4f4; color: #333; \x7d\n" ++
    "  h1 \x7b color: #4CAF50; \x7d\n" ++
    "  ul \x7b list-style-type: none; padding: 0; \x7d\n" ++
    "  li \x7b background-color: #fff; border: 1px solid #ddd; margin: 5px 0; padding: 10px; border-radius: 5px; \x7d\n" ++
    "  a \x7b text-decoration: none; color: #007BFF; font-size: 18px; \x7d\n" ++
    "  a:hover \x7b color: #0056b3; \x7d\n" ++
    "  .container \x7b max-width: 800px; margin: 0 auto; padding: 20px; background-color: #fff; border-radius: 8px; box-shadow: 0 4px 8px rgba(0,0,0,0.1); \x7d\n" ++
    "</style>\n" ++
    "</head>\n<body>\n" ++
    "<div class='container'>\n" ++
    "<h1>Found Files in Directory</h1>\n<ul>\n").toList

def listingEntries (base : Str) : List Str → Str
  | [] => []
  | fileName :: rest =>
      "<li><a href=\"".toList ++ base ++ "/".toList ++ fileName ++
        "\">".toList ++ fileName ++ "</a></li>\n".toList ++
        listingEntries base rest

def directoryListing (client : Client) (names : List Str) :
    Except Fault Client := do
  let block := client.serverClientObj
  let root := match block.selected with
    | some route => route.root
    | none => block.serverRoot
  let base ← if names = [] then pure [] else
    substrFrom client.request.path root.length
  let foundFiles := listingHead ++ listingEntries base names
  let contentLength := decimal foundFiles.length
  let foundFiles := foundFiles ++ "</ul>\n</div>\n</body>\n</html>\n".toList
  let res := "HTTP/1.1 200 OK\r\n".toList ++ "Content-Length: ".toList ++
    contentLength ++ "\r\n".toList ++
    "Content-Type: text/html; charset=UTF-8\r\n".toList ++
    connectionLine client ++ "\r\n".toList ++ foundFiles
  return (client.setResponseStatus 200).setResponse res

/-- `fill_response` with its result stored. -/
def sendFile (world : W) (client : Client) (path : Str) : Client :=
  let (client, res) := fillResponse world client path 200
  client.setResponse res

/-- The answer for a directory, by the flag of `check_auto_index`. -/
def directoryAnswer (world : W) (client : Client) (flag : Nat) (str : Str)
    (names : List Str) : Except Fault Client :=
  if flag = 1 then .ok client
  else
    match client.serverClientObj.selected with
    | none =>
        if flag = 2 then .ok (setResponseError world client 403)
        else .ok (sendFile world client str)
    | some route =>
        if route.autoindex = false then
          if flag = 2 then .ok (setResponseError world client 404)
          else .ok (sendFile world client str)
        else if flag = 0 then .ok (sendFile world client str)
        else directoryListing client names

def directoryResponse (world : W) (client : Client) :
    Except Fault Client :=
  if Os.access world client.request.path .read = false then
    .ok (setResponseError world client 403)
  else
    match Os.readdir world client.request.path with
    | none => .ok (setResponseError world client 404)
    | some names =>
        let str := indexCandidate world client
        if (Os.stat world str).isNone then
          let checked :=
            checkAutoIndex world client client.serverClientObj.routes
          directoryAnswer world checked.1 checked.2 str names
        else directoryAnswer world client 0 str names

def responseToGet (world : W) (client : Client) : Except Fault Client :=
  match Os.stat world client.request.path with
  | none => .ok (setResponseError world client 404)
  | some pathStat =>
      match pathStat.kind with
      | .directory => directoryResponse world client
      | .regular =>
          if pathStat.ownerRead = false then
            .ok (setResponseError world client 403)
          else .ok (sendFile world client client.request.path)
      | .other => .ok (setResponseError world client 404)

def pathMax : Nat := 4096

/-- The loop over the entries of a directory. -/
def deleteEntries (delete : W → Str → W × List Str × Bool) (path : Str) :
    List Str → W → W × List Str × Bool
  | [], world => (world, [], true)
  | name :: rest, world =>
      if name = ".".toList ∨ name = "..".toList then
        deleteEntries delete path rest world
      else
        let (world, removed, ok) := delete world (path ++ "/".toList ++ name)
        if ok = false then (world, removed, false)
        else
          let (world, more, ok) := deleteEntries delete path rest world
          (world, removed ++ more, ok)

/-- The world and the paths removed, and whether no exception was thrown.
Every level adds to the path, and no call takes more than `pathMax`. -/
def handleDeleteRequest : Nat → W → Str → W × List Str × Bool
  | 0, world, _ => (world, [], false)
  | fuel + 1, world, path =>
      if path.length ≥ pathMax then (world, [], false)
      else
        match Os.stat world path with
        | none => (world, [], false)
        | some buf =>
            if buf.kind = .directory then
              match Os.readdir world path with
              | none => (world, [], false)
              | some names =>
                  let (world, removed, ok) :=
                    deleteEntries (handleDeleteRequest fuel) path names world
                  if ok = false then (world, removed, false)
                  else
                    match Os.remove world path with
                    | none => (world, removed, false)
                    | some world => (world, removed ++ [path], true)
            else
              match Os.remove world path with
              | none => (world, [], false)
              | some world => (world, [path], true)

def Process.logRemoved (process : Process W) (client : Client)
    (paths : List Str) : Process W :=
  { process with
    effects := process.effects ++
      paths.map fun path => ⟨client.clientId, .remove path⟩ }

/-- The `DELETE` branch of `check_request`. -/
def deleteRequest (process : Process W) (client : Client) :
    Process W × Client :=
  let client := client.setAllRecv true
  let (world, removed, ok) :=
    handleDeleteRequest (pathMax + 1) process.world client.request.path
  let process := ({ process with world := world }).logRemoved client removed
  (process, setResponseError world client (if ok then 204 else 404))

def takeBody (process : Process W) (client : Client) :
    Except Fault (Process W × Client) :=
  let contentType := client.request.getMapValues "Content-Type".toList
  let check := client.request.getMapValues "Transfer-Encoding".toList
  if (search? "boundary=".toList contentType).isSome ∧ check ≠ [] then
    boundary process client
  else if check = "chunked".toList then chunked process client
  else hanldePostRequest process client

/-- A complete body without an answer yet gets a `201`. -/
def answerCreated (process : Process W) (client : Client) : Client :=
  if client.allRecv ∧ client.response.readyToSend = false then
    setResponseError process.world client 201
  else client

/-- The `POST` branch of `check_request`. -/
def postRequest (process : Process W) (client : Client) :
    Except Fault (Process W × Client) :=
  let checked := checkUri process.world client
  if checked.2 = false then .ok (process, checked.1)
  else do
    let (process, client) ← takeBody process checked.1
    return (process, answerCreated process client)

def dispatchMethod (process : Process W) (client : Client) :
    Except Fault (Process W × Client) :=
  if client.request.method = "GET".toList then do
    let client ← responseToGet process.world client
    return (process, client.setAllRecv true)
  else if client.request.method = "POST".toList then
    postRequest process client
  else if client.request.method = "DELETE".toList then
    .ok (deleteRequest process client)
  else .ok (process, client)

/-- From the choice between a script and a file on. -/
def dispatchRequest (process : Process W) (client : Client) :
    Except Fault (Process W × Client) :=
  if client.response.readyToSend then
    .ok (process, client.setAllRecv true)
  else do
    let (process, client, isCgi) ← checkIfHaveCgi process client
    if isCgi then return (process, client)
    else if client.response.readyToSend then
      return (process, client.setAllRecv true)
    else dispatchMethod process client

/-- The route chosen for the buffer before is forgotten. -/
def Client.forgetLocation (client : Client) : Client :=
  client.setBlock (client.serverClientObj.setLocationUrl none)

def parseOnce (world : W) (client : Client) : Except Fault Client :=
  if client.request.index = false then parseRequest world client
  else .ok client

def checkRequest (process : Process W) (client : Client) :
    Except Fault (Process W × Client) := do
  let client ← parseOnce process.world client.forgetLocation
  dispatchRequest process client

/-- One buffer of a connection the server still reads from: after the last
one it polls the connection for writing only. -/
def receive (process : Process W) (client : Client) (bytes : Str) :
    Except Fault (Process W × Client) :=
  if client.allRecv then .ok (process, client)
  else checkRequest process (client.setSRequest bytes)

end Handlers

end Webserv
