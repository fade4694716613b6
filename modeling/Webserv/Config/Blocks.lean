import Webserv.Config.Values

namespace Webserv

open Cxx

/-! The configuration blocks, parsed from the parts between the semicolons: a
cursor runs over the parts, and a part that closes or opens a block is
rewritten in place. -/

structure Cursor where
  lines : List Str
  i : Nat
  deriving DecidableEq, Repr

namespace Cursor

/-- `lines[i]`. -/
def line (cursor : Cursor) : Except Fault Str :=
  match cursor.lines[cursor.i]? with
  | some line => .ok line
  | none => .error .badSlot

/-- `get_words(lines[i])`. -/
def getWords (cursor : Cursor) : Except Fault (List Str) :=
  cursor.line.map words

/-- `lines[i] = rest`. -/
def setLine (cursor : Cursor) (rest : Str) : Cursor :=
  { cursor with lines := cursor.lines.set cursor.i rest }

def next (cursor : Cursor) : Cursor := { cursor with i := cursor.i + 1 }

end Cursor

def spaceBefore (words : List Str) : Str := words.flatMap fun word => ' ' :: word

def spaceBehind (words : List Str) : Str := words.flatMap (· ++ [' '])

def behindBrace (word : Str) (args : List Str) : Str :=
  spaceBehind ((if 1 < word.length then word.tail else [' ']) :: args)

/-! Locations. -/

/-- What `check_first_line` makes of a part. -/
inductive FirstLine
  /-- No location starts here. -/
  | ends
  | invalid
  | opens (uri rest : Str)
  deriving DecidableEq, Repr

def openLocation (uri : Str) (rest : List Str) : FirstLine :=
  if hasBrace uri then .invalid
  else if uri.head? ≠ some '/' then .invalid
  else .opens uri (spaceBefore rest)

def checkFirstLine (words : List Str) : Except Fault FirstLine :=
  match words with
  | [] => .error .badSlot
  | word :: args =>
      if word ≠ "location".toList ∧ word ≠ "location\x7b".toList then .ok .ends
      else
        match args with
        | uri :: brace :: first :: rest =>
            if uri.getLast? = some '{' then
              .ok (openLocation uri.dropLast (brace :: first :: rest))
            else if brace ≠ "\x7b".toList then .ok .invalid
            else .ok (openLocation uri (first :: rest))
        | _ => .ok .invalid

section Parsing

variable {W : Type} [Os W]

/-- The directive of a location, if there is one, with the status it leaves. -/
def routeDirective (world : W) (route : RouteBlock) (words : List Str) :
    Option (RouteBlock × Bool) :=
  let name := words.headD []
  if name = "allowed_methods".toList then
    let (methods, status) := parsMethods words
    some ({ route with methods := methods }, status)
  else if name = "autoindex".toList then
    let (autoindex, status) := parsAutoindex words
    some ({ route with autoindex := autoindex }, status)
  else if name = "index".toList then
    let (index, status) := parsIndex words
    some ({ route with index := index }, status)
  else if name = "cgi_extension".toList then
    let (extension, status) := parsCgiExt words
    some ({ route with cgiExtension := extension }, status)
  else if name = "client_body_temp_path".toList then
    let (path, status) := parsTempPath world words
    some ({ route with clientBodyTempPath := path }, status)
  else if name = "root".toList then
    let (root, status) := getRoot world words
    some ({ route with root := root }, status)
  else if name = "return".toList then
    let (redirection, status) := getRedirection words
    some ({ route with
      redirections := codeInsertAll redirection route.redirections }, status)
  else none

/-- The loop of `fill_route`, with the words of the current part. -/
def fillRouteLoop (world : W) :
    Nat → RouteBlock → Cursor → List Str → Bool →
      Except Fault (RouteBlock × Cursor × Bool)
  | 0, _, _, _, _ => .error .diverges
  | fuel + 1, route, cursor, words, status =>
      if cursor.lines.length ≤ cursor.i then .ok (route, cursor, status)
      else if status = false then .ok (route, cursor, false)
      else
        match words with
        | [] => .error .badSlot
        | word :: args =>
            if word.head? = some '}' then
              if word = "\x7d".toList ∧ args = [] then .ok (route, cursor, false)
              else .ok (route, cursor.setLine (behindBrace word args), status)
            else
              match routeDirective world route (word :: args) with
              | none => .ok (route, cursor, false)
              | some (route, status) => do
                  let words ← cursor.next.getWords
                  fillRouteLoop world fuel route cursor.next words status

def fillRoute (world : W) (fuel : Nat) (route : RouteBlock)
    (cursor : Cursor) : Except Fault (RouteBlock × Cursor × Bool) := do
  let words ← cursor.getWords
  fillRouteLoop world fuel route cursor words true

/-- The loop of `pars_routes`: locations in a row. -/
def parsRoutes (world : W) :
    Nat → List RouteBlock → Cursor → Bool →
      Except Fault (List RouteBlock × Cursor × Bool)
  | 0, _, _, _ => .error .diverges
  | fuel + 1, routes, cursor, status =>
      if cursor.lines.length ≤ cursor.i then .ok (routes, cursor, status)
      else if status = false then .ok (routes, cursor, false)
      else do
        let words ← cursor.getWords
        match ← checkFirstLine words with
        | .ends => return (routes, cursor, status)
        | .invalid => return (routes, cursor, false)
        | .opens uri rest =>
            let (route, cursor, status) ←
              fillRoute world fuel { uri := uri } (cursor.setLine rest)
            if status = false then return (routes, cursor, false)
            else parsRoutes world fuel (routes ++ [route]) cursor status

/-! Servers. -/

def ServerBlock.setPort (server : ServerBlock) (port : Int) : ServerBlock :=
  if port > 0 then { server with port := server.port ++ [port] } else server

/-- The directive of a server but for locations, if there is one, with the
status it leaves. -/
def serverDirective (world : W) (numb : Int) (server : ServerBlock)
    (words : List Str) : Option (ServerBlock × Bool) :=
  let name := words.headD []
  if name = "host".toList then
    let (host, status) := parsHost numb words
    some ({ server with host := host }, status)
  else if name = "listen".toList then
    let (port, status) := parsPort words
    some (server.setPort port, status)
  else if name = "server_name".toList then
    let (names, status) := parsServerNames words
    some ({ server with serverNames := names }, status)
  else if name = "index".toList then
    let (index, status) := parsIndex words
    some ({ server with index := server.index ++ index }, status)
  else if name = "client_max_body_size".toList then
    let (bytes, status) := parsCbs words
    some ({ server with clientBodySize := bytes }, status)
  else if name = "error_page".toList then
    let (pages, status) := parsErrorPages world words
    some ({ server with
      errorPages := codeInsertAll pages server.errorPages }, status)
  else if name = "root".toList then
    let (root, status) := getRoot world words
    some ({ server with serverRoot := root }, status)
  else none

/-- The loop of `fill_rest`, with the words of the current part.  The numbers
are what the uninitialised variable of each call of `pars_host` holds, by how
many parts are left. -/
def fillRestLoop (world : W) (numbs : Nat → Int) :
    Nat → ServerBlock → Cursor → List Str → Bool →
      Except Fault (ServerBlock × Cursor × Bool)
  | 0, _, _, _, _ => .error .diverges
  | fuel + 1, server, cursor, words, status =>
      if cursor.lines.length ≤ cursor.i then .ok (server, cursor, status)
      else if status = false then .ok (server, cursor, false)
      else
        match words with
        | [] => .error .badSlot
        | word :: args =>
            if word.head? = some '}' then
              if word = "\x7d".toList ∧ args = [] then
                .ok (server, cursor.setLine [' '],
                  !decide (cursor.i < cursor.lines.length - 1))
              else
                .ok (server, cursor.setLine (behindBrace word args), status)
            else if word = "location".toList then do
              -- `i--` behind the locations, and `i++` behind the directive
              let (routes, cursor, status) ←
                parsRoutes world fuel [] cursor status
              let server := { server with routes := server.routes ++ routes }
              let words ← cursor.getWords
              fillRestLoop world numbs fuel server cursor words status
            else
              match serverDirective world
                (numbs (cursor.lines.length - cursor.i)) server
                (word :: args) with
              | none => .ok (server, cursor, false)
              | some (server, status) => do
                  let words ← cursor.next.getWords
                  fillRestLoop world numbs fuel server cursor.next words
                    status

def fillRest (world : W) (numbs : Nat → Int) (fuel : Nat)
    (server : ServerBlock) (cursor : Cursor) :
    Except Fault (ServerBlock × Cursor × Bool) := do
  let words ← cursor.getWords
  fillRestLoop world numbs fuel server cursor words true

/-- The text behind `server {`, if the part starts like that. -/
def checkLine (line : Str) : Except Fault (Option Str) :=
  match splitBrace line with
  | [first, rest] => do
      let firstWord ← trimstr first
      if firstWord ≠ "server".toList then return none
      else return some (' ' :: rest)
  | _ => .ok none

/-- The first location for `/` gives its root and index to the server. -/
def ServerBlock.updateServerInfo (server : ServerBlock)
    (route : RouteBlock) : ServerBlock :=
  { server with serverRoot := route.root, index := route.index }

def ServerBlock.checkStatus (server : ServerBlock) : ServerBlock × Bool :=
  if server.host = [] then (server, false)
  else if server.port = [] then (server, false)
  else
    match server.routes.find? (·.uri = "/".toList) with
    | some route => (server.updateServerInfo route, true)
    | none => (server, true)

def parsServer (world : W) (numbs : Nat → Int) (fuel : Nat)
    (cursor : Cursor) : Except Fault (ServerBlock × Cursor × Bool) := do
  let line ← cursor.line
  match ← checkLine line with
  | none => return ({}, cursor, false)
  | some rest =>
      let (server, cursor, status) ←
        fillRest world numbs fuel {} (cursor.setLine rest)
      if status = false then return (server, cursor, false)
      else
        let (server, status) := server.checkStatus
        return (server, cursor, status)

structure Confile where
  servers : List ServerBlock := []
  numberOfServer : Nat := 0
  status : Bool := true
  deriving DecidableEq, Repr

/-- The loop of `set_server`, one server for each turn. -/
def setServerLoop (world : W) (numbs : Nat → Int) :
    Nat → Confile → Cursor → Except Fault Confile
  | 0, _, _ => .error .diverges
  | fuel + 1, conf, cursor =>
      if cursor.lines.length ≤ cursor.i then .ok conf
      else do
        let words ← cursor.getWords
        if words = [] then return conf
        let (server, cursor, status) ← parsServer world numbs fuel cursor
        if status then
          setServerLoop world numbs fuel
            { conf with
              servers := conf.servers ++ [server]
              numberOfServer := conf.numberOfServer + 1
              status := true } cursor
        else return { conf with status := false }

/-- The page `set_default_page` writes. -/
def defaultPage : Str :=
  ("<!DOCTYPE html>\n<html lang=\"en\">\n<head>\n" ++
    "    <meta charset=\"UTF-8\">\n" ++
    "    <meta name=\"viewport\" content=\"width=device-width, initial-scale=1.0\">\n" ++
    "    <title>Document</title>\n</head>\n<body>\n" ++
    "    <center><h1>Welcome to webserv 0.1</h1></center>\n" ++
    "</body>\n</html>\n").toList

/-- The world afterwards, and whether the page could be opened. -/
def setDefaultPage (world : W) : W × Bool :=
  if Os.access world "html".toList .exists = false then (world, false)
  else
    let (indexfile, world) :=
      ({} : OFStream).openFile world "html/index.html".toList
    if indexfile.failed then (world, false)
    else
      let (_, world, _) := indexfile.put world defaultPage
      (world, true)

/-- More turns than any of the loops takes. -/
def turns (parts : List Str) : Nat :=
  (parts.map List.length).sum + parts.length + 3

def setServer (world : W) (numbs : Nat → Int) (parts : List Str) :
    Except Fault (W × Confile) :=
  let (world, found) := setDefaultPage world
  if found = false then .ok (world, { status := false })
  else do
    let conf ← setServerLoop world numbs (turns parts) {} ⟨parts, 0⟩
    return (world, conf)

end Parsing

end Webserv
