import Webserv.ServerBlock
import Webserv.Cxx.Stream

namespace Webserv

open Cxx

/-! The record the server keeps for each connection. -/

structure Request where
  method : Str := []
  version : Str := []
  path : Str := []
  headersMap : List (Str × Str) := []
  sRequest : Str := []
  /-- Set once the head has been parsed. -/
  index : Bool := false
  contentLength : Nat := 0
  file : OFStream := {}
  redirection : Int := -1
  location : Str := []
  isStringReqSend : Bool := false
  deriving DecidableEq, Repr

structure Response where
  fileStream : IFStream := {}
  response : Str := []
  readyToSend : Bool := false
  responseStatus : Int := 0
  deriving DecidableEq, Repr

structure Client where
  clientId : Int
  request : Request := {}
  response : Response := {}
  keepAlive : Bool := false
  allRecv : Bool := false
  serverClientObj : ServerBlock
  deriving DecidableEq, Repr

/-- `map[key] = value` on the entries in key order. -/
def mapAssign (key value : Str) : List (Str × Str) → List (Str × Str)
  | [] => [(key, value)]
  | (k, v) :: rest =>
      if key = k then (key, value) :: rest
      else if key < k then (key, value) :: (k, v) :: rest
      else (k, v) :: mapAssign key value rest

namespace Request

def getMapValues (request : Request) (key : Str) : Str :=
  match request.headersMap.lookup key with
  | some value => value
  | none => "NULL".toList

end Request

namespace Client

def setAllRecv (client : Client) (check : Bool) : Client :=
  { client with allRecv := check }

def setAlive (client : Client) (keep : Bool) : Client :=
  { client with keepAlive := keep }

def setSRequest (client : Client) (bytes : Str) : Client :=
  { client with request := { client.request with sRequest := bytes } }

def setPath (client : Client) (path : Str) : Client :=
  { client with request := { client.request with path := path } }

def setRedirection (client : Client) (code : Int) (url : Str) : Client :=
  { client with
    request := { client.request with
      redirection := code
      location := url } }

def setContentLength (client : Client) (size : Nat) : Client :=
  { client with request := { client.request with contentLength := size } }

def setLine (client : Client) (method path version : Str) : Client :=
  { client with
    request := { client.request with
      method := method
      path := path
      version := version } }

def setBlock (client : Client) (block : ServerBlock) : Client :=
  { client with serverClientObj := block }

def setIndex (client : Client) (index : Bool) : Client :=
  { client with request := { client.request with index := index } }

def setFile (client : Client) (file : OFStream) : Client :=
  { client with request := { client.request with file := file } }

def setResponse (client : Client) (response : Str) : Client :=
  { client with response := { client.response with response := response } }

def setResponseIndex (client : Client) (index : Bool) : Client :=
  { client with response := { client.response with readyToSend := index } }

def setResponseStatus (client : Client) (status : Int) : Client :=
  { client with
    response := { client.response with responseStatus := status } }

def setFileStream (client : Client) (file : IFStream) : Client :=
  { client with response := { client.response with fileStream := file } }

/-- The last three calls of every builder of an error answer. -/
def answer (client : Client) (status : Int) (response : Str) : Client :=
  ((client.setResponseStatus status).setResponse response).setResponseIndex
    true

/-- A connection as `acceptClient` records it. -/
def connect (fd : Int) (block : ServerBlock) : Client where
  clientId := fd
  serverClientObj := block

def reset (client : Client) : Client :=
  { client with
    request := {}
    response := {}
    keepAlive := false
    allRecv := false }

/-- What no handler changes on a connection: its descriptor and the
configuration it was accepted under.  None turns keep-alive on. -/
structure Kept (client client' : Client) : Prop where
  clientId : client'.clientId = client.clientId
  block : ∃ url, client'.serverClientObj =
    client.serverClientObj.setLocationUrl url
  keepAlive : client.keepAlive = false → client'.keepAlive = false

theorem Kept.refl (client : Client) : Kept client client :=
  ⟨rfl, ⟨_, rfl⟩, id⟩

theorem Kept.trans {first second third : Client} (hfirst : Kept first second)
    (hsecond : Kept second third) : Kept first third := by
  obtain ⟨url, hurl⟩ := hfirst.block
  obtain ⟨url', hurl'⟩ := hsecond.block
  refine ⟨hsecond.clientId.trans hfirst.clientId, ⟨url', ?_⟩,
    hsecond.keepAlive ∘ hfirst.keepAlive⟩
  rw [hurl', hurl, ServerBlock.setLocationUrl_setLocationUrl]

theorem Kept.after {first second third : Client}
    (hsecond : Kept second third) (hfirst : Kept first second) :
    Kept first third :=
  hfirst.trans hsecond

theorem kept_setResponseIndex (client : Client) (index : Bool) :
    Kept client (client.setResponseIndex index) :=
  ⟨rfl, ⟨_, rfl⟩, id⟩

theorem kept_setPath (client : Client) (path : Str) :
    Kept client (client.setPath path) :=
  ⟨rfl, ⟨_, rfl⟩, id⟩

theorem Kept.routes {client client' : Client} (h : Kept client client') :
    client'.serverClientObj.routes = client.serverClientObj.routes := by
  obtain ⟨url, hurl⟩ := h.block
  rw [hurl, ServerBlock.setLocationUrl_routes]

end Client

end Webserv
