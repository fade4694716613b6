import Webserv.CheckRequest

namespace Webserv

open Cxx

/-! The event loop.  Its vectors are lists whose slots shift on `erase`, and an
access out of range ends the run. -/

inductive Interest
  | pollIn
  | pollOut
  deriving DecidableEq, Repr

structure Revents where
  /-- `POLLERR`, `POLLHUP` or `POLLNVAL` -/
  trouble : Bool := false
  pollIn : Bool := false
  pollOut : Bool := false
  deriving DecidableEq, Repr

structure PollFd where
  fd : Int
  events : Interest := .pollIn
  revents : Revents := {}
  deriving DecidableEq, Repr

structure ServerConfig where
  serverBlockIndex : Int
  /-- `-1` where the socket could not be set up. -/
  fd : Int := -1
  deriving DecidableEq, Repr

structure Server (W : Type) where
  process : Process W
  serverBlockObj : List ServerBlock
  serverConfigs : List ServerConfig := []
  clients : List Client := []
  pollfds : List PollFd := []
  pollfdsClients : List PollFd := []
  pollfdsServers : List PollFd := []
  /-- The loop over `pollfds` goes on with the slot below this one. -/
  cursor : Nat := 0
  /-- The descriptors closed, in order. -/
  closed : List Int := []
  /-- The bytes that `send` has accepted for each descriptor, in order. -/
  sent : List (Int × Str) := []

/-- What the calls made in one visit of a slot return. -/
structure Answers where
  /-- `accept` -/
  accepted : Option Int := none
  /-- A call of `fcntl` on the descriptor accepted fails. -/
  blocking : Bool := false
  /-- The bytes of `recv`; none when it returns 0 or fails. -/
  received : Str := []
  /-- `send` of the response string -/
  sentHead : Int := 0
  /-- `send` of a piece of the file -/
  sentChunk : Int := 0

namespace Server

variable {W : Type}

def initializeServers (world : W) (blocks : List ServerBlock)
    (created : List ServerConfig) : Server W :=
  let polled := (created.filter (0 ≤ ·.fd)).map fun config => { fd := config.fd }
  { process := { world := world }
    serverBlockObj := blocks
    serverConfigs := created
    pollfds := polled
    pollfdsServers := polled }

/-- The index found is the number of clients if there is none. -/
def getClientIndexByFd (server : Server W) (fd : Int) : Nat :=
  server.clients.findIdx (·.clientId = fd)

def setClient (server : Server W) (index : Nat) (client : Client) :
    Server W :=
  { server with clients := server.clients.set index client }

def setEvents (server : Server W) (index : Nat) (events : Interest) :
    Server W :=
  { server with
    pollfds := server.pollfds.modify index fun polled =>
      { polled with events := events } }

def logSent (server : Server W) (fd : Int) (bytes : Str) : Server W :=
  { server with sent := server.sent ++ [(fd, bytes)] }

/-- The end of `acceptClient`: the connection gets its slots. -/
def addClient (server : Server W) (fd : Int) (block : ServerBlock) :
    Server W :=
  let polled : PollFd := { fd := fd }
  { server with
    clients := server.clients ++ [Client.connect fd block]
    pollfds := server.pollfds ++ [polled]
    pollfdsClients := server.pollfdsClients ++ [polled] }

def giveUp (server : Server W) (fd : Int) : Server W :=
  { server with closed := server.closed ++ [fd] }

def acceptClient (server : Server W) (answers : Answers)
    (block : ServerBlock) : Server W :=
  match answers.accepted with
  | none => server
  | some fd =>
      if answers.blocking then server.giveUp fd else server.addClient fd block

def eraseClient (server : Server W) (index clientIndex : Nat) (fd : Int) :
    Server W :=
  { server with
    pollfdsClients := server.pollfdsClients.eraseP (·.fd = fd)
    clients := server.clients.eraseIdx clientIndex
    closed := server.closed ++ [fd]
    pollfds := server.pollfds.eraseIdx index }

def closeClientConnection (server : Server W) (index : Nat) : Server W :=
  match server.pollfds[index]? with
  | none => server
  | some polled =>
      let clientIndex := server.getClientIndexByFd polled.fd
      match server.clients[clientIndex]? with
      | none =>
          { server with
            closed := server.closed ++ [polled.fd]
            pollfds := server.pollfds.eraseIdx index }
      | some client =>
          if client.keepAlive = false then
            server.eraseClient index clientIndex polled.fd
          else
            (server.setClient clientIndex client.reset).setEvents index .pollIn

end Server

/-! A client's part in one `POLLOUT` event: its record afterwards and the bytes
that `send` has accepted; nothing comes back once a `send` has failed. -/

def Client.setStringReqSend (client : Client) : Client :=
  { client with request := { client.request with isStringReqSend := true } }

def writeHead (client : Client) (result : Int) : Option (Client × Str) :=
  if client.request.isStringReqSend then some (client, [])
  else if result ≤ 0 then none
  else
    some (client.setStringReqSend,
      client.response.response.take result.toNat)

def chunkSize : Nat := 4096

def writeChunk (client : Client) (result : Int) : Option (Client × Str) :=
  let fileStream := client.response.fileStream
  if fileStream.isOpen ∧ fileStream.eof = false then
    let read := fileStream.read chunkSize
    let client := client.setFileStream
      (if read.1.eof then read.1.close else read.1)
    if read.2 = [] then some (client, [])
    else if result ≤ 0 then none
    else some (client, read.2.take result.toNat)
  else some (client, [])

/-- Both parts of `handleClientWrite`: the bytes accepted, and the record of the
client unless a `send` has failed. -/
def clientWrite (client : Client) (answers : Answers) : Str × Option Client :=
  match writeHead client answers.sentHead with
  | none => ([], none)
  | some (client, head) =>
      match writeChunk client answers.sentChunk with
      | none => (head, none)
      | some (client, chunk) => (head ++ chunk, some client)

/-- The test of `startServer` after a `POLLOUT` event. -/
def Client.finished (client : Client) : Bool :=
  !client.response.fileStream.isOpen || client.response.fileStream.eof

namespace Server

variable {W : Type}

def handleClientWrite (server : Server W) (index : Nat) (answers : Answers) :
    Server W :=
  match server.pollfds[index]? with
  | none => server
  | some polled =>
      let clientIndex := server.getClientIndexByFd polled.fd
      match server.clients[clientIndex]? with
      | none => server.closeClientConnection index
      | some client =>
          let written := clientWrite client answers
          let server := server.logSent polled.fd written.1
          match written.2 with
          | none => server.closeClientConnection index
          | some client => server.setClient clientIndex client

/-- The end of a `POLLOUT` event: `startServer` goes on with the slots it has
found before the write. -/
def finishWrite (server : Server W) (index clientIndex : Nat) :
    Except Fault (Server W) :=
  match server.clients[clientIndex]? with
  | none => .error .badSlot
  | some client =>
      if client.finished = false then .ok server
      else if server.pollfds.length ≤ index then .error .badSlot
      else
        let server := server.setEvents index .pollIn
        if client.keepAlive = false then
          .ok (server.closeClientConnection index)
        else .ok (server.setClient clientIndex client.reset)

def visitWrite (server : Server W) (index : Nat) (polled : PollFd)
    (answers : Answers) : Except Fault (Server W) :=
  let clientIndex := server.getClientIndexByFd polled.fd
  if server.clients.length ≤ clientIndex then
    .ok (server.closeClientConnection index)
  else
    finishWrite (server.handleClientWrite index answers) index clientIndex

def findConfig (server : Server W) (fd : Int) : Option ServerConfig :=
  server.serverConfigs.find? (·.fd = fd)

def visitAccept (server : Server W) (config : ServerConfig)
    (answers : Answers) : Server W :=
  if config.serverBlockIndex < 0 then server
  else
    match server.serverBlockObj[config.serverBlockIndex.toNat]? with
    | none => server
    | some block => server.acceptClient answers block

variable [Os W]

def visitRead (server : Server W) (index : Nat) (polled : PollFd)
    (answers : Answers) : Except Fault (Server W) :=
  let clientIndex := server.getClientIndexByFd polled.fd
  match server.clients[clientIndex]? with
  | none => .ok (server.closeClientConnection index)
  | some client =>
      if answers.received = [] then .ok (server.closeClientConnection index)
      else
        match checkRequest server.process
            (client.setSRequest answers.received) with
        | .error fault => .error fault
        | .ok (process, client) =>
            let server := { server with process := process }.setClient
              clientIndex client
            .ok (if client.allRecv then server.setEvents index .pollOut
              else server)

/-- The body of the loop in `startServer`, for one slot. -/
def visit (server : Server W) (index : Nat) (answers : Answers) :
    Except Fault (Server W) :=
  match server.pollfds[index]? with
  | none => .ok server
  | some polled =>
      if polled.revents.trouble then
        if server.pollfdsServers.any (·.fd = polled.fd) then .ok server
        else .ok (server.closeClientConnection index)
      else if polled.revents.pollIn then
        match server.findConfig polled.fd with
        | some config => .ok (server.visitAccept config answers)
        | none => server.visitRead index polled answers
      else if polled.revents.pollOut then
        server.visitWrite index polled answers
      else .ok server

/-- `poll` reports troubles and what a slot has asked for. -/
def poll (server : Server W) (reported : Nat → Revents) : Server W :=
  { server with
    pollfds := server.pollfds.mapIdx fun i polled =>
      { polled with
        revents :=
          { trouble := (reported i).trouble
            pollIn := (reported i).pollIn && polled.events = .pollIn
            pollOut := (reported i).pollOut && polled.events = .pollOut } }
    cursor := server.pollfds.length }

inductive Event
  | poll (reported : Nat → Revents)
  | visit (answers : Answers)

/-- One step of `startServer`: a poll at the start of a round, or the visit of
the next slot. -/
def step (server : Server W) : Event → Except Fault (Server W)
  | .poll reported =>
      if server.cursor = 0 then .ok (server.poll reported) else .ok server
  | .visit answers =>
      match server.cursor with
      | 0 => .ok server
      | index + 1 =>
          visit { server with cursor := index } index answers

/-- A new connection has a descriptor that is not in use. -/
def Permitted (server : Server W) : Event → Prop
  | .poll _ => True
  | .visit answers => ∀ fd, answers.accepted = some fd →
      0 ≤ fd ∧ fd ∉ server.pollfds.map PollFd.fd

instance (server : Server W) : ∀ event, Decidable (Permitted server event)
  | .poll _ => .isTrue trivial
  | .visit { accepted := none, .. } => .isTrue (by simp [Permitted])
  | .visit { accepted := some fd, .. } =>
      decidable_of_iff (0 ≤ fd ∧ fd ∉ server.pollfds.map PollFd.fd)
        (by simp [Permitted])

end Server

end Webserv
