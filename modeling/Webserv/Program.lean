import Webserv.WireMessages
import Webserv.Config.Parts

namespace Webserv

open Cxx Coding

/-! `main`: the blocks of a configuration, a listening socket for each of their
ports, and the event loop on them. -/

/-- What the calls of `createServer` return. -/
structure SocketCalls where
  socket : Int
  /-- `fcntl` with `F_GETFL` -/
  getFlags : Int := 0
  /-- `fcntl` with `F_SETFL` -/
  setFlags : Int := 0
  setsockopt : Int := 0
  bind : Int := 0
  listen : Int := 0

/-- The listening socket, `-1` once a call has failed, and the descriptors that
have been closed on the way. -/
def createServer (calls : SocketCalls) : Int × List Int :=
  if calls.socket < 0 then (-1, [])
  else if calls.getFlags < 0 then (-1, [calls.socket])
  else if calls.setFlags < 0 then (-1, [calls.socket])
  else if calls.setsockopt < 0 then (-1, [calls.socket])
  else if calls.bind < 0 then (-1, [calls.socket])
  else if calls.listen < 0 then (-1, [calls.socket])
  else (calls.socket, [])

/-- The loop of `initializeServers` over the entries of `server_configs`. -/
def createServers (calls : Nat → SocketCalls)
    (configs : List ListenerConfig) : List ServerConfig :=
  configs.mapIdx fun i config =>
    { serverBlockIndex := config.serverBlockIndex
      fd := (createServer (calls i)).1 }

/-- The block of a server without a configuration file. -/
def setDafaultData : ServerBlock where
  host := "127.0.0.1".toList
  port := [8080]
  serverNames := "test.com".toList

section Main

variable {W : Type}

/-- The state in which `startServer` enters its loop. -/
def launch (world : W) (servers : List ServerBlock)
    (calls : Nat → SocketCalls) : Server W :=
  Server.initializeServers world servers
    (createServers calls (addServers servers))

variable [Os W]

/-- `none` where `main` returns 1; the file is what `ifstream` reads of its
argument. -/
def main (world : W) (numbs : Nat → Int) (calls : Nat → SocketCalls) :
    Option Str → Except Fault (Option (Server W))
  | none =>
      let (world, found) := setDefaultPage world
      .ok (if found then some (launch world [setDafaultData] calls) else none)
  | some text => do
      match ← getParts text with
      | none => return none
      | some parts => do
          let (world, conf) ← setServer world numbs parts
          return if conf.status then some (launch world conf.servers calls)
            else none

end Main

/-! The locations of the redirections are words. -/

theorem inline_of_mem_words {text word : Str} (h : word ∈ words text) :
    Inline word := by
  have hsolid := (solidWord_of_mem_words h).noSpace
  constructor
  · intro hmem
    cases hsolid _ hmem
  · intro hmem
    cases hsolid _ hmem

theorem getRedirection_location {list : List Str} {entry : Int × Str}
    (h : entry ∈ (getRedirection list).1) : entry.2 ∈ list := by
  unfold getRedirection at h
  split at h
  · split at h
    · cases h
    split at h
    · cases h
    split at h
    · cases h
    · rw [List.mem_singleton.mp h]
      simp
  · cases h

def RouteBlock.Inlined (route : RouteBlock) : Prop :=
  ∀ entry ∈ route.redirections, Inline entry.2

/-- The blocks that the reader holds. -/
def Nesting.Inlined : Nesting → Prop
  | .between => True
  | .inside server => InlineLocations server.routes
  | .behind server => InlineLocations server.routes
  | .location server route => InlineLocations server.routes ∧ route.Inlined

structure Reading.Inlined (reading : Reading) : Prop where
  servers : ∀ server ∈ reading.servers, InlineLocations server.routes
  place : reading.place.Inlined

section Reader

variable {W : Type} [Os W] {world : W} {numbs : Nat → Int}

theorem routeDirective_inlined {route route' : RouteBlock} {line : Str}
    {list : List Str} {status : Bool} (hwords : words line = list)
    (hroute : route.Inlined)
    (h : routeDirective world route list = some (route', status)) :
    route'.Inlined := by
  unfold routeDirective at h
  simp only at h
  split at h
  · obtain ⟨rfl, -⟩ := Prod.mk.inj (Option.some.inj h)
    exact hroute
  split at h
  · obtain ⟨rfl, -⟩ := Prod.mk.inj (Option.some.inj h)
    exact hroute
  split at h
  · obtain ⟨rfl, -⟩ := Prod.mk.inj (Option.some.inj h)
    exact hroute
  split at h
  · obtain ⟨rfl, -⟩ := Prod.mk.inj (Option.some.inj h)
    exact hroute
  split at h
  · obtain ⟨rfl, -⟩ := Prod.mk.inj (Option.some.inj h)
    exact hroute
  split at h
  · obtain ⟨rfl, -⟩ := Prod.mk.inj (Option.some.inj h)
    exact hroute
  split at h
  · obtain ⟨rfl, -⟩ := Prod.mk.inj (Option.some.inj h)
    intro entry hentry
    cases mem_codeInsertAll hentry with
    | inl hnew =>
        apply inline_of_mem_words
        rw [hwords]
        exact getRedirection_location hnew
    | inr hold => exact hroute entry hold
  · cases h

theorem serverDirective_routes {numb : Int} {server server' : ServerBlock}
    {list : List Str} {status : Bool}
    (h : serverDirective world numb server list = some (server', status)) :
    server'.routes = server.routes := by
  unfold serverDirective at h
  simp only at h
  split at h
  · obtain ⟨rfl, -⟩ := Prod.mk.inj (Option.some.inj h)
    rfl
  split at h
  · obtain ⟨rfl, -⟩ := Prod.mk.inj (Option.some.inj h)
    unfold ServerBlock.setPort
    split <;> rfl
  split at h
  · obtain ⟨rfl, -⟩ := Prod.mk.inj (Option.some.inj h)
    rfl
  split at h
  · obtain ⟨rfl, -⟩ := Prod.mk.inj (Option.some.inj h)
    rfl
  split at h
  · obtain ⟨rfl, -⟩ := Prod.mk.inj (Option.some.inj h)
    rfl
  split at h
  · obtain ⟨rfl, -⟩ := Prod.mk.inj (Option.some.inj h)
    rfl
  split at h
  · obtain ⟨rfl, -⟩ := Prod.mk.inj (Option.some.inj h)
    rfl
  · cases h

theorem checkStatus_routes {server server' : ServerBlock} {status : Bool}
    (h : server.checkStatus = (server', status)) :
    server'.routes = server.routes := by
  unfold ServerBlock.checkStatus at h
  split at h
  · obtain ⟨rfl, -⟩ := Prod.mk.inj h
    rfl
  split at h
  · obtain ⟨rfl, -⟩ := Prod.mk.inj h
    rfl
  split at h
  · obtain ⟨rfl, -⟩ := Prod.mk.inj h
    rfl
  · obtain ⟨rfl, -⟩ := Prod.mk.inj h
    rfl

theorem Reading.Moves.inlined {reading next : Reading}
    (hinlined : reading.Inlined) (h : Moves world numbs reading next) :
    next.Inlined := by
  have hclosed : ∀ {servers : List ServerBlock} {server server' : ServerBlock},
      (∀ other ∈ servers, InlineLocations other.routes) →
        InlineLocations server.routes →
        server.checkStatus = (server', true) →
          ∀ other ∈ servers ++ [server'], InlineLocations other.routes := by
    intro servers server server' hservers hserver hstatus other hother
    cases List.mem_append.mp hother with
    | inl hmem => exact hservers other hmem
    | inr hmem =>
        rw [List.mem_singleton.mp hmem, checkStatus_routes hstatus]
        exact hserver
  cases h with
  | opens => exact ⟨hinlined.servers, nofun⟩
  | directive _ _ _ hdirective =>
      refine ⟨hinlined.servers, ?_⟩
      change InlineLocations _
      rw [serverDirective_routes hdirective]
      exact hinlined.place
  | closes _ _ _ hstatus =>
      exact ⟨hclosed hinlined.servers hinlined.place hstatus, trivial⟩
  | ends _ hstatus =>
      exact ⟨hclosed hinlined.servers hinlined.place hstatus, trivial⟩
  | @opensLocation servers place server line uri text rest hplace _ =>
      have hserver : InlineLocations server.routes := by
        obtain rfl | ⟨rfl, -⟩ := hplace
        · exact hinlined.place
        · exact hinlined.place
      exact ⟨hinlined.servers, hserver, nofun⟩
  | leaves => exact ⟨hinlined.servers, hinlined.place⟩
  | routeDirective hwords _ hdirective =>
      exact ⟨hinlined.servers, hinlined.place.1,
        routeDirective_inlined hwords hinlined.place.2 hdirective⟩
  | closesLocation =>
      obtain ⟨hserver, hroute⟩ := hinlined.place
      refine ⟨hinlined.servers, ?_⟩
      intro other hother
      cases List.mem_append.mp hother with
      | inl hmem => exact hserver other hmem
      | inr hmem => exact List.mem_singleton.mp hmem ▸ hroute

theorem Reading.accepted_inlined {parts : List Str}
    {servers : List ServerBlock}
    (h : Machine.Halts (move world numbs) (start parts)
      (.accepted servers)) :
    ∀ server ∈ servers, InlineLocations server.routes := by
  obtain ⟨last, hsteps, hlast⟩ := h.last
  have hinlined := hsteps.invariant
    (fun _ _ hinlined hmove => (moves_of_move hmove).inlined hinlined)
    (⟨nofun, trivial⟩ : (start parts).Inlined)
  obtain ⟨-, rfl⟩ := accepted_of_move hlast
  exact hinlined.servers

omit [Os W] in
theorem launch_fds (world : W) (servers : List ServerBlock)
    (calls : Nat → SocketCalls) :
    (launch world servers calls).fds =
      ((createServers calls (addServers servers)).filter (0 ≤ ·.fd)).map
        ServerConfig.fd := by
  unfold launch Server.initializeServers Server.fds
  rw [List.map_map]
  rfl

/-- What `main` launches the loop with. -/
structure Launched (calls : Nat → SocketCalls) (server : Server W)
    (world : W) (servers : List ServerBlock) : Prop where
  server : server = launch world servers calls
  sound : ∀ block ∈ servers, block.Sound
  inline : ∀ block ∈ servers, InlineLocations block.routes

theorem setDafaultData_sound : setDafaultData.Sound :=
  { ports := by decide
    errorPages := nofun
    routes := nofun
    hasHost := by decide
    hasPort := by decide }

theorem main_launched {calls : Nat → SocketCalls} {file : Option Str}
    {server : Server W} (h : main world numbs calls file = .ok (some server)) :
    ∃ world' servers, Launched calls server world' servers := by
  cases file with
  | none =>
      cases hpage : setDefaultPage world with
      | mk world' found =>
          rw [main, hpage] at h
          cases found with
          | false => cases h
          | true =>
              refine ⟨world', [setDafaultData],
                (Option.some.inj (Except.ok.inj h)).symm,
                fun block hblock => ?_, fun block hblock => ?_⟩
              · rw [List.mem_singleton.mp hblock]
                exact setDafaultData_sound
              · rw [List.mem_singleton.mp hblock]
                nofun
  | some text =>
      obtain ⟨parts, -, h⟩ := bind_ok h
      cases parts with
      | none => cases h
      | some parts =>
          obtain ⟨⟨world', conf⟩, hconf, h⟩ := bind_ok h
          have h := Except.ok.inj h
          split at h
          · rename_i hstatus
            obtain ⟨-, -, hhalts⟩ := setServer_accepted hconf hstatus
            exact ⟨world', conf.servers, (Option.some.inj h).symm,
              Reading.accepted_sound hhalts,
              Reading.accepted_inlined hhalts⟩
          · cases h

end Reader

/-! What the clients of the program read. -/

namespace Wired

variable {W : Type} [Os W] {wired next : Wired W}

/-- From the configuration file to the bytes on a socket: whatever the file,
over any interleaving of connections that run no script and change no file that
is being sent, with `send`s that accept all or fail, a connection that ends
with its last write has carried the text of the answer that its own buffers have
led to, and the file left open behind it.  The text is a message exactly if the
call that built it was proper, and its length is that of the file exactly if
the call measured it. -/
theorem main_carries {world : W} {numbs : Nat → Int}
    {calls : Nat → SocketCalls} {file : Option Str} {server : Server W}
    (hmain : main world numbs calls file = .ok (some server))
    (hnodup : server.fds.Nodup) {event : Server.Event} {client : Client}
    {answers : Answers}
    (h : Machine.Reachable step MessageSends { server := server } wired)
    (hsends : wired.SteadySends event)
    (hturn : wired.server.turn event = some (client, answers))
    (hfine : ¬FailedSend client answers)
    (hnext : wired.step event = .ok next)
    (hended : next.server.record client.clientId = none) :
    ∃ block ∈ server.serverBlockObj, ∃ record : Client,
      Led W client.clientId block (wired.heard client.clientId) record ∧
      (∃ answer : Answer W, answer.Stored record) ∧
      ∀ answer : Answer W, answer.Stored record →
        next.since client.clientId = answer.text ++ answer.leftOpen ∧
        (WellFormedMessage answer.text ↔ answer.Proper) ∧
        (Framed answer.text answer.leftOpen.length ↔ answer.Measured) := by
  obtain ⟨world', servers, rfl, -, hinline⟩ := main_launched hmain
  rw [launch_fds] at hnodup
  exact carried_message hnodup hinline h hsends hturn hfine hnext hended

/-! A client of a server without a configuration file. -/

def firstSocket (i : Nat) : SocketCalls where
  socket := i + 3

def askForPage : Answers where
  received := "GET / HTTP/1.1\r\nHost: h\r\n\r\n".toList

def pageClient : List Server.Event := [
  .poll fun _ => { pollIn := true }, .visit { accepted := some 5 },
  .poll fun i => { pollIn := i = 1 }, .visit askForPage, .visit {},
  .poll fun i => { pollOut := i = 1 }]

def pageWrite : Server.Event := .visit { sentHead := 106, sentChunk := 254 }

/-- What has been launched is what the program has returned: for any result, so
that no proof of this runs the program. -/
theorem ok_of_launched {result : Except Fault (Option (Server Disk))}
    {server : Server Disk} (h : result.toOption.join = some server) :
    result = .ok (some server) := by
  cases result with
  | ok found =>
      obtain rfl : found = some server := h
      rfl
  | error fault => cases h

theorem main_carries_page :
    ∃ next : Wired Disk, next.server.fds = [3] ∧
      ∃ (block : ServerBlock) (record : Client),
        Led Disk 5 block [askForPage.received] record ∧
        (∃ answer : Answer Disk, answer.Stored record) ∧
        ∀ answer : Answer Disk, answer.Stored record →
          next.since 5 = answer.text ++ answer.leftOpen ∧
          (WellFormedMessage answer.text ↔ answer.Proper) ∧
          (Framed answer.text answer.leftOpen.length ↔ answer.Measured) := by
  have hstate : ((main pageDisk (fun _ => 0) firstSocket
      none).toOption.join.bind fun server =>
        (Machine.replay step MessageSends { server := server }
          pageClient).map fun wired => ((server.fds, wired.heard 5),
            lastTurn wired pageWrite,
            (Machine.replay step MessageSends wired [pageWrite]).map
              fun next => (next.server.fds, (next.server.record 5).isNone))) =
      some (([3], [askForPage.received]), some (5, true),
        some ([3], true)) := by
    decide +kernel
  obtain ⟨server, hserver, hran⟩ := Option.bind_eq_some_iff.mp hstate
  obtain ⟨wired, hwired, hfields⟩ := Option.map_eq_some_iff.mp hran
  obtain ⟨hstarted, hfields⟩ := Prod.mk.inj hfields
  obtain ⟨hlistener, hheard⟩ := Prod.mk.inj hstarted
  have hnodup : server.fds.Nodup := by
    rw [hlistener]
    decide
  obtain ⟨next, client, answers, hlast, hfds, hsends⟩ :=
    lastWrite_of_replay hfields
  obtain ⟨block, -, hcarried⟩ := main_carries (ok_of_launched hserver) hnodup
    (Machine.reachable_of_replay .start hwired) hsends.1 hlast.turn hlast.fine
    hlast.step hlast.ended
  rw [hlast.clientId, hheard] at hcarried
  exact ⟨next, hfds, block, hcarried⟩

end Wired

end Webserv
