import Webserv.Program
import Webserv.Provenance
import Webserv.BodyLimit
import Mathlib.Data.List.Perm.Basic

namespace Webserv

open Cxx

/-! The program over its whole run: under which block of the configuration a
client is served, and what becomes of each descriptor. -/

/-! The entries of `server_configs`. -/

theorem addServers_mem {servers : List ServerBlock} {listener : ListenerConfig}
    (h : listener ∈ addServers servers) :
    ∃ block, servers[listener.serverBlockIndex]? = some block ∧
      listener.host = block.host ∧ listener.port ∈ block.port := by
  have hfold : ∀ (indexed : List (ServerBlock × Nat))
      (configs : List ListenerConfig),
      listener ∈ indexed.foldl (fun configs entry =>
        addServerConfig configs entry.2 entry.1.host entry.1.port
          entry.1.serverNames) configs →
        listener ∈ configs ∨ ∃ entry ∈ indexed,
          listener.serverBlockIndex = entry.2 ∧
          listener.host = entry.1.host ∧ listener.port ∈ entry.1.port := by
    intro indexed
    induction indexed with
    | nil => exact fun configs hmem => .inl hmem
    | cons entry rest ih =>
        intro configs hmem
        rcases ih _ hmem with hadded | ⟨other, hother, hsame⟩
        · rcases List.mem_append.mp hadded with hold | hnew
          · exact .inl hold
          · obtain ⟨port, hport, rfl⟩ := List.mem_map.mp hnew
            exact .inr ⟨entry, List.mem_cons_self, rfl, rfl, hport⟩
        · exact .inr ⟨other, List.mem_cons_of_mem _ hother, hsame⟩
  rcases hfold servers.zipIdx [] h with hnone | ⟨entry, hentry, hindex, hsame⟩
  · cases hnone
  · refine ⟨entry.1, ?_, hsame⟩
    rw [hindex]
    exact List.mem_zipIdx_iff_getElem?.mp hentry

theorem createServers_mem {calls : Nat → SocketCalls}
    {configs : List ListenerConfig} {config : ServerConfig}
    (h : config ∈ createServers calls configs) :
    ∃ i listener, configs[i]? = some listener ∧
      config = { serverBlockIndex := listener.serverBlockIndex
                 fd := (createServer (calls i)).1 } := by
  obtain ⟨i, hi⟩ := List.mem_iff_getElem?.mp h
  rw [createServers, List.getElem?_mapIdx, Option.map_eq_some_iff] at hi
  obtain ⟨listener, hlistener, rfl⟩ := hi
  exact ⟨i, listener, hlistener, rfl⟩

/-- A socket that `createServer` does not return has been closed, once. -/
theorem createServer_accounts (calls : SocketCalls) :
    (if 0 ≤ calls.socket then [calls.socket] else []) =
      (createServer calls).2 ++
        (if 0 ≤ (createServer calls).1 then [(createServer calls).1]
          else []) := by
  unfold createServer
  by_cases hsocket : calls.socket < 0
  · rw [if_pos hsocket, if_neg (by omega)]
    rfl
  rw [if_neg hsocket, if_pos (by omega)]
  split
  · rfl
  split
  · rfl
  split
  · rfl
  split
  · rfl
  split
  · rfl
  · simp only [List.nil_append]
    rw [if_pos (by omega)]

/-- The descriptors that the calls of `socket` have returned. -/
def sockets (calls : Nat → SocketCalls) (configs : List ListenerConfig) :
    List Int :=
  (configs.mapIdx fun i _ =>
    if 0 ≤ (calls i).socket then [(calls i).socket] else []).flatten

/-- Those of them that `createServer` has closed. -/
def givenUp (calls : Nat → SocketCalls) (configs : List ListenerConfig) :
    List Int :=
  (configs.mapIdx fun i _ => (createServer (calls i)).2).flatten

theorem createServers_accounts (calls : Nat → SocketCalls)
    (configs : List ListenerConfig) :
    (sockets calls configs).Perm (givenUp calls configs ++
      ((createServers calls configs).filter (0 ≤ ·.fd)).map
        ServerConfig.fd) := by
  induction configs generalizing calls with
  | nil => exact .refl _
  | cons config rest ih =>
      have hrest := ih fun i => calls (i + 1)
      have hfirst := createServer_accounts (calls 0)
      unfold sockets givenUp createServers at hrest ⊢
      simp only [List.mapIdx_cons, List.flatten_cons, List.filter_cons]
      rw [hfirst, List.append_assoc, List.append_assoc]
      apply List.Perm.append_left
      by_cases hfd : 0 ≤ (createServer (calls 0)).1
      · rw [if_pos hfd, if_pos (by simpa using hfd)]
        exact (hrest.cons _).trans List.perm_middle.symm
      · rw [if_neg hfd, if_neg (by simpa using hfd)]
        exact hrest

/-! The event loop beside where each client has come from. -/

/-- The event loop, with the listening socket that the last connection of each
descriptor has come by, and the descriptors that have been obtained. -/
structure Running (W : Type) where
  server : Server W
  via : Int → Option ServerConfig := fun _ => none
  obtained : List Int

namespace Running

variable {W : Type}

/-- The program behind the last `listen`. -/
def start (calls : Nat → SocketCalls) (server : Server W) : Running W where
  server := server
  obtained := sockets calls (addServers server.serverBlockObj)

def through (listener : Option ServerConfig) (before after : Option Client)
    (via : Option ServerConfig) : Option ServerConfig :=
  if before.isNone && after.isSome then listener else via

variable [Os W]

def step (running : Running W) (event : Server.Event) :
    Except Fault (Running W) := do
  let next ← running.server.step event
  return {
    server := next
    via := fun fd =>
      through (running.server.listener event) (running.server.record fd)
        (next.record fd) (running.via fd)
    obtained := running.obtained ++ (running.server.accepts event).toList }

def Permitted (running : Running W) (event : Server.Event) : Prop :=
  running.server.Permitted event

instance (running : Running W) (event : Server.Event) :
    Decidable (running.Permitted event) :=
  inferInstanceAs (Decidable (running.server.Permitted event))

end Running

/-! The block that a client is served under. -/

/-- A client is served under the block of the socket it has come by, whichever
of its locations has been selected. -/
def Hosts (configs : List ServerConfig) (blocks : List ServerBlock)
    (via : Option ServerConfig) (found : Option Client) : Prop :=
  ∀ client, found = some client → ∃ config ∈ configs, via = some config ∧
    ∃ block, blocks[config.serverBlockIndex.toNat]? = some block ∧
      ∃ url, client.serverClientObj = block.setLocationUrl url

section Hosts

variable {W : Type} [Os W]

theorem Hosts.kept {configs : List ServerConfig} {blocks : List ServerBlock}
    {via : Option ServerConfig} {client client' : Client}
    (h : Hosts configs blocks via (some client))
    (hkept : Client.Kept client client') :
    Hosts configs blocks via (some client') := by
  intro other hother
  obtain rfl := Option.some.inj hother
  obtain ⟨config, hconfig, hvia, block, hblock, url, hsame⟩ := h client rfl
  obtain ⟨url', hurl'⟩ := hkept.block
  refine ⟨config, hconfig, hvia, block, hblock, url', ?_⟩
  rw [hurl', hsame, ServerBlock.setLocationUrl_setLocationUrl]

theorem Hosts.dealt {configs : List ServerConfig} {blocks : List ServerBlock}
    {turn : Option (Client × Answers)} {handed : Option (Int × Str)}
    {listener : Option ServerConfig} {process process' : Process W} {fd : Int}
    {before after : Option Client} {sent sent' : Str}
    {via : Option ServerConfig}
    (hdealt : Server.Dealt turn handed listener blocks process process' fd
      before sent after sent')
    (hlistener : ∀ config, listener = some config → config ∈ configs)
    (h : Hosts configs blocks via before) :
    Hosts configs blocks (Running.through listener before after via)
      after := by
  cases hdealt with
  | same =>
      have hsame : Running.through listener before before via = via := by
        cases before <;> rfl
      rw [hsame]
      exact h
  | connected hsome hblock =>
      intro client hclient
      obtain rfl := Option.some.inj hclient
      exact ⟨_, hlistener _ hsome, hsome, _, hblock, _, rfl⟩
  | received _ _ hran => exact h.kept (Session.receive_kept hran)
  | wrote _ _ hwritten =>
      obtain ⟨fileStream, hclient'⟩ := clientWrite_some
        (congrArg Prod.snd hwritten)
      apply h.kept
      rw [hclient']
      exact ⟨rfl, ⟨_, rfl⟩, id⟩
  | closed => intro client hclient; cases hclient
  | left => intro client hclient; cases hclient

end Hosts

namespace Server

variable {W : Type} {server : Server W}

theorem listener_mem {event : Event} {config : ServerConfig}
    (h : server.listener event = some config) :
    config ∈ server.serverConfigs := by
  cases event with
  | poll reported => cases h
  | visit answers =>
      obtain ⟨polled, -, hfound⟩ := Option.bind_eq_some_iff.mp h
      exact List.mem_of_find?_eq_some hfound

theorem Visited.serverConfigs [Os W] {index : Nat} {answers : Answers}
    {next : Server W} (h : Visited server index answers next) :
    next.serverConfigs = server.serverConfigs := by
  cases h with
  | received => rw [takeRead_eq]
  | _ => rfl

theorem step_serverConfigs [Os W] {event : Event} {next : Server W}
    (haligned : Aligned server) (hnext : server.step event = .ok next) :
    next.serverConfigs = server.serverConfigs := by
  cases step_stepped haligned hnext with
  | still => rfl
  | polled => rfl
  | visited _ hvisited => exact hvisited.serverConfigs

end Server

/-! The descriptors. -/

namespace Server

variable {W : Type} {server : Server W}

/-- The descriptors that have been closed, and those that are open. -/
def past (server : Server W) : List Int := server.closed ++ server.fds

theorem eraseClient_past {index clientIndex : Nat} {polled : PollFd}
    (hpolled : server.pollfds[index]? = some polled) :
    (server.eraseClient index clientIndex polled.fd).past.Perm server.past := by
  have hfd : server.fds[index]? = some polled.fd := by
    rw [fds, List.getElem?_map, hpolled]
    rfl
  obtain ⟨hlt, hget⟩ := List.getElem?_eq_some_iff.mp hfd
  have hperm := List.getElem_cons_eraseIdx_perm hlt
  rw [hget] at hperm
  have herased : (server.eraseClient index clientIndex polled.fd).past =
      server.closed ++ polled.fd :: server.fds.eraseIdx index := by
    simp [past, eraseClient, fds, List.eraseIdx_map]
  rw [herased]
  exact hperm.append_left _

theorem takeRead_fds (server : Server W) (index clientIndex : Nat)
    (process : Process W) (client : Client) :
    (server.takeRead index clientIndex process client).fds = server.fds := by
  unfold takeRead
  simp only
  split
  · exact setEvents_fds ..
  · rfl

variable [Os W]

theorem Visited.past {index : Nat} {answers : Answers} {next : Server W}
    (h : Visited server index answers next)
    (hnone : server.acceptsAt index answers = none) :
    next.past.Perm server.past := by
  cases h with
  | idle => exact .refl _
  | accepted _ _ _ _ _ _ hsome =>
      rw [hnone] at hsome
      cases hsome
  | gaveUp _ hsome =>
      rw [hnone] at hsome
      cases hsome
  | @received clientIndex polled client client' process =>
      rw [Server.past, takeRead_fds, takeRead_eq]
      exact .refl _
  | ended hslot => exact eraseClient_past hslot.entry
  | wrote => exact .refl _
  | left hslot => exact eraseClient_past (hslot.logSent ..).entry
  | leftBoth hslot _ _ hother =>
      exact (eraseClient_past hother.entry).trans
        (eraseClient_past (hslot.logSent ..).entry)

theorem visit_accepts {index : Nat} {fd : Int} {answers : Answers}
    {next : Server W} (haccepts : server.acceptsAt index answers = some fd)
    (hnext : server.visit index answers = .ok next) :
    answers.accepted = some fd ∧
      ∃ block, next = server.acceptClient answers block := by
  unfold acceptsAt at haccepts
  cases hpolled : server.pollfds[index]? with
  | none =>
      rw [hpolled] at haccepts
      cases haccepts
  | some polled =>
      rw [hpolled] at haccepts
      simp only at haccepts
      split at haccepts
      · cases haccepts
      rename_i htrouble
      split at haccepts
      · rename_i hin
        split at haccepts
        · cases haccepts
        rename_i config hconfig
        split at haccepts
        · cases haccepts
        rename_i hindex
        split at haccepts
        · cases haccepts
        rename_i block hblock
        refine ⟨haccepts, block, ?_⟩
        simp only [visit, hpolled, htrouble, hin, hconfig, visitAccept,
          hindex, hblock, if_true, if_false, Bool.false_eq_true] at hnext
        exact (Except.ok.inj hnext).symm
      · cases haccepts

omit [Os W] in
theorem acceptClient_past {answers : Answers} {fd : Int}
    (haccepted : answers.accepted = some fd) (block : ServerBlock) :
    (server.acceptClient answers block).past.Perm (server.past ++ [fd]) := by
  unfold acceptClient
  rw [haccepted]
  simp only
  split
  · change ((server.closed ++ [fd]) ++ server.fds).Perm _
    rw [past, List.append_assoc, List.append_assoc]
    exact .append_left _ List.perm_append_comm
  · exact .of_eq (by simp [past, addClient, fds])

/-- A step closes what it takes out, and has obtained what it puts in. -/
theorem step_past {event : Event} {next : Server W} (h : Aligned server)
    (hnext : server.step event = .ok next) :
    next.past.Perm (server.past ++ (server.accepts event).toList) := by
  cases event with
  | poll reported =>
      have hpolled : next.past = server.past := by
        rw [step] at hnext
        split at hnext
        · obtain rfl := Except.ok.inj hnext
          unfold past fds
          rw [poll_fds]
          rfl
        · rw [Except.ok.inj hnext]
      rw [hpolled]
      exact .of_eq (List.append_nil _).symm
  | visit answers =>
      rw [step] at hnext
      rw [accepts]
      cases hcursor : server.cursor with
      | zero =>
          rw [hcursor] at hnext
          rw [Except.ok.inj hnext]
          exact .of_eq (List.append_nil _).symm
      | succ index =>
          rw [hcursor] at hnext
          have hvisit : visit { server with cursor := index } index answers =
            .ok next := hnext
          change next.past.Perm
            (server.past ++ (server.acceptsAt index answers).toList)
          cases haccepts : server.acceptsAt index answers with
          | none =>
              have hvisited := visit_visited (h.atSlot index) hvisit
              rw [Option.toList_none, List.append_nil]
              exact hvisited.past haccepts
          | some fd =>
              have hmoved : acceptsAt { server with cursor := index } index
                answers = some fd := haccepts
              obtain ⟨haccepted, block, rfl⟩ := visit_accepts hmoved hvisit
              exact acceptClient_past haccepted block

end Server

/-! The run of the program. -/

namespace Running

variable {W : Type} [Os W] {running next : Running W}

structure Invariant (calls : Nat → SocketCalls) (blocks : List ServerBlock)
    (running : Running W) : Prop where
  kept : running.server.Kept
  configured : running.server.serverBlockObj = blocks
  configs : running.server.serverConfigs =
    createServers calls (addServers blocks)
  hosts : ∀ fd, Hosts running.server.serverConfigs
    running.server.serverBlockObj (running.via fd) (running.server.record fd)
  obtained : running.obtained.Perm
    (givenUp calls (addServers blocks) ++ running.server.past)

omit [Os W] in
theorem start_invariant {world : W} {blocks : List ServerBlock}
    {calls : Nat → SocketCalls}
    (hnodup : (launch world blocks calls).fds.Nodup) :
    Invariant calls blocks (start calls (launch world blocks calls)) := by
  refine ⟨?_, rfl, rfl, fun fd client hnone => ?_, ?_⟩
  · apply Server.kept_initializeServers
    rw [← launch_fds]
    exact hnodup
  · cases hnone
  · change (sockets calls (addServers blocks)).Perm
      (givenUp calls (addServers blocks) ++
        ([] ++ (launch world blocks calls).fds))
    rw [List.nil_append, launch_fds]
    exact createServers_accounts ..

theorem step_invariant {calls : Nat → SocketCalls}
    {blocks : List ServerBlock} {event : Server.Event}
    (h : Invariant calls blocks running) (hpermitted : running.Permitted event)
    (hnext : running.step event = .ok next) : Invariant calls blocks next := by
  obtain ⟨server, hstep, hnext⟩ := bind_ok hnext
  obtain rfl := Except.ok.inj hnext
  have hblocks := Server.step_serverBlockObj h.kept.aligned hstep
  have hconfigs := Server.step_serverConfigs h.kept.aligned hstep
  refine ⟨h.kept.step hpermitted hstep, hblocks.trans h.configured,
    hconfigs.trans h.configs, fun fd => ?_, ?_⟩
  · change Hosts server.serverConfigs server.serverBlockObj _ _
    rw [hblocks, hconfigs]
    exact (h.hosts fd).dealt (Server.step_dealt h.kept hpermitted hstep fd)
      fun config hconfig => Server.listener_mem hconfig
  · have hmoved := Server.step_past h.kept.aligned hstep
    exact (h.obtained.append_right _).trans
      ((List.append_assoc ..).symm ▸ (hmoved.symm.append_left _))

theorem reachable_invariant {world : W} {blocks : List ServerBlock}
    {calls : Nat → SocketCalls}
    (hnodup : (launch world blocks calls).fds.Nodup)
    (h : Machine.Reachable step Permitted
      (start calls (launch world blocks calls)) running) :
    Invariant calls blocks running :=
  h.invariant
    (fun _ _ _ hinvariant hpermitted hnext =>
      step_invariant hinvariant hpermitted hnext)
    (start_invariant hnodup)

/-- In every run of the program, each client is served under the sound block of
a server of the configuration that lists the port the client has come by. -/
theorem main_hosts {world : W} {numbs : Nat → Int}
    {calls : Nat → SocketCalls} {file : Option Str} {server : Server W}
    (hmain : main world numbs calls file = .ok (some server))
    (hnodup : server.fds.Nodup)
    (h : Machine.Reachable step Permitted (start calls server) running)
    {fd : Int} {client : Client}
    (hclient : running.server.record fd = some client) :
    ∃ i listener block,
      (addServers server.serverBlockObj)[i]? = some listener ∧
      running.via fd =
        some { serverBlockIndex := listener.serverBlockIndex
               fd := (createServer (calls i)).1 } ∧
      server.serverBlockObj[listener.serverBlockIndex]? = some block ∧
      listener.host = block.host ∧ listener.port ∈ block.port ∧
      block.Sound ∧
      ∃ url, client.serverClientObj = block.setLocationUrl url := by
  obtain ⟨world', servers, rfl, hsound, -⟩ := main_launched hmain
  have hinvariant := reachable_invariant hnodup h
  obtain ⟨config, hconfig, hvia, block, hblock, hurl⟩ :=
    hinvariant.hosts fd client hclient
  rw [hinvariant.configs] at hconfig
  obtain ⟨i, listener, hlistener, rfl⟩ := createServers_mem hconfig
  obtain ⟨found, hfound, hhost, hport⟩ :=
    addServers_mem (List.mem_of_getElem? hlistener)
  rw [hinvariant.configured] at hblock
  obtain rfl : found = block := Option.some.inj (hfound.symm.trans hblock)
  exact ⟨i, listener, found, hlistener, hvia, hfound, hhost, hport,
    hsound found (List.mem_of_getElem? hfound), hurl⟩

def twoServers : Str :=
  ("\nserver \x7b host 127.0.0.1; listen 80;\n" ++
    "\x7d server \x7b host 127.0.0.2; listen 81;\n\x7d\n").toList

def takenFirst (i : Nat) : SocketCalls where
  socket := i + 3
  bind := if i = 0 then -1 else 0

def comeAndGo : List Server.Event := [
  .poll fun _ => { pollIn := true }, .visit { accepted := some 5 },
  .poll fun i => { trouble := i = 1 }, .visit {}]

theorem twoServers_ran :
    ((main pageDisk (fun _ => 0) takenFirst
      (some twoServers)).toOption.join.map fun server =>
        (decide (server.fds.Nodup ∧
          (Machine.replay step Permitted (start takenFirst server)
            (comeAndGo.take 2)).map (fun running =>
              (running.server.record 5).isSome) = some true),
          (Machine.replay step Permitted (start takenFirst server)
            comeAndGo).map fun running =>
              (running.obtained, running.server.closed, running.server.fds))) =
      some (true, some ([3, 4, 5], [5], [4])) := by
  decide +kernel

theorem main_hosts_second :
    ∃ (server : Server Disk) (running : Running Disk) (client : Client),
      main pageDisk (fun _ => 0) takenFirst (some twoServers) =
        .ok (some server) ∧
      running.server.record 5 = some client ∧
      ∃ i listener block,
        (addServers server.serverBlockObj)[i]? = some listener ∧
        running.via 5 =
          some { serverBlockIndex := listener.serverBlockIndex
                 fd := (createServer (takenFirst i)).1 } ∧
        server.serverBlockObj[listener.serverBlockIndex]? = some block ∧
        listener.host = block.host ∧ listener.port ∈ block.port ∧
        block.Sound ∧
        ∃ url, client.serverClientObj = block.setLocationUrl url := by
  obtain ⟨server, hserver, hfields⟩ :=
    Option.map_eq_some_iff.mp twoServers_ran
  obtain ⟨hnodup, hcome⟩ := of_decide_eq_true (Prod.mk.inj hfields).1
  obtain ⟨running, hrunning, hsome⟩ := Option.map_eq_some_iff.mp hcome
  obtain ⟨client, hclient⟩ := Option.isSome_iff_exists.mp hsome
  have hmain := Wired.ok_of_launched hserver
  exact ⟨server, running, client, hmain, hclient,
    main_hosts hmain hnodup
      (Machine.reachable_of_replay .start hrunning) hclient⟩

/-- In every run of the program, each descriptor that `socket` and `accept` have
returned has been closed as often as it has been returned, or once less, if it
is open; it is open in one slot then. -/
theorem main_descriptors {world : W} {numbs : Nat → Int}
    {calls : Nat → SocketCalls} {file : Option Str} {server : Server W}
    (hmain : main world numbs calls file = .ok (some server))
    (hnodup : server.fds.Nodup)
    (h : Machine.Reachable step Permitted (start calls server) running) :
    running.obtained.Perm
        (givenUp calls (addServers server.serverBlockObj) ++
          (running.server.closed ++ running.server.fds)) ∧
      running.server.fds.Nodup := by
  obtain ⟨world', servers, rfl, -, -⟩ := main_launched hmain
  have hinvariant := reachable_invariant hnodup h
  exact ⟨hinvariant.obtained, hinvariant.kept.aligned.nodup⟩

/-- The socket that could not be bound, and the client, have been closed. -/
theorem main_descriptors_two :
    ∃ (server : Server Disk) (running : Running Disk),
      main pageDisk (fun _ => 0) takenFirst (some twoServers) =
        .ok (some server) ∧
      (running.obtained, running.server.closed, running.server.fds) =
        ([3, 4, 5], [5], [4]) ∧
      running.obtained.Perm
        (givenUp takenFirst (addServers server.serverBlockObj) ++
          (running.server.closed ++ running.server.fds)) := by
  obtain ⟨server, hserver, hfields⟩ :=
    Option.map_eq_some_iff.mp twoServers_ran
  obtain ⟨hchecked, hran⟩ := Prod.mk.inj hfields
  obtain ⟨running, hrunning, hlists⟩ := Option.map_eq_some_iff.mp hran
  have hmain := Wired.ok_of_launched hserver
  exact ⟨server, running, hmain, hlists,
    (main_descriptors hmain (of_decide_eq_true hchecked).1
      (Machine.reachable_of_replay .start hrunning)).1⟩

end Running

end Webserv
