import Webserv.Aligned
import Webserv.Disk

namespace Webserv

open Cxx

/-! What becomes of the other connections when a `send` fails. -/

namespace Server

variable {W : Type} [Os W]

/-- The visit of a slot removes exactly its client, and closes its descriptor
once. -/
def Isolated (server : Server W) (index clientIndex : Nat) (fd : Int)
    (answers : Answers) : Prop :=
  ∃ next, server.visit index answers = .ok next ∧
    next.clients = server.clients.eraseIdx clientIndex ∧
    next.pollfds = server.pollfds.eraseIdx index ∧
    next.pollfdsClients = server.pollfdsClients.eraseP (·.fd = fd) ∧
    next.closed = server.closed ++ [fd] ∧
    next.pollfdsServers = server.pollfdsServers ∧
    next.process = server.process

omit [Os W] in
/-- After a failed `send` the loop goes on with the slots of the next client. -/
theorem Slot.visitWrite_failed {server : Server W} (h : Aligned server)
    {index clientIndex : Nat} {polled : PollFd} {client : Client}
    (hslot : Slot server index clientIndex polled client) {answers : Answers}
    (hfailed : FailedSend client answers) :
    server.visitWrite index polled answers =
      finishWrite ((server.logSent polled.fd
        (clientWrite client answers).1).eraseClient index clientIndex
          polled.fd) index clientIndex := by
  rw [hslot.visitWrite_eq, hslot.handleClientWrite_eq h,
    clientWrite_eq_none_iff.mpr hfailed]

/-- In every reachable state, a failed `send` is isolated exactly when the
client in the next slot exists and still has a file to send. -/
theorem failedSend_isolated_iff {server : Server W} (hreached : Reached server)
    {index clientIndex : Nat} {polled : PollFd} {client : Client}
    (hpolled : server.pollfds[index]? = some polled)
    (hclient : server.clients[clientIndex]? = some client)
    (hfd : client.clientId = polled.fd)
    (hrevents : polled.revents = { pollOut := true }) {answers : Answers}
    (hfailed : FailedSend client answers) :
    Isolated server index clientIndex polled.fd answers ↔
      ∃ next, server.clients[clientIndex + 1]? = some next ∧
        next.finished = false := by
  have haligned := hreached.aligned
  have hslot := haligned.slot_of_fd hpolled hclient hfd
  have hlt := (List.getElem?_eq_some_iff.mp hclient).1
  unfold Isolated
  rw [visit_pollOut hpolled hrevents, hslot.visitWrite_failed haligned hfailed]
  have herased := (haligned.logSent polled.fd
    (clientWrite client answers).1).eraseClient (hslot.logSent ..)
  generalize hafter : (server.logSent polled.fd
    (clientWrite client answers).1).eraseClient index clientIndex polled.fd =
      after at *
  have hclients : after.clients = server.clients.eraseIdx clientIndex := by
    rw [← hafter]
    rfl
  have hservers : after.pollfdsServers = server.pollfdsServers := by
    rw [← hafter]
    rfl
  -- the slot of the erased client is that of the next one
  have hshift : after.clients[clientIndex]? =
      server.clients[clientIndex + 1]? := by
    rw [hclients, List.getElem?_eraseIdx_of_ge (Nat.le_refl _)]
  have hindex : index = after.pollfdsServers.length + clientIndex := by
    rw [hservers]
    exact hslot.offset
  rw [← hshift]
  rcases finishWrite_cases herased hindex with
    ⟨hnone, herror⟩ | ⟨next, hnext, ⟨hopen, hok⟩ | ⟨hdone, last, hok, hlast, -⟩⟩
  · rw [herror, hnone]
    simp
  · rw [hok, hnext]
    refine iff_of_true ⟨after, rfl, hclients, ?_⟩ ⟨next, rfl, hopen⟩
    rw [← hafter]
    exact ⟨rfl, rfl, rfl, rfl, rfl⟩
  · rw [hok, hnext]
    refine iff_of_false ?_ ?_
    · rintro ⟨final, hfinal, hsame, -⟩
      obtain rfl := Except.ok.inj hfinal
      -- one more client is gone
      have hlength := congrArg List.length (hlast.symm.trans hsame)
      have hbelow := (List.getElem?_eq_some_iff.mp hnext).1
      rw [← hclients, List.length_eraseIdx_of_lt hbelow] at hlength
      omega
    · rintro ⟨other, hother, hstill⟩
      obtain rfl := Option.some.inj hother
      rw [hdone] at hstill
      cases hstill

/-! One or two clients that have asked for the same file. -/

def fileDisk : Disk where
  nodes := [
    (Lexical.resolve "./html".toList, .directory),
    (Lexical.resolve "./html/a".toList, .file "x".toList)]

def listening : Server Disk :=
  initializeServers fileDisk [{}] [{ serverBlockIndex := 0, fd := 3 }]

def askForFile : Answers where
  received := "GET /a HTTP/1.1\r\nHost: h\r\n\r\n".toList

/-- Up to the visit of a client that can be written to. -/
def oneClient : List Event := [
  .poll fun _ => { pollIn := true },
  .visit { accepted := some 5 },
  .poll fun i => { pollIn := i = 1 },
  .visit askForFile, .visit {},
  .poll fun _ => { pollOut := true }]

def twoClients : List Event := [
  .poll fun _ => { pollIn := true },
  .visit { accepted := some 5 },
  .poll fun i => { pollIn := i = 0 },
  .visit {}, .visit { accepted := some 6 },
  .poll fun i => { pollIn := i ≠ 0 },
  .visit askForFile, .visit askForFile, .visit {},
  .poll fun i => { pollOut := i = 1 },
  .visit {}]

theorem reached_of_replay {server : Server Disk} {events : List Event}
    (h : Machine.replay step Permitted listening events = some server) :
    Reached server :=
  ⟨fileDisk, [{}], [{ serverBlockIndex := 0, fd := 3 }], by decide,
    Machine.reachable_of_replay .start h⟩

/-- What the statements read of the state before the visit of slot 1. -/
def slotOne (server : Server Disk) :
    Option PollFd × Option (Int × Bool) × Option Bool :=
  (server.pollfds[1]?,
    server.clients[0]?.map fun client =>
      (client.clientId, client.request.isStringReqSend),
    server.clients[1]?.map Client.finished)

/-- The fault that the visit of slot 1 ends with when a `send` fails. -/
def failedFault (server : Server Disk) : Option Fault :=
  match server.visit 1 { sentHead := -1 } with
  | .error fault => some fault
  | .ok _ => none

theorem failedSend_isolated_two :
    ∃ server, Machine.replay step Permitted listening twoClients =
        some server ∧
      Isolated server 1 0 5 { sentHead := -1 } := by
  have hstate : (Machine.replay step Permitted listening twoClients).map
      slotOne = some (some ⟨5, .pollOut, { pollOut := true }⟩,
        some (5, false), some false) := by decide +kernel
  obtain ⟨server, hreplay, hslot⟩ := Option.map_eq_some_iff.mp hstate
  obtain ⟨hpolled, hslot⟩ := Prod.mk.inj hslot
  obtain ⟨hfirst, hsecond⟩ := Prod.mk.inj hslot
  obtain ⟨client, hclient, hfields⟩ := Option.map_eq_some_iff.mp hfirst
  obtain ⟨next, hnext, hopen⟩ := Option.map_eq_some_iff.mp hsecond
  obtain ⟨hid, hunsent⟩ := Prod.mk.inj hfields
  refine ⟨server, hreplay, (failedSend_isolated_iff
    (reached_of_replay hreplay) hpolled hclient hid rfl
    (.inl ⟨hunsent, by decide⟩)).mpr ⟨next, hnext, hopen⟩⟩

/-- Without a client in the next slot, the loop goes on with a slot that does
not exist. -/
theorem failedSend_not_isolated_one :
    ∃ server polled client,
      Machine.replay step Permitted listening oneClient = some server ∧
      server.pollfds[1]? = some polled ∧ server.clients[0]? = some client ∧
      client.clientId = polled.fd ∧
      polled.revents = { pollOut := true } ∧
      FailedSend client { sentHead := -1 } ∧
      server.visit 1 { sentHead := -1 } = .error .badSlot ∧
      ¬Isolated server 1 0 polled.fd { sentHead := -1 } := by
  have hstate : (Machine.replay step Permitted listening oneClient).map
      slotOne = some (some ⟨5, .pollOut, { pollOut := true }⟩,
        some (5, false), none) := by decide +kernel
  have hran : (Machine.replay step Permitted listening oneClient).bind
      failedFault = some .badSlot := by decide +kernel
  obtain ⟨server, hreplay, hslot⟩ := Option.map_eq_some_iff.mp hstate
  rw [hreplay] at hran
  have hfault : failedFault server = some .badSlot := hran
  obtain ⟨hpolled, hslot⟩ := Prod.mk.inj hslot
  obtain ⟨client, hclient, hfields⟩ :=
    Option.map_eq_some_iff.mp (Prod.mk.inj hslot).1
  obtain ⟨hid, hunsent⟩ := Prod.mk.inj hfields
  have herror : server.visit 1 { sentHead := -1 } = .error .badSlot := by
    unfold failedFault at hfault
    cases hvisit : server.visit 1 { sentHead := -1 } with
    | error fault =>
        rw [hvisit] at hfault
        rw [Option.some.inj hfault]
    | ok next =>
        rw [hvisit] at hfault
        cases hfault
  refine ⟨server, _, client, hreplay, hpolled, hclient, hid, rfl,
    .inl ⟨hunsent, by decide⟩, herror, ?_⟩
  rintro ⟨next, hok, -⟩
  rw [herror] at hok
  cases hok

end Server

end Webserv
