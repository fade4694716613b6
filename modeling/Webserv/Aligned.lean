import Webserv.Server
import Webserv.Served
import Webserv.Machine.Run
import Mathlib.Data.List.InsertIdx
import Mathlib.Data.List.Nodup

namespace Webserv

open Cxx

/-! The vectors of the event loop stay aligned: the listening sockets come
first, and then one poll entry for each client, in the order of the clients. -/

section Keys

variable {α β : Type} [DecidableEq β] {key : α → β} {l : List α}

theorem findIdx_key {i : Nat} {x : α} (hnodup : (l.map key).Nodup)
    (hx : l[i]? = some x) : l.findIdx (key · = key x) = i := by
  obtain ⟨hi, rfl⟩ := List.getElem?_eq_some_iff.mp hx
  rw [List.findIdx_eq hi]
  refine ⟨by simp, fun j hj => ?_⟩
  have hi' : i < (l.map key).length := by simpa
  have hj' : j < (l.map key).length := hj.trans hi'
  have hne : (l.map key)[j] ≠ (l.map key)[i] := by
    intro heq
    have hsame := (List.Nodup.getElem_inj_iff hnodup).mp heq
    omega
  simpa using hne

theorem map_eraseP_key {b : β} :
    (l.eraseP (key · = b)).map key = (l.map key).erase b := by
  induction l with
  | nil => rfl
  | cons x l ih =>
      by_cases hx : key x = b
      · simp [hx]
      · simp [hx, ih]

end Keys

namespace Server

variable {W : Type}

structure Aligned (server : Server W) : Prop where
  fds : server.pollfds.map PollFd.fd =
    server.pollfdsServers.map PollFd.fd ++ server.clients.map Client.clientId
  clientFds : server.pollfdsClients.map PollFd.fd =
    server.clients.map Client.clientId
  nodup : (server.pollfds.map PollFd.fd).Nodup
  /-- A listening socket is polled for connections only. -/
  listening : ∀ polled ∈ server.pollfds,
    polled.fd ∈ server.pollfdsServers.map PollFd.fd →
      polled.events = .pollIn ∧ polled.revents.pollOut = false
  configured : ∀ polled ∈ server.pollfdsServers,
    ∃ config ∈ server.serverConfigs, config.fd = polled.fd
  keepAlive : ∀ client ∈ server.clients, client.keepAlive = false

/-- A slot with a client in it: its index, and the client and its index. -/
structure Slot (server : Server W) (index clientIndex : Nat)
    (polled : PollFd) (client : Client) : Prop where
  entry : server.pollfds[index]? = some polled
  record : server.clients[clientIndex]? = some client
  sameFd : client.clientId = polled.fd
  offset : index = server.pollfdsServers.length + clientIndex
  found : server.getClientIndexByFd polled.fd = clientIndex

variable {server : Server W}

theorem Aligned.clients_nodup (h : Aligned server) :
    (server.clients.map Client.clientId).Nodup :=
  (List.nodup_append.mp (h.fds ▸ h.nodup)).2.1

theorem Aligned.slot_of_client (h : Aligned server) {clientIndex : Nat}
    {client : Client} (hclient : server.clients[clientIndex]? = some client) :
    ∃ polled, Slot server (server.pollfdsServers.length + clientIndex)
      clientIndex polled client := by
  have hkey : (server.pollfds.map PollFd.fd)[
      server.pollfdsServers.length + clientIndex]? =
        some client.clientId := by
    rw [h.fds, List.getElem?_append_right (by simp)]
    simp [hclient]
  rw [List.getElem?_map, Option.map_eq_some_iff] at hkey
  obtain ⟨polled, hpolled, hfd⟩ := hkey
  refine ⟨polled, hpolled, hclient, hfd.symm, rfl, ?_⟩
  rw [hfd]
  exact findIdx_key h.clients_nodup hclient

theorem Aligned.slot_cases (h : Aligned server) {index : Nat}
    {polled : PollFd} (hpolled : server.pollfds[index]? = some polled) :
    (polled.fd ∈ server.pollfdsServers.map PollFd.fd ∧
        polled.fd ∉ server.clients.map Client.clientId) ∨
      ∃ clientIndex client, Slot server index clientIndex polled client := by
  have hkey : (server.pollfdsServers.map PollFd.fd ++
      server.clients.map Client.clientId)[index]? = some polled.fd := by
    rw [← h.fds, List.getElem?_map, hpolled]
    rfl
  have hdisjoint := (List.nodup_append.mp (h.fds ▸ h.nodup)).2.2
  by_cases hindex : index < server.pollfdsServers.length
  · left
    rw [List.getElem?_append_left (by simpa)] at hkey
    have hmem := List.mem_of_getElem? hkey
    exact ⟨hmem, fun hclient => hdisjoint _ hmem _ hclient rfl⟩
  · right
    rw [List.getElem?_append_right (by simpa using hindex),
      List.getElem?_map, Option.map_eq_some_iff] at hkey
    obtain ⟨client, hclient, hfd⟩ := hkey
    simp only [List.length_map] at hclient
    refine ⟨_, client, hpolled, hclient, hfd, by omega, ?_⟩
    rw [← hfd]
    exact findIdx_key h.clients_nodup hclient

theorem Slot.not_listening (h : Aligned server) {index clientIndex : Nat}
    {polled : PollFd} {client : Client}
    (hslot : Slot server index clientIndex polled client) :
    polled.fd ∉ server.pollfdsServers.map PollFd.fd := by
  have hdisjoint := (List.nodup_append.mp (h.fds ▸ h.nodup)).2.2
  intro hlistening
  refine hdisjoint _ hlistening _ ?_ hslot.sameFd.symm
  exact List.mem_map_of_mem (List.mem_of_getElem? hslot.record)

/-! Each change of the vectors keeps them aligned. -/

theorem Slot.close_eq {index clientIndex : Nat} {polled : PollFd}
    {client : Client} (hslot : Slot server index clientIndex polled client)
    (hkeepAlive : client.keepAlive = false) :
    server.closeClientConnection index =
      server.eraseClient index clientIndex polled.fd := by
  unfold closeClientConnection
  simp [hslot.entry, hslot.found, hslot.record, hkeepAlive]

theorem Aligned.eraseClient (h : Aligned server) {index clientIndex : Nat}
    {polled : PollFd} {client : Client}
    (hslot : Slot server index clientIndex polled client) :
    Aligned (server.eraseClient index clientIndex polled.fd) := by
  have hindex : (server.pollfdsServers.map PollFd.fd).length ≤ index := by
    rw [List.length_map, hslot.offset]
    omega
  have hids : (server.clients.eraseIdx clientIndex).map Client.clientId =
      (server.clients.map Client.clientId).eraseIdx clientIndex :=
    (List.eraseIdx_map ..).symm
  refine ⟨?_, ?_, ?_, ?_, h.configured, ?_⟩
  · change (server.pollfds.eraseIdx index).map PollFd.fd = _ ++
      (server.clients.eraseIdx clientIndex).map Client.clientId
    rw [← List.eraseIdx_map, h.fds, List.eraseIdx_append_of_length_le hindex,
      hids]
    congr 2
    rw [List.length_map, hslot.offset]
    omega
  · change (server.pollfdsClients.eraseP (·.fd = polled.fd)).map PollFd.fd =
      (server.clients.eraseIdx clientIndex).map Client.clientId
    obtain ⟨hlt, hrecord⟩ := List.getElem?_eq_some_iff.mp hslot.record
    have hinside : clientIndex <
        (server.clients.map Client.clientId).length := by simpa
    have hkey : polled.fd =
        (server.clients.map Client.clientId)[clientIndex] := by
      rw [List.getElem_map, hrecord, hslot.sameFd]
    rw [map_eraseP_key, h.clientFds, hids, hkey]
    exact List.Nodup.erase_getElem h.clients_nodup ..
  · change ((server.pollfds.eraseIdx index).map PollFd.fd).Nodup
    rw [← List.eraseIdx_map]
    exact h.nodup.sublist (List.eraseIdx_sublist ..)
  · intro other hother
    exact h.listening other (List.mem_of_mem_eraseIdx hother)
  · intro other hother
    exact h.keepAlive other (List.mem_of_mem_eraseIdx hother)

theorem Aligned.setClient (h : Aligned server) {clientIndex : Nat}
    {client client' : Client}
    (hclient : server.clients[clientIndex]? = some client)
    (hid : client'.clientId = client.clientId)
    (hkeepAlive : client'.keepAlive = false) :
    Aligned (server.setClient clientIndex client') := by
  have hids : (server.clients.set clientIndex client').map Client.clientId =
      server.clients.map Client.clientId := by
    obtain ⟨hlt, rfl⟩ := List.getElem?_eq_some_iff.mp hclient
    have hinside : clientIndex <
        (server.clients.map Client.clientId).length := by simpa
    have hkey : client'.clientId =
        (server.clients.map Client.clientId)[clientIndex] := by
      rw [List.getElem_map, hid]
    rw [List.map_set, hkey, List.set_getElem_self]
  refine ⟨?_, ?_, h.nodup, h.listening, h.configured, ?_⟩
  · exact h.fds.trans (by rw [← hids]; rfl)
  · exact h.clientFds.trans (by rw [← hids]; rfl)
  · intro other hother
    rcases List.mem_or_eq_of_mem_set hother with hold | rfl
    · exact h.keepAlive other hold
    · exact hkeepAlive

@[simp] theorem setEvents_fds (server : Server W) (index : Nat)
    (events : Interest) :
    (server.setEvents index events).pollfds.map PollFd.fd =
      server.pollfds.map PollFd.fd := by
  apply List.ext_getElem?
  intro i
  simp only [setEvents, List.getElem?_map, List.getElem?_modify]
  split <;> simp [Function.comp_def]

theorem Aligned.setEvents (h : Aligned server) {index : Nat}
    {events : Interest}
    (hindex : events = .pollOut → ∀ polled,
      server.pollfds[index]? = some polled →
        polled.fd ∉ server.pollfdsServers.map PollFd.fd) :
    Aligned (server.setEvents index events) := by
  have hfds := server.setEvents_fds index events
  refine ⟨hfds.trans h.fds, h.clientFds, hfds ▸ h.nodup, ?_, h.configured,
    h.keepAlive⟩
  intro polled hpolled hlistening
  obtain ⟨i, hi⟩ := List.mem_iff_getElem?.mp hpolled
  simp only [Server.setEvents, List.getElem?_modify, Option.map_eq_map,
    Option.map_eq_some_iff] at hi
  obtain ⟨old, hold, rfl⟩ := hi
  have hmem := List.mem_of_getElem? hold
  split at hlistening
  · rename_i hsame
    subst hsame
    obtain ⟨hevents, hrevents⟩ := h.listening old hmem hlistening
    cases events with
    | pollIn => exact ⟨by simp, by simpa using hrevents⟩
    | pollOut => exact absurd hlistening (hindex rfl old hold)
  · rename_i hother
    simpa [hother] using h.listening old hmem hlistening

theorem Aligned.logSent (h : Aligned server) (fd : Int) (bytes : Str) :
    Aligned (server.logSent fd bytes) :=
  ⟨h.fds, h.clientFds, h.nodup, h.listening, h.configured, h.keepAlive⟩

theorem Slot.logSent {index clientIndex : Nat} {polled : PollFd}
    {client : Client} (hslot : Slot server index clientIndex polled client)
    (fd : Int) (bytes : Str) :
    Slot (server.logSent fd bytes) index clientIndex polled client :=
  ⟨hslot.entry, hslot.record, hslot.sameFd, hslot.offset, hslot.found⟩

theorem Aligned.close (h : Aligned server) {index : Nat}
    (hindex : ∀ polled, server.pollfds[index]? = some polled →
      polled.fd ∉ server.pollfdsServers.map PollFd.fd) :
    Aligned (server.closeClientConnection index) := by
  cases hpolled : server.pollfds[index]? with
  | none =>
      unfold closeClientConnection
      rw [hpolled]
      exact h
  | some polled =>
      rcases h.slot_cases hpolled with
        ⟨hlistening, -⟩ | ⟨clientIndex, client, hslot⟩
      · exact absurd hlistening (hindex polled hpolled)
      · rw [hslot.close_eq (h.keepAlive client
          (List.mem_of_getElem? hslot.record))]
        exact h.eraseClient hslot

theorem Aligned.addClient (h : Aligned server) {fd : Int}
    (block : ServerBlock) (hnew : fd ∉ server.pollfds.map PollFd.fd) :
    Aligned (server.addClient fd block) := by
  refine ⟨?_, ?_, ?_, ?_, h.configured, ?_⟩
  · simp [Server.addClient, h.fds, Client.connect]
  · simp [Server.addClient, h.clientFds, Client.connect]
  · simp only [Server.addClient, List.map_append, List.map_cons,
      List.map_nil]
    rw [List.nodup_append]
    refine ⟨h.nodup, by simp, ?_⟩
    rintro other hother fd' hfd' rfl
    rw [List.mem_singleton] at hfd'
    subst hfd'
    exact hnew hother
  · intro polled hpolled hlistening
    simp only [Server.addClient, List.mem_append,
      List.mem_singleton] at hpolled
    rcases hpolled with hold | rfl
    · exact h.listening polled hold hlistening
    · exact ⟨rfl, rfl⟩
  · intro client hclient
    simp only [Server.addClient, List.mem_append,
      List.mem_singleton] at hclient
    rcases hclient with hold | rfl
    · exact h.keepAlive client hold
    · rfl

theorem Aligned.giveUp (h : Aligned server) (fd : Int) :
    Aligned (server.giveUp fd) :=
  ⟨h.fds, h.clientFds, h.nodup, h.listening, h.configured, h.keepAlive⟩

theorem Aligned.acceptClient (h : Aligned server) {answers : Answers}
    (block : ServerBlock) (hfresh : ∀ fd, answers.accepted = some fd →
      fd ∉ server.pollfds.map PollFd.fd) :
    Aligned (server.acceptClient answers block) := by
  unfold Server.acceptClient
  cases haccepted : answers.accepted with
  | none => exact h
  | some fd =>
      simp only
      split
      · exact h.giveUp fd
      · exact h.addClient block (hfresh fd haccepted)

end Server

/-! The write of one client. -/

/-- A piece of the file is read and offered to `send`. -/
def Client.offersChunk (client : Client) : Prop :=
  client.response.fileStream.isOpen = true ∧
    client.response.fileStream.eof = false ∧
    (client.response.fileStream.read chunkSize).2 ≠ []

/-- Some `send` made for the client returns 0 or less. -/
def FailedSend (client : Client) (answers : Answers) : Prop :=
  (client.request.isStringReqSend = false ∧ answers.sentHead ≤ 0) ∨
    (client.offersChunk ∧ answers.sentChunk ≤ 0)

theorem writeHead_eq {client client' : Client} {result : Int} {head : Str}
    (h : writeHead client result = some (client', head)) :
    client' = client.setStringReqSend := by
  unfold writeHead at h
  split at h
  · rename_i hsent
    obtain ⟨rfl, -⟩ := Prod.mk.inj (Option.some.inj h)
    rw [Client.setStringReqSend, ← hsent]
  split at h
  · cases h
  · exact (Prod.mk.inj (Option.some.inj h)).1.symm

theorem writeChunk_eq {client client' : Client} {result : Int} {chunk : Str}
    (h : writeChunk client result = some (client', chunk)) :
    ∃ fileStream, client' = client.setFileStream fileStream := by
  unfold writeChunk at h
  simp only at h
  split at h
  · split at h
    · exact ⟨_, (Prod.mk.inj (Option.some.inj h)).1.symm⟩
    split at h
    · cases h
    · exact ⟨_, (Prod.mk.inj (Option.some.inj h)).1.symm⟩
  · exact ⟨client.response.fileStream,
      (Prod.mk.inj (Option.some.inj h)).1.symm⟩

theorem writeChunk_eq_none_iff {client : Client} {result : Int} :
    writeChunk client result = none ↔ client.offersChunk ∧ result ≤ 0 := by
  unfold writeChunk Client.offersChunk
  simp only
  split
  · rename_i hopen
    split
    · rename_i hempty
      simp [hempty]
    · rename_i hread
      split
      · rename_i hfailed
        simp [hopen, hread, hfailed]
      · rename_i hfine
        simp [hfine]
  · rename_i hclosed
    simp only [reduceCtorEq, false_iff]
    rintro ⟨⟨hopen, heof, -⟩, -⟩
    exact hclosed ⟨hopen, heof⟩

theorem clientWrite_eq_none_iff {client : Client} {answers : Answers} :
    (clientWrite client answers).2 = none ↔ FailedSend client answers := by
  unfold clientWrite FailedSend
  cases hhead : writeHead client answers.sentHead with
  | none =>
      simp only [true_iff]
      unfold writeHead at hhead
      split at hhead
      · cases hhead
      · rename_i hunsent
        split at hhead
        · rename_i hfailed
          exact .inl ⟨by simpa using hunsent, hfailed⟩
        · cases hhead
  | some written =>
      obtain ⟨client₁, head⟩ := written
      have hheadOk : ¬(client.request.isStringReqSend = false ∧
          answers.sentHead ≤ 0) := by
        rintro ⟨hunsent, hfailed⟩
        simp [writeHead, hunsent, hfailed] at hhead
      have hoffers : client₁.offersChunk ↔ client.offersChunk := by
        rw [writeHead_eq hhead]
        rfl
      have hchunk : writeChunk client₁ answers.sentChunk = none ↔
          client.offersChunk ∧ answers.sentChunk ≤ 0 := by
        rw [writeChunk_eq_none_iff, hoffers]
      cases hwritten : writeChunk client₁ answers.sentChunk with
      | none => simp [hwritten, hheadOk, hchunk.mp hwritten]
      | some done =>
          have hnot : ¬(client.offersChunk ∧ answers.sentChunk ≤ 0) := by
            rw [← hchunk, hwritten]
            simp
          simp [hwritten, hheadOk, hnot]

theorem clientWrite_some {client client' : Client} {answers : Answers}
    (h : (clientWrite client answers).2 = some client') :
    ∃ fileStream, client' = { client with
      request := { client.request with isStringReqSend := true }
      response := { client.response with fileStream := fileStream } } := by
  unfold clientWrite at h
  split at h
  · cases h
  · rename_i client₁ head hhead
    split at h
    · cases h
    · rename_i client₂ chunk hchunk
      obtain ⟨fileStream, rfl⟩ := writeChunk_eq hchunk
      obtain rfl := Option.some.inj h
      exact ⟨fileStream, by rw [writeHead_eq hhead]; rfl⟩

namespace Server

variable {W : Type} {server : Server W}

theorem Slot.handleClientWrite_eq (h : Aligned server)
    {index clientIndex : Nat} {polled : PollFd} {client : Client}
    (hslot : Slot server index clientIndex polled client)
    (answers : Answers) :
    server.handleClientWrite index answers =
      match (clientWrite client answers).2 with
      | none =>
          (server.logSent polled.fd (clientWrite client answers).1).eraseClient
            index clientIndex polled.fd
      | some client' =>
          (server.logSent polled.fd (clientWrite client answers).1).setClient
            clientIndex client' := by
  have hkeepAlive := h.keepAlive client (List.mem_of_getElem? hslot.record)
  unfold handleClientWrite
  rw [hslot.entry]
  simp only [hslot.found, hslot.record]
  cases (clientWrite client answers).2 with
  | none => exact (hslot.logSent ..).close_eq hkeepAlive
  | some client' => rfl

theorem Slot.handleClientWrite_aligned (h : Aligned server)
    {index clientIndex : Nat} {polled : PollFd} {client : Client}
    (hslot : Slot server index clientIndex polled client)
    (answers : Answers) :
    Aligned (server.handleClientWrite index answers) := by
  rw [hslot.handleClientWrite_eq h]
  have hkeepAlive := h.keepAlive client (List.mem_of_getElem? hslot.record)
  cases hwritten : (clientWrite client answers).2 with
  | none => exact (h.logSent ..).eraseClient (hslot.logSent ..)
  | some client' =>
      obtain ⟨fileStream, rfl⟩ := clientWrite_some hwritten
      exact (h.logSent ..).setClient hslot.record rfl hkeepAlive

/-- The slots that the end of a `POLLOUT` event finds may be those of the next
client, but they are aligned. -/
theorem Aligned.finishWrite {index clientIndex : Nat} {after next : Server W}
    (h : Aligned after)
    (hindex : index = after.pollfdsServers.length + clientIndex)
    (hnext : Server.finishWrite after index clientIndex = .ok next) :
    Aligned next := by
  unfold Server.finishWrite at hnext
  split at hnext
  · cases hnext
  rename_i client hclient
  split at hnext
  · obtain rfl := Except.ok.inj hnext
    exact h
  split at hnext
  · cases hnext
  have hset : Aligned (after.setEvents index .pollIn) :=
    h.setEvents (fun hout => by cases hout)
  have hclient' : (after.setEvents index .pollIn).clients[clientIndex]? =
      some client := hclient
  obtain ⟨polled, hslot⟩ := hset.slot_of_client hclient'
  have hkeepAlive := h.keepAlive client (List.mem_of_getElem? hclient)
  simp only [hkeepAlive, if_true] at hnext
  obtain rfl := Except.ok.inj hnext
  have hoffset : (after.setEvents index .pollIn).pollfdsServers.length +
      clientIndex = index := hindex.symm
  rw [hoffset] at hslot
  rw [hslot.close_eq hkeepAlive]
  exact hset.eraseClient hslot

theorem handleClientWrite_pollfdsServers (server : Server W) (index : Nat)
    (answers : Answers) :
    (server.handleClientWrite index answers).pollfdsServers =
      server.pollfdsServers := by
  have hclose : ∀ before : Server W,
      (before.closeClientConnection index).pollfdsServers =
        before.pollfdsServers := by
    intro before
    unfold closeClientConnection
    split
    · rfl
    · simp only
      split
      · rfl
      · split <;> rfl
  unfold handleClientWrite
  split
  · rfl
  · simp only
    split
    · exact hclose server
    · split
      · exact hclose _
      · rfl

theorem Slot.visitWrite_eq {index clientIndex : Nat} {polled : PollFd}
    {client : Client} (hslot : Slot server index clientIndex polled client)
    (answers : Answers) :
    server.visitWrite index polled answers =
      Server.finishWrite (server.handleClientWrite index answers) index
        clientIndex := by
  have hlt := (List.getElem?_eq_some_iff.mp hslot.record).1
  unfold visitWrite
  simp only [hslot.found]
  rw [if_neg (by omega)]

variable [Os W]

theorem Aligned.visitRead (h : Aligned server) {index clientIndex : Nat}
    {polled : PollFd} {client : Client}
    (hslot : Slot server index clientIndex polled client) {answers : Answers}
    {next : Server W}
    (hnext : server.visitRead index polled answers = .ok next) :
    Aligned next := by
  have hkeepAlive := h.keepAlive client (List.mem_of_getElem? hslot.record)
  have hindex : ∀ other, server.pollfds[index]? = some other →
      other.fd ∉ server.pollfdsServers.map PollFd.fd := by
    intro other hother
    rw [hslot.entry] at hother
    obtain rfl := Option.some.inj hother
    exact hslot.not_listening h
  unfold Server.visitRead at hnext
  simp only [hslot.found, hslot.record] at hnext
  split at hnext
  · obtain rfl := Except.ok.inj hnext
    exact h.close hindex
  split at hnext
  · cases hnext
  rename_i process client' hchecked
  obtain ⟨hid, -, halive⟩ := checkRequest_kept hchecked
  have hprocess : Aligned ({ server with process := process } : Server W) :=
    ⟨h.fds, h.clientFds, h.nodup, h.listening, h.configured, h.keepAlive⟩
  have hset := hprocess.setClient hslot.record hid (halive hkeepAlive)
  obtain rfl := Except.ok.inj hnext
  split
  · exact hset.setEvents fun _ => hindex
  · exact hset

theorem visit_pollOut {server : Server W} {index : Nat} {polled : PollFd}
    (hpolled : server.pollfds[index]? = some polled)
    (hrevents : polled.revents = { pollOut := true }) (answers : Answers) :
    server.visit index answers = server.visitWrite index polled answers := by
  unfold visit
  rw [hpolled]
  simp [hrevents]

/-- Whatever the calls of a visit return, it keeps the vectors aligned. -/
theorem Aligned.visit (h : Aligned server) {index : Nat} {answers : Answers}
    (hfresh : ∀ fd, answers.accepted = some fd →
      fd ∉ server.pollfds.map PollFd.fd) {next : Server W}
    (hnext : server.visit index answers = .ok next) : Aligned next := by
  unfold Server.visit at hnext
  split at hnext
  · obtain rfl := Except.ok.inj hnext
    exact h
  rename_i polled hpolled
  split at hnext
  · split at hnext
    · obtain rfl := Except.ok.inj hnext
      exact h
    · rename_i hclient
      obtain rfl := Except.ok.inj hnext
      refine h.close fun other hother hlistening => hclient ?_
      rw [hpolled] at hother
      obtain rfl := Option.some.inj hother
      simpa using hlistening
  split at hnext
  · split at hnext
    · obtain rfl := Except.ok.inj hnext
      unfold visitAccept
      split
      · exact h
      split
      · exact h
      · exact h.acceptClient _ hfresh
    · rename_i hnone
      rcases h.slot_cases hpolled with
        ⟨hlistening, -⟩ | ⟨clientIndex, client, hslot⟩
      · -- a listening socket is one of the configured ones
        obtain ⟨listener, hlistener, hfd⟩ := List.mem_map.mp hlistening
        obtain ⟨config, hconfig, hsame⟩ := h.configured listener hlistener
        have hnot := List.find?_eq_none.mp hnone config hconfig
        rw [hsame, hfd] at hnot
        simp at hnot
      · exact h.visitRead hslot hnext
  split at hnext
  · rename_i hout
    rcases h.slot_cases hpolled with
      ⟨hlistening, -⟩ | ⟨clientIndex, client, hslot⟩
    · have hquiet := (h.listening polled (List.mem_of_getElem? hpolled)
        hlistening).2
      rw [hout] at hquiet
      cases hquiet
    · rw [hslot.visitWrite_eq] at hnext
      refine Aligned.finishWrite (hslot.handleClientWrite_aligned h answers)
        ?_ hnext
      rw [handleClientWrite_pollfdsServers]
      exact hslot.offset
  · obtain rfl := Except.ok.inj hnext
    exact h

omit [Os W] in
@[simp] theorem poll_fds (server : Server W) (reported : Nat → Revents) :
    (server.poll reported).pollfds.map PollFd.fd =
      server.pollfds.map PollFd.fd := by
  apply List.ext_getElem?
  intro i
  simp [Server.poll, Function.comp_def]

omit [Os W] in
theorem Aligned.poll (h : Aligned server) (reported : Nat → Revents) :
    Aligned (server.poll reported) := by
  have hfds := server.poll_fds reported
  refine ⟨hfds.trans h.fds, h.clientFds, hfds ▸ h.nodup, ?_, h.configured,
    h.keepAlive⟩
  intro polled hpolled hlistening
  obtain ⟨i, hi⟩ := List.mem_iff_getElem?.mp hpolled
  simp only [Server.poll, List.getElem?_mapIdx, Option.map_eq_some_iff] at hi
  obtain ⟨old, hold, rfl⟩ := hi
  obtain ⟨hevents, -⟩ := h.listening old (List.mem_of_getElem? hold)
    hlistening
  exact ⟨hevents, by simp [hevents]⟩

theorem step_aligned {event : Event} {next : Server W} (h : Aligned server)
    (hpermitted : Permitted server event)
    (hnext : server.step event = .ok next) : Aligned next := by
  cases event with
  | poll reported =>
      rw [step] at hnext
      split at hnext
      · obtain rfl := Except.ok.inj hnext
        exact h.poll reported
      · obtain rfl := Except.ok.inj hnext
        exact h
  | visit answers =>
      rw [step] at hnext
      split at hnext
      · obtain rfl := Except.ok.inj hnext
        exact h
      · rename_i index hcursor
        have hmoved : Aligned ({ server with cursor := index } : Server W) :=
          ⟨h.fds, h.clientFds, h.nodup, h.listening, h.configured,
            h.keepAlive⟩
        exact hmoved.visit (fun fd hfd => (hpermitted fd hfd).2) hnext

omit [Os W] in
theorem aligned_initializeServers (world : W) (blocks : List ServerBlock)
    {created : List ServerConfig}
    (hnodup : ((created.filter (0 ≤ ·.fd)).map ServerConfig.fd).Nodup) :
    Aligned (initializeServers world blocks created) := by
  refine ⟨?_, rfl, ?_, ?_, ?_, by simp [initializeServers]⟩
  · simp [initializeServers]
  · simpa [initializeServers, Function.comp_def] using hnodup
  · intro polled hpolled _
    simp only [initializeServers, List.mem_map] at hpolled
    obtain ⟨config, -, rfl⟩ := hpolled
    exact ⟨rfl, rfl⟩
  · intro polled hpolled
    simp only [initializeServers, List.mem_map] at hpolled
    obtain ⟨config, hconfig, rfl⟩ := hpolled
    exact ⟨config, (List.mem_filter.mp hconfig).1, rfl⟩

omit [Os W] in
theorem Aligned.slot_of_fd (h : Aligned server) {index clientIndex : Nat}
    {polled : PollFd} {client : Client}
    (hpolled : server.pollfds[index]? = some polled)
    (hclient : server.clients[clientIndex]? = some client)
    (hfd : client.clientId = polled.fd) :
    Slot server index clientIndex polled client := by
  have hfound : server.getClientIndexByFd polled.fd = clientIndex := by
    rw [← hfd]
    exact findIdx_key h.clients_nodup hclient
  rcases h.slot_cases hpolled with ⟨-, hnot⟩ | ⟨found, other, hslot⟩
  · rw [← hfd] at hnot
    exact absurd (List.mem_map_of_mem (List.mem_of_getElem? hclient)) hnot
  · obtain rfl : found = clientIndex := hslot.found.symm.trans hfound
    exact ⟨hpolled, hclient, hfd, hslot.offset, hfound⟩

omit [Os W] in
/-- The end of the event on slots without a client is an access out of range;
on those of a client that is not finished it changes nothing; a finished one
is closed. -/
theorem finishWrite_cases {after : Server W} (h : Aligned after)
    {index clientIndex : Nat}
    (hindex : index = after.pollfdsServers.length + clientIndex) :
    (after.clients[clientIndex]? = none ∧
        finishWrite after index clientIndex = .error .badSlot) ∨
      ∃ client, after.clients[clientIndex]? = some client ∧
        ((client.finished = false ∧
            finishWrite after index clientIndex = .ok after) ∨
          (client.finished = true ∧ ∃ next,
            finishWrite after index clientIndex = .ok next ∧
              next.clients = after.clients.eraseIdx clientIndex ∧
              next.sent = after.sent)) := by
  unfold finishWrite
  cases hclient : after.clients[clientIndex]? with
  | none => exact .inl ⟨rfl, rfl⟩
  | some client =>
      refine .inr ⟨client, rfl, ?_⟩
      have hkeepAlive := h.keepAlive client (List.mem_of_getElem? hclient)
      cases hfinished : client.finished with
      | false => exact .inl ⟨rfl, by simp [hfinished]⟩
      | true =>
          right
          refine ⟨rfl, ?_⟩
          obtain ⟨polled, hslot⟩ := h.slot_of_client hclient
          rw [← hindex] at hslot
          have hlt := (List.getElem?_eq_some_iff.mp hslot.entry).1
          have hset : Aligned (after.setEvents index .pollIn) :=
            h.setEvents (fun hout => by cases hout)
          have hclient' : (after.setEvents index .pollIn).clients[
              clientIndex]? = some client := hclient
          obtain ⟨polled', hslot'⟩ := hset.slot_of_client hclient'
          have hoffset : (after.setEvents index .pollIn).pollfdsServers.length
              + clientIndex = index := hindex.symm
          rw [hoffset] at hslot'
          refine ⟨(after.setEvents index .pollIn).eraseClient index
            clientIndex polled'.fd, ?_, rfl, rfl⟩
          simp only [hfinished, Bool.true_eq_false, if_false, hkeepAlive,
            if_true]
          rw [if_neg (by omega), hslot'.close_eq hkeepAlive]

/-- The states the event loop reaches from listening sockets with distinct
descriptors. -/
def Reached (server : Server W) : Prop :=
  ∃ world blocks created,
    ((created.filter (0 ≤ ·.fd)).map ServerConfig.fd).Nodup ∧
    Machine.Reachable step Permitted
      (initializeServers world blocks created) server

theorem Reached.aligned (h : Reached server) : Aligned server := by
  obtain ⟨world, blocks, created, hnodup, hreachable⟩ := h
  exact hreachable.invariant (fun _ _ _ => step_aligned)
    (aligned_initializeServers world blocks hnodup)

end Server

end Webserv
