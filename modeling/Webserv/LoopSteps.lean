import Webserv.Descriptors

namespace Webserv

open Cxx

/-! What one step of the event loop can do to its connections. -/

namespace Server

variable {W : Type}

/-- The buffer that the visit of a slot hands to `check_request`, with the
descriptor it has come from. -/
def handedAt (server : Server W) (index : Nat) (answers : Answers) :
    Option (Int × Str) :=
  match server.pollfds[index]? with
  | none => none
  | some polled =>
      if polled.revents.trouble then none
      else if polled.revents.pollIn then
        match server.findConfig polled.fd with
        | some _ => none
        | none =>
            match server.clients[server.getClientIndexByFd polled.fd]? with
            | none => none
            | some _ =>
                if answers.received = [] then none
                else some (polled.fd, answers.received)
      else none

def handed (server : Server W) : Event → Option (Int × Str)
  | .poll _ => none
  | .visit answers =>
      match server.cursor with
      | 0 => none
      | index + 1 => server.handedAt index answers

theorem handedAt_fd {server : Server W} {index : Nat} {answers : Answers}
    {polled : PollFd} {fd : Int} {bytes : Str}
    (hpolled : server.pollfds[index]? = some polled)
    (h : server.handedAt index answers = some (fd, bytes)) :
    fd = polled.fd := by
  unfold handedAt at h
  rw [hpolled] at h
  simp only at h
  split at h
  · cases h
  split at h
  · split at h
    · cases h
    split at h
    · cases h
    split at h
    · cases h
    · exact (Prod.mk.inj (Option.some.inj h)).1.symm
  · cases h

/-- The vectors once `check_request` has returned. -/
def takeRead (server : Server W) (index clientIndex : Nat)
    (process : Process W) (client : Client) : Server W :=
  let server := { server with process := process }.setClient clientIndex client
  if client.allRecv then server.setEvents index .pollOut else server

variable {server : Server W}

theorem eraseClient_setEvents (server : Server W) (index clientIndex : Nat)
    (events : Interest) (fd : Int) :
    (server.setEvents index events).eraseClient index clientIndex fd =
      server.eraseClient index clientIndex fd := by
  unfold eraseClient setEvents
  simp only [List.eraseIdx_modify_of_eq]

theorem eraseClient_setClient (server : Server W) (index clientIndex : Nat)
    (client : Client) (fd : Int) :
    (server.setClient clientIndex client).eraseClient index clientIndex fd =
      server.eraseClient index clientIndex fd := by
  unfold eraseClient setClient
  simp only [List.eraseIdx_set_eq]

section Visits

variable [Os W]

/-- The visit of a slot: of a listening socket, of a client that is read from,
and of one that is written to. -/
inductive Visited (server : Server W) (index : Nat) (answers : Answers) :
    Server W → Prop
  | idle : server.handedAt index answers = none →
      Visited server index answers server
  | accepted {polled : PollFd} {config : ServerConfig} {block : ServerBlock}
      {fd : Int} :
      server.pollfds[index]? = some polled →
      server.findConfig polled.fd = some config →
      ¬config.serverBlockIndex < 0 →
      server.serverBlockObj[config.serverBlockIndex.toNat]? = some block →
      answers.accepted = some fd → server.handedAt index answers = none →
      server.acceptsAt index answers = some fd →
      Visited server index answers (server.addClient fd block)
  /-- `fcntl` has failed on what `accept` has returned. -/
  | gaveUp {fd : Int} :
      server.handedAt index answers = none →
      server.acceptsAt index answers = some fd →
      Visited server index answers (server.giveUp fd)
  | received {clientIndex : Nat} {polled : PollFd} {client client' : Client}
      {process : Process W} :
      Slot server index clientIndex polled client →
      polled.revents.pollIn = true → answers.received ≠ [] →
      server.handedAt index answers = some (polled.fd, answers.received) →
      checkRequest server.process (client.setSRequest answers.received) =
        .ok (process, client') →
      Visited server index answers
        (server.takeRead index clientIndex process client')
  | ended {clientIndex : Nat} {polled : PollFd} {client : Client} :
      Slot server index clientIndex polled client →
      polled.revents ≠ { pollOut := true } →
      Visited server index answers
        (server.eraseClient index clientIndex polled.fd)
  | wrote {clientIndex : Nat} {polled : PollFd} {client client' : Client}
      {bytes : Str} :
      Slot server index clientIndex polled client →
      polled.revents = { pollOut := true } →
      clientWrite client answers = (bytes, some client') →
      client'.finished = false →
      Visited server index answers
        ((server.logSent polled.fd bytes).setClient clientIndex client')
  /-- The response is complete, or a `send` has failed. -/
  | left {clientIndex : Nat} {polled : PollFd} {client : Client}
      {bytes : Str} :
      Slot server index clientIndex polled client →
      polled.revents = { pollOut := true } →
      (clientWrite client answers).1 = bytes →
      (∀ client', (clientWrite client answers).2 = some client' →
        client'.finished = true) →
      Visited server index answers
        ((server.logSent polled.fd bytes).eraseClient index clientIndex
          polled.fd)
  /-- After a failed `send` the end of the event closes the client that has
  moved to the slots, too. -/
  | leftBoth {clientIndex : Nat} {polled other : PollFd}
      {client neighbour : Client} {bytes : Str} :
      Slot server index clientIndex polled client →
      polled.revents = { pollOut := true } →
      clientWrite client answers = (bytes, none) →
      Slot ((server.logSent polled.fd bytes).eraseClient index clientIndex
        polled.fd) index clientIndex other neighbour →
      Visited server index answers
        (((server.logSent polled.fd bytes).eraseClient index clientIndex
          polled.fd).eraseClient index clientIndex other.fd)

theorem Aligned.close_ended (h : Aligned server) {index : Nat}
    {answers : Answers} {polled : PollFd}
    (hpolled : server.pollfds[index]? = some polled)
    (hclient : polled.fd ∉ server.pollfdsServers.map PollFd.fd)
    (hevents : polled.revents ≠ { pollOut := true }) :
    Visited server index answers (server.closeClientConnection index) := by
  rcases h.slot_cases hpolled with
    ⟨hlistening, -⟩ | ⟨clientIndex, client, hslot⟩
  · exact absurd hlistening hclient
  · rw [hslot.close_eq (h.keepAlive client
      (List.mem_of_getElem? hslot.record))]
    exact .ended hslot hevents

theorem Slot.visitRead_visited (h : Aligned server)
    {index clientIndex : Nat} {polled : PollFd} {client : Client}
    (hslot : Slot server index clientIndex polled client)
    {answers : Answers} {next : Server W}
    (hin : polled.revents.pollIn = true)
    (hhanded : answers.received ≠ [] →
      server.handedAt index answers = some (polled.fd, answers.received))
    (hnext : server.visitRead index polled answers = .ok next) :
    Visited server index answers next := by
  unfold visitRead at hnext
  simp only [hslot.found, hslot.record] at hnext
  split at hnext
  · obtain rfl := Except.ok.inj hnext
    refine h.close_ended hslot.entry (hslot.not_listening h) fun hevents => ?_
    rw [hevents] at hin
    cases hin
  rename_i hreceived
  split at hnext
  · cases hnext
  rename_i process client' hchecked
  obtain rfl := Except.ok.inj hnext
  exact .received hslot hin hreceived (hhanded hreceived) hchecked

omit [Os W] in
theorem Aligned.finishWrite_ok (h : Aligned server) {index clientIndex : Nat}
    (hindex : index = server.pollfdsServers.length + clientIndex)
    {next : Server W}
    (hnext : server.finishWrite index clientIndex = .ok next) :
    ∃ polled client, Slot server index clientIndex polled client ∧
      ((client.finished = false ∧ next = server) ∨
        (client.finished = true ∧
          next = server.eraseClient index clientIndex polled.fd)) := by
  unfold Server.finishWrite at hnext
  cases hclient : server.clients[clientIndex]? with
  | none =>
      rw [hclient] at hnext
      cases hnext
  | some client =>
      have halive := h.keepAlive client (List.mem_of_getElem? hclient)
      have hset : Aligned (server.setEvents index .pollIn) :=
        h.setEvents (fun hout => by cases hout)
      obtain ⟨polled, hslot⟩ := h.slot_of_client hclient
      obtain ⟨other, hother⟩ := hset.slot_of_client hclient
      have hoffset : (server.setEvents index .pollIn).pollfdsServers.length +
        clientIndex = index := hindex.symm
      rw [← hindex] at hslot
      rw [hoffset] at hother
      refine ⟨polled, client, hslot, ?_⟩
      rw [hclient] at hnext
      simp only [halive, if_true] at hnext
      split at hnext
      · rename_i hmore
        obtain rfl := Except.ok.inj hnext
        exact .inl ⟨hmore, rfl⟩
      rename_i hdone
      split at hnext
      · cases hnext
      obtain rfl := Except.ok.inj hnext
      refine .inr ⟨by simpa using hdone, ?_⟩
      rw [hother.close_eq halive, eraseClient_setEvents, ← hother.sameFd,
        hslot.sameFd]

theorem Slot.visitWrite_visited (h : Aligned server)
    {index clientIndex : Nat} {polled : PollFd} {client : Client}
    (hslot : Slot server index clientIndex polled client)
    {answers : Answers} {next : Server W}
    (hout : polled.revents = { pollOut := true })
    (hnext : server.visitWrite index polled answers = .ok next) :
    Visited server index answers next := by
  have hlt := (List.getElem?_eq_some_iff.mp hslot.record).1
  rw [hslot.visitWrite_eq, hslot.handleClientWrite_eq h] at hnext
  cases hwritten : (clientWrite client answers).2 with
  | some client' =>
      have hwrite : clientWrite client answers =
          ((clientWrite client answers).1, some client') := by
        rw [← hwritten]
      obtain ⟨fileStream, hclient'⟩ := clientWrite_some hwritten
      have halive : client'.keepAlive = false := by
        rw [hclient']
        exact h.keepAlive client (List.mem_of_getElem? hslot.record)
      have hid : client'.clientId = client.clientId := by rw [hclient']
      rw [hwritten] at hnext
      simp only at hnext
      generalize (clientWrite client answers).1 = bytes at *
      have haligned : Aligned ((server.logSent polled.fd bytes).setClient
          clientIndex client') :=
        (h.logSent ..).setClient hslot.record hid halive
      have hrecord : ((server.logSent polled.fd bytes).setClient clientIndex
          client').clients[clientIndex]? = some client' := by
        simp [Server.setClient, Server.logSent, hlt]
      obtain ⟨other, found, hother, hcases⟩ :=
        haligned.finishWrite_ok hslot.offset hnext
      obtain rfl := Option.some.inj (hother.record.symm.trans hrecord)
      rcases hcases with ⟨hmore, rfl⟩ | ⟨hdone, rfl⟩
      · exact .wrote hslot hout hwrite hmore
      · rw [← hother.sameFd, hid, hslot.sameFd, eraseClient_setClient]
        refine .left hslot hout (congrArg Prod.fst hwrite) fun last hlast => ?_
        rw [hwrite] at hlast
        rw [← Option.some.inj hlast]
        exact hdone
  | none =>
      rw [hwritten] at hnext
      have haligned := (h.logSent polled.fd
        (clientWrite client answers).1).eraseClient (hslot.logSent ..)
      obtain ⟨other, neighbour, hother, hcases⟩ :=
        haligned.finishWrite_ok hslot.offset hnext
      rcases hcases with ⟨-, rfl⟩ | ⟨-, rfl⟩
      · refine .left hslot hout rfl fun last hlast => ?_
        rw [hwritten] at hlast
        cases hlast
      · exact .leftBoth hslot hout (by rw [← hwritten]) hother

theorem visit_visited (h : Aligned server) {index : Nat} {answers : Answers}
    {next : Server W} (hnext : server.visit index answers = .ok next) :
    Visited server index answers next := by
  unfold visit at hnext
  split at hnext
  · rename_i hpolled
    obtain rfl := Except.ok.inj hnext
    exact .idle (by simp [handedAt, hpolled])
  rename_i polled hpolled
  split at hnext
  · rename_i htrouble
    split at hnext
    · obtain rfl := Except.ok.inj hnext
      exact .idle (by simp [handedAt, hpolled, htrouble])
    · rename_i hclient
      obtain rfl := Except.ok.inj hnext
      refine h.close_ended hpolled (by simpa using hclient) fun hevents => ?_
      rw [hevents] at htrouble
      cases htrouble
  rename_i htrouble
  split at hnext
  · rename_i hin
    split at hnext
    · rename_i config hconfig
      obtain rfl := Except.ok.inj hnext
      have hhanded : server.handedAt index answers = none := by
        simp [handedAt, hpolled, htrouble, hin, hconfig]
      unfold visitAccept
      split
      · exact .idle hhanded
      rename_i hindex
      split
      · exact .idle hhanded
      rename_i block hblock
      unfold acceptClient
      cases haccepted : answers.accepted with
      | none => exact .idle hhanded
      | some fd =>
          have haccepts : server.acceptsAt index answers = some fd := by
            simp [acceptsAt, hpolled, htrouble, hin, hconfig, hindex, hblock,
              haccepted]
          simp only
          split
          · exact .gaveUp hhanded haccepts
          · exact .accepted hpolled hconfig hindex hblock haccepted hhanded
              haccepts
    · rename_i hnone
      rcases h.slot_cases hpolled with
        ⟨hlistening, -⟩ | ⟨clientIndex, client, hslot⟩
      · obtain ⟨listener, hlistener, hfd⟩ := List.mem_map.mp hlistening
        obtain ⟨config, hconfig, hsame⟩ := h.configured listener hlistener
        have hnot := List.find?_eq_none.mp hnone config hconfig
        rw [hsame, hfd] at hnot
        simp at hnot
      · refine hslot.visitRead_visited h hin (fun hreceived => ?_) hnext
        unfold handedAt
        rw [hpolled]
        simp only
        rw [if_neg htrouble, if_pos hin, hnone]
        simp only [hslot.found, hslot.record]
        rw [if_neg hreceived]
  rename_i hin
  split at hnext
  · rename_i hout
    rcases h.slot_cases hpolled with
      ⟨hlistening, -⟩ | ⟨clientIndex, client, hslot⟩
    · have hquiet := (h.listening polled (List.mem_of_getElem? hpolled)
        hlistening).2
      rw [hout] at hquiet
      cases hquiet
    · refine hslot.visitWrite_visited h ?_ hnext
      rcases hevents : polled.revents with ⟨trouble, pollIn, pollOut⟩
      rw [hevents] at htrouble hin hout
      simp_all
  · obtain rfl := Except.ok.inj hnext
    exact .idle (by simp [handedAt, hpolled, htrouble, hin])

omit [Os W] in
theorem Aligned.atSlot (h : Aligned server) (index : Nat) :
    Aligned ({ server with cursor := index } : Server W) :=
  ⟨h.fds, h.clientFds, h.nodup, h.listening, h.configured, h.keepAlive⟩

/-- A poll, the visit of the next slot, or nothing. -/
inductive Stepped (server : Server W) : Event → Server W → Prop
  | still {event : Event} : server.handed event = none →
      Stepped server event server
  | polled {reported : Nat → Revents} :
      Stepped server (.poll reported) (server.poll reported)
  | visited {index : Nat} {answers : Answers} {next : Server W} :
      server.cursor = index + 1 →
      Visited { server with cursor := index } index answers next →
      Stepped server (.visit answers) next

theorem step_stepped (h : Aligned server) {event : Event} {next : Server W}
    (hnext : server.step event = .ok next) : Stepped server event next := by
  cases event with
  | poll reported =>
      rw [step] at hnext
      split at hnext
      · obtain rfl := Except.ok.inj hnext
        exact .polled
      · obtain rfl := Except.ok.inj hnext
        exact .still rfl
  | visit answers =>
      rw [step] at hnext
      split at hnext
      · rename_i hcursor
        obtain rfl := Except.ok.inj hnext
        exact .still (by simp [handed, hcursor])
      · rename_i index hcursor
        exact .visited hcursor (visit_visited (h.atSlot index) hnext)

/-! A visit changes nothing below its slot. -/

omit [Os W] in
theorem takeRead_pollfds (server : Server W) (index clientIndex : Nat)
    (process : Process W) (client : Client) :
    (server.takeRead index clientIndex process client).pollfds =
      if client.allRecv then
        server.pollfds.modify index fun polled =>
          { polled with events := .pollOut }
      else server.pollfds := by
  unfold takeRead
  simp only
  split <;> rfl

omit [Os W] in
theorem takeRead_eq (server : Server W) (index clientIndex : Nat)
    (process : Process W) (client : Client) :
    server.takeRead index clientIndex process client =
      { server with
        process := process
        clients := server.clients.set clientIndex client
        pollfds :=
          (server.takeRead index clientIndex process client).pollfds } := by
  rw [takeRead_pollfds]
  unfold takeRead
  simp only
  split <;> rfl

omit [Os W] in
theorem addClient_pollfds (server : Server W) (fd : Int)
    (block : ServerBlock) :
    (server.addClient fd block).pollfds =
      server.pollfds ++ [{ fd := fd }] :=
  rfl

theorem Visited.cursor {index : Nat} {answers : Answers} {next : Server W}
    (h : Visited server index answers next) :
    next.cursor = server.cursor := by
  cases h with
  | received => rw [takeRead_eq]
  | _ => rfl

theorem Visited.take_pollfds {index : Nat} {answers : Answers}
    {next : Server W} (h : Visited server index answers next) :
    next.pollfds.take index = server.pollfds.take index := by
  have herase : ∀ l : List PollFd,
      (l.eraseIdx index).take index = l.take index := by
    intro l
    rw [List.take_eraseIdx_eq_take_of_le _ _ _ (Nat.le_refl index)]
  cases h with
  | idle => rfl
  | accepted hpolled _ _ _ _ _ _ =>
      have hlt := (List.getElem?_eq_some_iff.mp hpolled).1
      rw [addClient_pollfds, List.take_append_of_le_length (by omega)]
  | gaveUp => rfl
  | received =>
      rw [takeRead_pollfds]
      split
      · rw [List.take_modify, List.modify_eq_self (List.length_take_le ..)]
      · rfl
  | ended => exact herase _
  | wrote => rfl
  | left => exact herase _
  | leftBoth => exact (herase _).trans (herase _)

end Visits

/-! A connection is read from until its request has been received, and written
to from then on. -/

/-- What the slots are polled for, and what the ones still to be visited have
been reported to be ready for. -/
structure Polling (server : Server W) : Prop where
  events : ∀ polled ∈ server.pollfds, ∀ client ∈ server.clients,
    client.clientId = polled.fd →
      (polled.events = .pollOut ↔ client.allRecv = true)
  ready : ∀ polled ∈ server.pollfds.take server.cursor,
    (polled.revents.pollIn = true → polled.events = .pollIn) ∧
      (polled.revents.pollOut = true → polled.events = .pollOut)

theorem polling_initializeServers (world : W) (blocks : List ServerBlock)
    (created : List ServerConfig) :
    Polling (initializeServers world blocks created) := by
  constructor
  · intro polled _ client hclient
    cases hclient
  · intro polled hpolled
    cases hpolled

theorem Polling.poll (h : Polling server) (reported : Nat → Revents) :
    Polling (server.poll reported) := by
  have hpoll : ∀ polled ∈ (server.poll reported).pollfds,
      ∃ old ∈ server.pollfds, ∃ i, polled = { old with
        revents :=
          { trouble := (reported i).trouble
            pollIn := (reported i).pollIn && old.events = .pollIn
            pollOut := (reported i).pollOut && old.events = .pollOut } } := by
    intro polled hpolled
    obtain ⟨i, hi⟩ := List.mem_iff_getElem?.mp hpolled
    simp only [Server.poll, List.getElem?_mapIdx, Option.map_eq_some_iff]
      at hi
    obtain ⟨old, hold, rfl⟩ := hi
    exact ⟨old, List.mem_of_getElem? hold, i, rfl⟩
  constructor
  · intro polled hpolled client hclient hfd
    obtain ⟨old, hold, i, rfl⟩ := hpoll polled hpolled
    exact h.events old hold client hclient hfd
  · intro polled hpolled
    obtain ⟨old, hold, i, rfl⟩ := hpoll polled (List.mem_of_mem_take hpolled)
    simp

theorem Polling.of_subset {next : Server W} (h : Polling server)
    (hpollfds : next.pollfds ⊆ server.pollfds)
    (hclients : next.clients ⊆ server.clients)
    (hcursor : next.cursor = server.cursor)
    (htake : next.pollfds.take server.cursor =
      server.pollfds.take server.cursor) : Polling next := by
  constructor
  · intro polled hpolled client hclient
    exact h.events polled (hpollfds hpolled) client (hclients hclient)
  · rw [hcursor, htake]
    exact h.ready

theorem Polling.open_of_pollIn (h : Polling server) {index clientIndex : Nat}
    {polled : PollFd} {client : Client}
    (hslot : Slot server index clientIndex polled client)
    (hready : polled.revents.pollIn = true → polled.events = .pollIn)
    (hin : polled.revents.pollIn = true) : client.allRecv = false := by
  have hevents := h.events polled (List.mem_of_getElem? hslot.entry) client
    (List.mem_of_getElem? hslot.record) hslot.sameFd
  rw [hready hin] at hevents
  simpa using hevents.not.mp (by simp)

theorem Polling.received_of_pollOut (h : Polling server)
    {index clientIndex : Nat} {polled : PollFd} {client : Client}
    (hslot : Slot server index clientIndex polled client)
    (hready : polled.revents.pollOut = true → polled.events = .pollOut)
    (hout : polled.revents.pollOut = true) : client.allRecv = true :=
  (h.events polled (List.mem_of_getElem? hslot.entry) client
    (List.mem_of_getElem? hslot.record) hslot.sameFd).mp (hready hout)

theorem Polling.ready_at (h : Polling server) {index : Nat}
    (hcursor : server.cursor = index + 1) {polled : PollFd}
    (hpolled : server.pollfds[index]? = some polled) :
    (polled.revents.pollIn = true → polled.events = .pollIn) ∧
      (polled.revents.pollOut = true → polled.events = .pollOut) := by
  refine h.ready polled (List.mem_of_getElem? (i := index) ?_)
  rw [hcursor, List.getElem?_take_of_lt (by omega)]
  exact hpolled

theorem Polling.atSlot (h : Polling server) {index : Nat}
    (hcursor : server.cursor = index + 1) :
    Polling ({ server with cursor := index } : Server W) := by
  refine ⟨h.events, fun polled hpolled => h.ready polled ?_⟩
  rw [hcursor]
  exact (List.take_prefix_take_left (Nat.le_succ index)).subset hpolled

theorem Polling.takeRead (h : Polling server)
    {index clientIndex : Nat} {polled : PollFd} {client client' : Client}
    {process : Process W}
    (hslot : Slot server index clientIndex polled client)
    (hnext : Aligned (server.takeRead index clientIndex process client'))
    (hopen : client.allRecv = false) (hcursor : server.cursor = index)
    (htake : (server.takeRead index clientIndex process
      client').pollfds.take index = server.pollfds.take index) :
    Polling (server.takeRead index clientIndex process client') := by
  have hclients : (server.takeRead index clientIndex process
      client').clients = server.clients.set clientIndex client' := by
    rw [takeRead_eq]
  have hpollfds := server.takeRead_pollfds index clientIndex process client'
  have hlength : (server.takeRead index clientIndex process
      client').pollfdsServers = server.pollfdsServers := by
    rw [takeRead_eq]
  constructor
  · intro polled' hpolled' other hother hfd
    obtain ⟨j, hj⟩ := List.mem_iff_getElem?.mp hpolled'
    obtain ⟨k, hk⟩ := List.mem_iff_getElem?.mp hother
    have hoffset := (hnext.slot_of_fd hj hk hfd).offset
    rw [hlength] at hoffset
    rw [hclients] at hk
    rw [hpollfds] at hj
    by_cases hsame : k = clientIndex
    · -- the client that has been read from
      subst hsame
      have hindex : j = index := hoffset.trans hslot.offset.symm
      subst hindex
      have hlt := (List.getElem?_eq_some_iff.mp hslot.record).1
      rw [List.getElem?_set_self hlt] at hk
      obtain rfl := Option.some.inj hk
      cases hall : client'.allRecv with
      | true =>
          rw [hall] at hj
          simp only [if_true, List.getElem?_modify_eq, hslot.entry,
            Option.map_eq_map, Option.map_some] at hj
          obtain rfl := Option.some.inj hj
          simp
      | false =>
          rw [hall] at hj
          simp only [Bool.false_eq_true, if_false, hslot.entry] at hj
          obtain rfl := Option.some.inj hj
          have hevents := h.events polled (List.mem_of_getElem? hslot.entry)
            client (List.mem_of_getElem? hslot.record) hslot.sameFd
          rw [hevents, hopen]
    · -- any other client
      have hindex : j ≠ index := by
        rw [hoffset, hslot.offset]
        omega
      rw [List.getElem?_set_ne (Ne.symm hsame)] at hk
      have hold : server.pollfds[j]? = some polled' := by
        split at hj
        · rwa [List.getElem?_modify_ne _ _ (Ne.symm hindex)] at hj
        · exact hj
      exact h.events polled' (List.mem_of_getElem? hold) other
        (List.mem_of_getElem? hk) hfd
  · have hcursor' : (server.takeRead index clientIndex process
        client').cursor = index := by
      rw [takeRead_eq]
      exact hcursor
    rw [hcursor', htake, ← hcursor]
    exact h.ready

theorem Polling.addClient (h : Polling server) {fd : Int}
    (block : ServerBlock) (haligned : Aligned server)
    (hfresh : fd ∉ server.fds) (hcursor : server.cursor ≤ server.pollfds.length) :
    Polling (server.addClient fd block) := by
  constructor
  · intro polled hpolled client hclient hfd
    simp only [Server.addClient, List.mem_append, List.mem_singleton]
      at hpolled hclient
    have hids : ∀ old ∈ server.clients, old.clientId ∈ server.fds := by
      intro old hold
      rw [Server.fds, haligned.fds]
      exact List.mem_append_right _ (List.mem_map_of_mem hold)
    rcases hpolled with hold | rfl
    · rcases hclient with hclient | rfl
      · exact h.events polled hold client hclient hfd
      · have hsame : fd = polled.fd := hfd
        rw [hsame] at hfresh
        exact absurd (List.mem_map_of_mem hold) hfresh
    · rcases hclient with hclient | rfl
      · have hsame : client.clientId = fd := hfd
        rw [← hsame] at hfresh
        exact absurd (hids client hclient) hfresh
      · simp [Client.connect]
  · intro polled hpolled
    have htake : (server.addClient fd block).pollfds.take
        server.cursor = server.pollfds.take server.cursor := by
      rw [addClient_pollfds, List.take_append_of_le_length hcursor]
    exact h.ready polled (htake ▸ hpolled)

theorem Polling.setClient (h : Polling server) {clientIndex : Nat}
    {client client' : Client}
    (hclient : server.clients[clientIndex]? = some client)
    (hid : client'.clientId = client.clientId)
    (hall : client'.allRecv = client.allRecv) :
    Polling (server.setClient clientIndex client') := by
  refine ⟨fun polled hpolled other hother hfd => ?_, h.ready⟩
  rcases List.mem_or_eq_of_mem_set hother with hold | rfl
  · exact h.events polled hpolled other hold hfd
  · rw [hall]
    exact h.events polled hpolled client (List.mem_of_getElem? hclient)
      (hid.symm.trans hfd)

section Steps

variable [Os W]

theorem Visited.polling {index : Nat} {answers : Answers} {next : Server W}
    (h : Visited server index answers next) (haligned : Aligned server)
    (hnext : Aligned next) (hpolling : Polling server)
    (hcursor : server.cursor = index)
    (hready : ∀ polled, server.pollfds[index]? = some polled →
      polled.revents.pollIn = true → polled.events = .pollIn)
    (hfresh : ∀ fd, answers.accepted = some fd → fd ∉ server.fds) :
    Polling next := by
  have htake := h.take_pollfds
  have herased : ∀ (clientIndex : Nat) (fd : Int) (before : Server W),
      before.cursor = index → Polling before →
        Polling (before.eraseClient index clientIndex fd) := by
    intro clientIndex fd before hat hbefore
    refine hbefore.of_subset (List.eraseIdx_subset ..)
      (List.eraseIdx_subset ..) rfl ?_
    change (before.pollfds.eraseIdx index).take before.cursor = _
    rw [hat, List.take_eraseIdx_eq_take_of_le _ _ _ (Nat.le_refl index)]
  have hlogged : ∀ fd bytes, Polling (server.logSent fd bytes) :=
    fun fd bytes => ⟨hpolling.events, hpolling.ready⟩
  cases h with
  | idle => exact hpolling
  | accepted hpolled _ _ _ haccepted _ _ =>
      have hlt := (List.getElem?_eq_some_iff.mp hpolled).1
      exact hpolling.addClient _ haligned (hfresh _ haccepted) (by omega)
  | gaveUp => exact ⟨hpolling.events, hpolling.ready⟩
  | received hslot hin _ _ _ =>
      exact hpolling.takeRead hslot hnext
        (hpolling.open_of_pollIn hslot (hready _ hslot.entry) hin) hcursor
        htake
  | ended => exact herased _ _ _ hcursor hpolling
  | wrote hslot _ hwritten _ =>
      obtain ⟨fileStream, hclient⟩ := clientWrite_some
        (congrArg Prod.snd hwritten)
      exact (hlogged _ _).setClient hslot.record (by rw [hclient])
        (by rw [hclient])
  | left => exact herased _ _ _ hcursor (hlogged _ _)
  | leftBoth =>
      exact herased _ _ _ hcursor (herased _ _ _ hcursor (hlogged _ _))

theorem step_polling {event : Event} {next : Server W}
    (haligned : Aligned server) (hpolling : Polling server)
    (hpermitted : Permitted server event)
    (hnext : server.step event = .ok next) : Polling next := by
  have hkept := step_aligned haligned hpermitted hnext
  cases step_stepped haligned hnext with
  | still => exact hpolling
  | polled => exact hpolling.poll _
  | visited hcursor hvisited =>
      exact hvisited.polling (haligned.atSlot _) hkept
        (hpolling.atSlot hcursor) rfl
        (fun polled hpolled => (hpolling.ready_at hcursor hpolled).1)
        (fun fd haccepted => (hpermitted fd haccepted).2)

structure Kept (server : Server W) : Prop where
  aligned : Aligned server
  polling : Polling server

omit [Os W] in
theorem kept_initializeServers (world : W) (blocks : List ServerBlock)
    {created : List ServerConfig}
    (hnodup : ((created.filter (0 ≤ ·.fd)).map ServerConfig.fd).Nodup) :
    Kept (initializeServers world blocks created) :=
  ⟨aligned_initializeServers world blocks hnodup,
    polling_initializeServers world blocks created⟩

theorem Kept.step {event : Event} {next : Server W} (h : Kept server)
    (hpermitted : Permitted server event)
    (hnext : server.step event = .ok next) : Kept next :=
  ⟨step_aligned h.aligned hpermitted hnext,
    step_polling h.aligned h.polling hpermitted hnext⟩

theorem Reached.kept (h : Reached server) : Kept server := by
  obtain ⟨world, blocks, created, hnodup, hreachable⟩ := h
  exact hreachable.invariant
    (fun _ _ _ hkept hpermitted hnext => hkept.step hpermitted hnext)
    (kept_initializeServers world blocks hnodup)

end Steps

end Server

end Webserv
