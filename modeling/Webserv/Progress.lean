import Webserv.Wire
import Webserv.Machine.Progress
import Webserv.Machine.Purge

namespace Webserv

open Cxx

/-! No connection is starved: in every round in which a client can be written
to, the event loop passes on the next piece of its answer. -/

theorem length_offers_le (client : Client) :
    client.offers.length ≤
      (client.response.fileStream.content.getD []).length / chunkSize + 1 := by
  have hoffers : client.offers.length =
      (remaining client.response.fileStream).length := by
    unfold Client.offers
    split
    · rename_i hremaining
      rw [hremaining]
      rfl
    · rename_i hremaining
      rw [hremaining]
      simp
  rw [hoffers]
  unfold remaining
  split
  · simp
  · rename_i content hcontent
    rw [hcontent]
    split
    · simp
    · have hrest : (content.drop
          client.response.fileStream.position).length ≤ content.length := by
        rw [List.length_drop]
        omega
      have hcount := @Nat.div_le_div_right _ _ chunkSize hrest
      simpa [pieces] using hcount

theorem clientWrite_unfinished {client client' : Client} {answers : Answers}
    (hfile : client.response.fileStream.directory = none)
    (hwritten : (clientWrite client answers).2 = some client')
    (hmore : client'.finished = false) :
    client'.response.fileStream.directory = none ∧
      client'.offers = client.offers.tail := by
  obtain ⟨part, later, hremaining⟩ :=
    List.exists_cons_of_ne_nil (remaining_ne_nil client.response.fileStream)
  unfold clientWrite at hwritten
  split at hwritten
  · cases hwritten
  rename_i client₁ head hhead
  obtain rfl := writeHead_eq hhead
  split at hwritten
  · cases hwritten
  rename_i client₂ chunk hchunk
  obtain rfl := Option.some.inj hwritten
  have hstream : remaining client.setStringReqSend.response.fileStream =
      part :: later := hremaining
  rcases writeChunk_passes client.setStringReqSend answers.sentChunk hstream
    with hfailed | ⟨hpositive, -⟩
  · rw [hfailed] at hchunk
    cases hchunk
  have hplain : client.setStringReqSend.response.fileStream.directory =
      none := hfile
  obtain ⟨fileStream, hread, hafter, hlast, hrest⟩ :=
    writeChunk_remaining hplain hstream hpositive
  obtain ⟨rfl, -⟩ := Prod.mk.inj (Option.some.inj (hchunk.symm.trans hread))
  have hlater : later ≠ [] := by
    rintro rfl
    have hdone := hlast rfl
    change (!fileStream.isOpen || fileStream.eof) = false at hmore
    rw [hmore] at hdone
    cases hdone
  obtain ⟨next, rest, rfl⟩ := List.exists_cons_of_ne_nil hlater
  have hremaining' : remaining (client.setStringReqSend.setFileStream
      fileStream).response.fileStream = next :: rest := (hrest hlater).2
  refine ⟨hafter, ?_⟩
  unfold Client.offers
  rw [hremaining, hremaining']
  rfl

namespace Server

variable {W : Type} [Os W] {server next final : Server W}

omit [Os W] in
theorem clientId_of_record {fd : Int} {client : Client}
    (h : server.record fd = some client) : client.clientId = fd := by
  simpa using List.find?_some h

omit [Os W] in
theorem nextSlot_of_turn {event : Event} {client : Client}
    {answers : Answers} (h : server.turn event = some (client, answers)) :
    ∃ polled ∈ server.nextSlot, polled.fd = client.clientId := by
  unfold turn at h
  split at h
  · cases h
  split at h
  · cases h
  rename_i index hcursor
  have hslot : server.nextSlot = server.pollfds[index]? := by
    simp only [nextSlot, hcursor]
  rw [hslot]
  obtain ⟨polled, hpolled, hturn⟩ := Option.bind_eq_some_iff.mp h
  split at hturn
  · obtain ⟨found, hfound, hsame⟩ := Option.map_eq_some_iff.mp hturn
    obtain ⟨rfl, -⟩ := Prod.mk.inj hsame
    exact ⟨polled, hpolled, (clientId_of_record hfound).symm⟩
  · cases hturn

theorem Slot.visit_offers (h : Aligned server) {index clientIndex : Nat}
    {polled : PollFd} {client : Client}
    (hslot : Slot server index clientIndex polled client)
    (hfile : client.response.fileStream.directory = none)
    (hrevents : polled.revents = { pollOut := true }) {answers : Answers}
    (hnext : server.visit index answers = .ok next) :
    next.record polled.fd = none ∨
      ∃ client', next.record polled.fd = some client' ∧
        client'.allRecv = client.allRecv ∧
        client'.response.fileStream.directory = none ∧
        client'.offers = client.offers.tail := by
  have hlt := (List.getElem?_eq_some_iff.mp hslot.record).1
  rw [visit_pollOut hslot.entry hrevents, hslot.visitWrite_eq,
    hslot.handleClientWrite_eq h] at hnext
  have hlogged := h.logSent polled.fd (clientWrite client answers).1
  cases hwritten : (clientWrite client answers).2 with
  | none =>
      rw [hwritten] at hnext
      have hlast := hslot.logSent polled.fd (clientWrite client answers).1
      have herased := hlogged.eraseClient hlast
      have hgone : ((server.logSent polled.fd
          (clientWrite client answers).1).eraseClient index clientIndex
            polled.fd).record polled.fd = none := by
        rw [record_eraseClient hlogged hlast, if_pos rfl]
      left
      obtain ⟨other, neighbour, hother, ⟨-, rfl⟩ | ⟨-, rfl⟩⟩ :=
        herased.finishWrite_ok hslot.offset hnext
      · exact hgone
      · rw [record_eraseClient herased hother, hgone, ite_self]
  | some client' =>
      rw [hwritten] at hnext
      obtain ⟨fileStream, hclient'⟩ := clientWrite_some hwritten
      have hid : client'.clientId = client.clientId := by rw [hclient']
      have halive : client'.keepAlive = false := by
        rw [hclient']
        exact h.keepAlive client (List.mem_of_getElem? hslot.record)
      have hset := hlogged.setClient hslot.record hid halive
      have hrecord : ((server.logSent polled.fd
          (clientWrite client answers).1).setClient clientIndex
            client').clients[clientIndex]? = some client' := by
        simp [Server.setClient, Server.logSent, hlt]
      obtain ⟨other, found, hother, hcases⟩ :=
        hset.finishWrite_ok hslot.offset hnext
      obtain rfl := Option.some.inj (hrecord.symm.trans hother.record)
      have hfd : other.fd = polled.fd := by
        rw [← hother.sameFd, hid, hslot.sameFd]
      rcases hcases with ⟨hmore, rfl⟩ | ⟨-, rfl⟩
      · right
        refine ⟨client', ?_, by rw [hclient'],
          clientWrite_unfinished hfile hwritten hmore⟩
        rw [← hfd]
        exact record_of_slot hset hother
      · left
        rw [record_eraseClient hset hother, if_pos hfd.symm]

/-- The condition on one event: no file has changed that is being sent, and the
connection on a descriptor is not closed. -/
def Stays (fd : Int) : Server W → Event → Prop :=
  Machine.Keeps step Steady fun next => (next.record fd).isSome = true

instance (fd : Int) (server : Server W) (event : Event) :
    Decidable (Stays fd server event) :=
  inferInstanceAs (Decidable (Machine.Keeps _ _ _ _ _))

theorem step_aside {fd : Int} {client : Client} {event : Event}
    (hkept : Kept server) (hrecord : server.record fd = some client)
    (hall : client.allRecv = true)
    (hslot : ∀ polled ∈ server.nextSlot, polled.fd ≠ fd)
    (hstays : Stays fd server event) (hnext : server.step event = .ok next) :
    next.record fd = some client := by
  have hdealt := step_dealt hkept hstays.1.1 hnext fd
  have hsome : (next.record fd).isSome = true := hstays.2 next hnext
  rw [hrecord] at hdealt
  generalize next.record fd = after at hdealt hsome
  generalize next.sentTo fd = sent' at hdealt
  generalize server.sentTo fd = sent at hdealt
  cases hdealt with
  | same _ => rfl
  | received _ hopen =>
      rw [hall] at hopen
      cases hopen
  | wrote hturn =>
      obtain ⟨polled, hpolled, hfd⟩ := nextSlot_of_turn hturn
      exact absurd (hfd.trans (clientId_of_record hrecord))
        (hslot polled hpolled)
  | closed => cases hsome
  | left => cases hsome

omit [Os W] in
theorem nextSlot_mem {polled : PollFd} (h : polled ∈ server.nextSlot) :
    polled ∈ server.pollfds.take server.cursor := by
  unfold nextSlot at h
  split at h
  · cases h
  · rename_i index hcursor
    rw [hcursor]
    refine List.mem_of_getElem? (i := index) ?_
    rw [List.getElem?_take_of_lt (by omega)]
    exact h

theorem visits_aside {fd : Int} {client : Client} {answers : List Answers}
    (hkept : Kept server) (hrecord : server.record fd = some client)
    (hall : client.allRecv = true) (hcursor : server.cursor = answers.length)
    (hothers : ∀ polled ∈ server.pollfds.take server.cursor, polled.fd ≠ fd)
    (hmeets : Machine.Meets step (Stays fd) server
      (answers.map Event.visit))
    (hrun : Machine.run step server (answers.map Event.visit) = .ok final) :
    final.record fd = some client := by
  induction answers generalizing server with
  | nil =>
      obtain rfl := Except.ok.inj hrun
      exact hrecord
  | cons answer rest ih =>
      obtain ⟨next, hnext, hrest⟩ := Machine.run_cons_ok hrun
      obtain ⟨hmoved, htake⟩ := visit_slots hkept.aligned hcursor hnext
      have hsame : next.record fd = some client :=
        step_aside hkept hrecord hall
          (fun polled hpolled => hothers polled (nextSlot_mem hpolled))
          hmeets.1 hnext
      refine ih (hkept.step hmeets.1.1.1 hnext) hsame hmoved ?_
        (hmeets.2 next hnext) hrest
      rw [hmoved, htake]
      intro polled hpolled
      refine hothers polled ?_
      rw [hcursor]
      exact (List.take_prefix_take_left (Nat.le_succ _)).subset hpolled

theorem visits_offers {fd : Int} {client : Client} {polled : PollFd}
    {answers : List Answers} (hkept : Kept server)
    (hrecord : server.record fd = some client)
    (hfile : client.response.fileStream.directory = none)
    (hall : client.allRecv = true) (hcursor : server.cursor = answers.length)
    (hbelow : server.cursor ≤ server.pollfds.length)
    (hpolled : polled ∈ server.pollfds.take server.cursor)
    (hfd : polled.fd = fd) (hrevents : polled.revents = { pollOut := true })
    (hmeets : Machine.Meets step (Stays fd) server
      (answers.map Event.visit))
    (hrun : Machine.run step server (answers.map Event.visit) = .ok final) :
    ∃ client', final.record fd = some client' ∧
      client'.response.fileStream.directory = none ∧
      client'.allRecv = true ∧ client'.offers = client.offers.tail := by
  induction answers generalizing server with
  | nil =>
      rw [hcursor] at hpolled
      cases hpolled
  | cons answer rest ih =>
      obtain ⟨next, hnext, hrest⟩ := Machine.run_cons_ok hrun
      obtain ⟨hmoved, htake⟩ := visit_slots hkept.aligned hcursor hnext
      have hnodup := hkept.aligned.nodup
      rw [List.length_cons] at hcursor
      have hindex : rest.length < server.pollfds.length := by omega
      have hslot : server.nextSlot = some server.pollfds[rest.length] := by
        unfold nextSlot
        rw [hcursor]
        exact List.getElem?_eq_getElem hindex
      rw [hcursor, List.take_succ_eq_append_getElem hindex,
        List.mem_append, List.mem_singleton] at hpolled
      have hapart : ∀ other ∈ server.pollfds.take rest.length,
          other.fd ≠ server.pollfds[rest.length].fd := by
        have hdisjoint : ((server.pollfds.take (rest.length + 1)).map
            PollFd.fd).Nodup :=
          hnodup.sublist ((List.take_sublist ..).map _)
        rw [List.take_succ_eq_append_getElem hindex, List.map_append,
          List.nodup_append] at hdisjoint
        intro other hother
        exact hdisjoint.2.2 _ (List.mem_map_of_mem hother) _ (by simp)
      rcases hpolled with hlater | rfl
      · -- the slot is still to come
        have hsame : next.record fd = some client := by
          refine step_aside hkept hrecord hall (fun other hother => ?_)
            hmeets.1 hnext
          rw [hslot] at hother
          obtain rfl := Option.some.inj hother
          rw [← hfd]
          exact (hapart polled hlater).symm
        have hlengths := congrArg List.length htake
        simp only [List.length_take] at hlengths
        refine ih (hkept.step hmeets.1.1.1 hnext) hsame hmoved (by omega) ?_
          (hmeets.2 next hnext) hrest
        rw [hmoved, htake]
        exact hlater
      · -- it is this one, and the others come after it
        subst hfd
        have haligned := hkept.aligned.atSlot rest.length
        obtain ⟨clientIndex, hclient⟩ :=
          List.mem_iff_getElem?.mp (List.mem_of_find?_eq_some hrecord)
        have hvisited := haligned.slot_of_fd
          (List.getElem?_eq_getElem hindex) hclient
          (clientId_of_record hrecord)
        have hvisit : visit { server with cursor := rest.length } rest.length
            answer = .ok next := by
          rw [step, hcursor] at hnext
          exact hnext
        rcases hvisited.visit_offers haligned hfile hrevents hvisit with
          hgone | ⟨client', hclient', hall', hplain, hoffers⟩
        · have hsome : (next.record _).isSome = true :=
            hmeets.1.2 next hnext
          rw [hgone] at hsome
          cases hsome
        · refine ⟨client', visits_aside (hkept.step hmeets.1.1.1 hnext) hclient'
            (hall'.trans hall) hmoved ?_ (hmeets.2 next hnext) hrest,
            hplain, hall'.trans hall, hoffers⟩
          rw [hmoved, htake]
          exact hapart

/-! Rounds. -/

/-- What `poll` reports, and what the calls in the visits behind it return. -/
structure Round where
  reported : Nat → Revents
  answers : List Answers

def Round.events (round : Round) : List Event :=
  .poll round.reported :: round.answers.map .visit

def serve (server : Server W) (round : Round) : Except Fault (Server W) :=
  Machine.run step server round.events

/-- A round in which `poll` reports that the client on a descriptor can be
written to, and behind which it is still connected. -/
structure Writable (fd : Int) (server : Server W) (round : Round) : Prop where
  length : round.answers.length = server.pollfds.length
  stays : Machine.Meets step (Stays fd) server round.events
  ready : ∀ i polled, server.pollfds[i]? = some polled → polled.fd = fd →
    (round.reported i).trouble = false ∧ (round.reported i).pollOut = true

/-- A client that is being answered, with what it is still to be offered. -/
structure Answering (fd : Int) (offers : List Offer) (server : Server W) :
    Prop extends Kept server where
  start : server.cursor = 0
  record : ∃ client, server.record fd = some client ∧
    client.response.fileStream.directory = none ∧
    client.allRecv = true ∧ client.offers = offers

theorem Answering.serve {fd : Int} {offers : List Offer} {round : Round}
    (h : Answering fd offers server) (hwritable : Writable fd server round)
    (hnext : server.serve round = .ok next) :
    Answering fd offers.tail next := by
  obtain ⟨client, hrecord, hfile, hall, rfl⟩ := h.record
  obtain ⟨polledServer, hpoll, hrest⟩ := Machine.run_cons_ok hnext
  have hmeets := hwritable.stays.2 _ hpoll
  have hkept := h.toKept.step hwritable.stays.1.1.1 hpoll
  rw [step, if_pos h.start] at hpoll
  obtain rfl := Except.ok.inj hpoll
  obtain ⟨clientIndex, hclient⟩ :=
    List.mem_iff_getElem?.mp (List.mem_of_find?_eq_some hrecord)
  obtain ⟨old, hslot⟩ := h.aligned.slot_of_client hclient
  have hold : old.fd = fd :=
    hslot.sameFd.symm.trans (clientId_of_record hrecord)
  have hevents : old.events = .pollOut :=
    (h.polling.events old (List.mem_of_getElem? hslot.entry) client
      (List.mem_of_getElem? hslot.record) hslot.sameFd).mpr hall
  obtain ⟨htrouble, hout⟩ := hwritable.ready _ old hslot.entry hold
  have hentry : ({ old with revents := { pollOut := true } } : PollFd) ∈
      (server.poll round.reported).pollfds := by
    refine List.mem_of_getElem?
      (i := server.pollfdsServers.length + clientIndex) ?_
    simp [Server.poll, hslot.entry, hevents, htrouble, hout]
  have hlength : (server.poll round.reported).pollfds.length =
      server.pollfds.length := by
    simp [Server.poll]
  have hcursor : (server.poll round.reported).cursor =
      server.pollfds.length := rfl
  have hvisits := hcursor.trans hwritable.length.symm
  refine ⟨?_, ?_, ?_⟩
  · exact Machine.run_invariant
      (fun _ _ _ hstate hstays hstep => hstate.step hstays.1.1 hstep) hkept
      hmeets hrest
  · exact (visits_serve hkept hvisits (by omega)
      (hmeets.mono fun _ _ hstays => hstays.1.1) hrest).2
  · rw [← List.take_length (l := (server.poll round.reported).pollfds),
      hlength, ← hcursor] at hentry
    exact visits_offers hkept hrecord hfile hall hvisits (by omega) hentry hold rfl
      hmeets hrest

/-- Whatever the other connections do, as long as no file is changed that is
being sent: every round in which a client can be written to passes on the next
of what it is to be offered, so that there are no more of these rounds than
pieces of its file, where this is no directory. -/
theorem rounds_offer {rounds : List Round} {fd : Int} {client : Client}
    (hreached : Reached server) (hstart : server.cursor = 0)
    (hrecord : server.record fd = some client) (hall : client.allRecv = true)
    (hfile : client.response.fileStream.directory = none)
    (hmeets : Machine.Meets serve (Writable fd) server rounds)
    (hrun : Machine.run serve server rounds = .ok final) :
    rounds.length ≤
        (client.response.fileStream.content.getD []).length / chunkSize ∧
      ∃ client', final.record fd = some client' ∧
        client'.offers = client.offers.drop rounds.length := by
  have hanswering : Answering fd (client.offers.drop 0) server :=
    ⟨hreached.kept, hstart, client, hrecord, hfile, hall, rfl⟩
  have hstep (count : Nat) (state : Server W) (round : Round)
      (next : Server W)
      (hstate : Answering fd (client.offers.drop count) state)
      (hwritable : Writable fd state round)
      (hnext : state.serve round = .ok next) :
      Answering fd (client.offers.drop (count + 1)) next := by
    rw [← List.tail_drop]
    exact hstate.serve hwritable hnext
  have hcounted := Machine.run_counts hstep hanswering hmeets hrun
  rw [Nat.zero_add] at hcounted
  obtain ⟨client', hrecord', -, -, hoffers⟩ := hcounted.record
  refine ⟨?_, client', hrecord', hoffers⟩
  -- a client that is connected always has one more piece to be offered
  obtain ⟨offer, rest, hmore, -⟩ := clientWrite_passes client' {}
  have hlength := congrArg List.length (hmore.symm.trans hoffers)
  rw [List.length_cons, List.length_drop] at hlength
  have hbound := length_offers_le client
  omega

/-- A file of a whole piece, which two clients have asked for. -/
def pieceDisk : Disk where
  nodes := [
    (Lexical.resolve "./html".toList, .directory),
    (Lexical.resolve "./html/a".toList,
      .file (List.replicate chunkSize 'x'))]

def bothAsk : List Event := twoClients.take 9

/-- One of them takes all that it is offered, the other one a part of it. -/
def bothRead : Round where
  reported := fun _ => { pollOut := true }
  answers := [{ sentHead := 4, sentChunk := 4 },
    { sentHead := 98, sentChunk := 4096 }, {}]

theorem rounds_offer_two :
    ∃ server client final client',
      Machine.replay step Permitted (initializeServers pieceDisk [{}]
        [{ serverBlockIndex := 0, fd := 3 }]) bothAsk = some server ∧
      server.record 5 = some client ∧ server.serve bothRead = .ok final ∧
      final.record 5 = some client' ∧
      client'.offers = client.offers.drop 1 := by
  have hstate : (Machine.replay step Permitted (initializeServers pieceDisk
      [{}] [{ serverBlockIndex := 0, fd := 3 }]) bothAsk).map (fun server =>
        (server.cursor, server.pollfds.length,
          (server.record 5).map fun client =>
            (client.allRecv, client.response.fileStream.directory.isNone),
          (Machine.replay step (Stays 5) server bothRead.events).isSome)) =
      some (0, 3, some (true, true), true) := by decide +kernel
  obtain ⟨server, hserver, hfields⟩ := Option.map_eq_some_iff.mp hstate
  obtain ⟨hstart, hfields⟩ := Prod.mk.inj hfields
  obtain ⟨hlength, hfields⟩ := Prod.mk.inj hfields
  obtain ⟨hrecord, hround⟩ := Prod.mk.inj hfields
  obtain ⟨client, hrecord, hclient⟩ := Option.map_eq_some_iff.mp hrecord
  obtain ⟨hall, hfile⟩ := Prod.mk.inj hclient
  rw [Option.isNone_iff_eq_none] at hfile
  obtain ⟨final, hfinal⟩ := Option.isSome_iff_exists.mp hround
  obtain ⟨hrun, hmeets⟩ := Machine.run_of_replay hfinal
  have hserve : Machine.run serve server [bothRead] = .ok final := by
    rw [Machine.run, show server.serve bothRead = .ok final from hrun]
    rfl
  have hwritable : Machine.Meets serve (Writable 5) server [bothRead] :=
    ⟨⟨hlength.symm, hmeets, fun _ _ _ _ => ⟨rfl, rfl⟩⟩, fun _ _ => trivial⟩
  obtain ⟨-, client', hrecord', hoffers⟩ := rounds_offer
    ⟨_, _, _, by decide, Machine.reachable_of_replay .start hserver⟩ hstart
    hrecord hall hfile hwritable hserve
  exact ⟨server, client, final, client', hserver, hrecord, hrun, hrecord',
    hoffers⟩

end Server

end Webserv
