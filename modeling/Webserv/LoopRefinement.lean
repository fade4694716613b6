import Webserv.LoopSteps
import Webserv.SendIsolation
import Webserv.Delivery
import Webserv.DeleteSafety
import Webserv.Machine.Simulation

namespace Webserv

open Cxx

/-! The event loop as a run of requests: what it does to the process and to the
records of its clients is what `check_request` does to them, one buffer after
the other. -/

/-- A record as `check_request` has left it, and as it is once parts of its
answer have been sent. -/
structure SentFrom (record client : Client) : Prop where
  written : ∃ sent fileStream, client = { record with
    request := { record.request with isStringReqSend := sent }
    response := { record.response with fileStream := fileStream } }
  waiting : record.allRecv = false → client = record

theorem SentFrom.refl (client : Client) : SentFrom client client :=
  ⟨⟨_, _, rfl⟩, fun _ => rfl⟩

theorem SentFrom.allRecv {record client : Client} (h : SentFrom record client) :
    client.allRecv = record.allRecv := by
  obtain ⟨sent, fileStream, rfl⟩ := h.written
  rfl

theorem SentFrom.write {record client client' : Client} {answers : Answers}
    (h : SentFrom record client) (hall : client.allRecv = true)
    (hwritten : (clientWrite client answers).2 = some client') :
    SentFrom record client' := by
  obtain ⟨fileStream, hclient'⟩ := clientWrite_some hwritten
  obtain ⟨sent, before, rfl⟩ := h.written
  refine ⟨⟨true, fileStream, hclient'⟩, fun hopen => ?_⟩
  rw [h.allRecv] at hall
  rw [hopen] at hall
  cases hall

namespace Server

variable {W : Type}

/-- The session stands for the state of the event loop. -/
structure Follows (session : Session W) (server : Server W) : Prop where
  process : session.process = server.process
  present : ∀ client ∈ server.clients, ∃ record,
    session.clients client.clientId = some record ∧ SentFrom record client
  absent : ∀ fd, fd ∉ server.clients.map Client.clientId →
    session.clients fd = none

variable {session : Session W} {server : Server W}

theorem follows_initializeServers (world : W) (blocks : List ServerBlock)
    (created : List ServerConfig) :
    Follows (Session.initial world)
      (initializeServers world blocks created) := by
  refine ⟨rfl, ?_, fun _ _ => rfl⟩
  intro client hclient
  cases hclient

theorem Follows.accept (h : Follows session server) {fd : Int}
    (block : ServerBlock) (hfresh : fd ∉ server.clients.map Client.clientId) :
    Follows (session.setClient fd (some (Client.connect fd block)))
      (server.addClient fd block) := by
  refine ⟨h.process, ?_, ?_⟩
  · intro client hclient
    simp only [addClient, List.mem_append, List.mem_singleton] at hclient
    rcases hclient with hold | rfl
    · obtain ⟨record, hrecord, hsent⟩ := h.present client hold
      have hne : client.clientId ≠ fd := by
        rintro rfl
        exact hfresh (List.mem_map_of_mem hold)
      exact ⟨record, by simpa [Session.setClient, hne] using hrecord, hsent⟩
    · exact ⟨_, by simp [Session.setClient, Client.connect], .refl _⟩
  · intro other hother
    simp only [addClient, List.map_append, List.map_cons, List.map_nil,
      List.mem_append, List.mem_singleton, not_or] at hother
    have hne : other ≠ fd := hother.2
    simpa [Session.setClient, hne] using h.absent other hother.1

theorem Follows.erase (h : Follows session server) (haligned : Aligned server)
    {index clientIndex : Nat} {polled : PollFd} {client : Client}
    (hslot : Slot server index clientIndex polled client) :
    Follows (session.setClient polled.fd none)
      (server.eraseClient index clientIndex polled.fd) := by
  have hgone := hslot.not_mem_eraseIdx haligned
  refine ⟨h.process, ?_, ?_⟩
  · intro other hother
    obtain ⟨record, hrecord, hsent⟩ :=
      h.present other (List.mem_of_mem_eraseIdx hother)
    have hne : other.clientId ≠ polled.fd := by
      intro hsame
      rw [← hsame] at hgone
      exact hgone (List.mem_map_of_mem hother)
    exact ⟨record, by simpa [Session.setClient, hne] using hrecord, hsent⟩
  · intro other hother
    by_cases hne : other = polled.fd
    · simp [Session.setClient, hne]
    · have habsent : other ∉ server.clients.map Client.clientId := by
        intro hmem
        refine hother ?_
        obtain ⟨record, hrecord, rfl⟩ := List.mem_map.mp hmem
        obtain ⟨i, hi⟩ := List.mem_iff_getElem?.mp hrecord
        have hindex : i ≠ clientIndex := by
          rintro rfl
          rw [hslot.record] at hi
          obtain rfl := Option.some.inj hi
          exact hne hslot.sameFd
        exact List.mem_map_of_mem
          (List.mem_eraseIdx_iff_getElem?.mpr ⟨i, hindex, hi⟩)
      simpa [Session.setClient, hne] using h.absent other habsent

theorem Follows.set (h : Follows session server) (haligned : Aligned server)
    {clientIndex : Nat} {client client' : Client} {next : Session W}
    {after : Server W}
    (hclient : server.clients[clientIndex]? = some client)
    (hid : client'.clientId = client.clientId)
    (hafter : after.clients = server.clients.set clientIndex client')
    (hprocess : next.process = after.process)
    (hsame : ∀ fd, fd ≠ client.clientId →
      next.clients fd = session.clients fd)
    (hrecord : ∃ record, next.clients client.clientId = some record ∧
      SentFrom record client') : Follows next after := by
  have hids : after.clients.map Client.clientId =
      server.clients.map Client.clientId := by
    obtain ⟨hlt, rfl⟩ := List.getElem?_eq_some_iff.mp hclient
    have hinside : clientIndex <
        (server.clients.map Client.clientId).length := by simpa
    have hkey : client'.clientId =
        (server.clients.map Client.clientId)[clientIndex] := by
      rw [List.getElem_map, hid]
    rw [hafter, List.map_set, hkey, List.set_getElem_self]
  refine ⟨hprocess, ?_, ?_⟩
  · intro other hother
    rw [hafter] at hother
    obtain ⟨i, hi⟩ := List.mem_iff_getElem?.mp hother
    by_cases hindex : i = clientIndex
    · subst hindex
      have hlt := (List.getElem?_eq_some_iff.mp hclient).1
      rw [List.getElem?_set_self hlt] at hi
      obtain rfl := Option.some.inj hi
      rw [hid]
      exact hrecord
    · rw [List.getElem?_set_ne (Ne.symm hindex)] at hi
      have hne : other.clientId ≠ client.clientId := by
        intro hsameId
        have hother := findIdx_key haligned.clients_nodup hi
        have hfound := findIdx_key haligned.clients_nodup hclient
        rw [hsameId] at hother
        exact hindex (hother.symm.trans hfound)
      rw [hsame _ hne]
      exact h.present other (List.mem_of_getElem? hi)
  · intro fd hfd
    rw [hids] at hfd
    have hne : fd ≠ client.clientId := by
      rintro rfl
      exact hfd (List.mem_map_of_mem (List.mem_of_getElem? hclient))
    rw [hsame fd hne]
    exact h.absent fd hfd

section Requests

variable [Os W]

def OnBuffers (condition : Session W → Session.Event → Prop) : Prop :=
  ∀ session event, (∀ fd bytes, event ≠ .receive fd bytes) →
    condition session event

theorem Visited.follows {condition : Session W → Session.Event → Prop}
    (hcondition : OnBuffers condition) {index : Nat} {answers : Answers}
    {next : Server W} (h : Visited server index answers next)
    (hfollows : Follows session server) (haligned : Aligned server)
    (hopen : ∀ clientIndex polled client,
      Slot server index clientIndex polled client →
        (polled.revents.pollIn = true → client.allRecv = false) ∧
        (polled.revents.pollOut = true → client.allRecv = true))
    (hfresh : ∀ fd, answers.accepted = some fd →
      fd ∉ server.clients.map Client.clientId)
    (hhanded : ∀ fd bytes, server.handedAt index answers = some (fd, bytes) →
      condition session (.receive fd bytes)) :
    ∃ events session', Machine.run Session.step session events =
        .ok session' ∧
      Machine.Meets Session.step condition session events ∧
      Follows session' next := by
  have hclosed : ∀ session fd, condition session (.close fd) :=
    fun session fd => hcondition session _ (by simp)
  have hlogged : ∀ fd bytes, Follows session (server.logSent fd bytes) :=
    fun fd bytes => ⟨hfollows.process, hfollows.present, hfollows.absent⟩
  cases h with
  | idle _ => exact ⟨[], session, rfl, trivial, hfollows⟩
  | gaveUp _ _ =>
      exact ⟨[], session, rfl, trivial, hfollows.process, hfollows.present,
        hfollows.absent⟩
  | @accepted polled config block fd _ _ _ _ haccepted _ _ =>
      exact ⟨[.connect fd block], _, rfl,
        ⟨hcondition session _ (by simp), fun _ _ => trivial⟩,
        hfollows.accept block (hfresh fd haccepted)⟩
  | @received clientIndex polled client client' process hslot hin hsome hat
      hchecked =>
      have hwaiting := (hopen _ _ _ hslot).1 hin
      obtain ⟨record, hrecord, hsent⟩ :=
        hfollows.present client (List.mem_of_getElem? hslot.record)
      obtain rfl := hsent.waiting (hsent.allRecv.symm.trans hwaiting)
      have hreceive : receive session.process client answers.received =
          .ok (process, client') := by
        unfold receive
        rw [if_neg (by simp [hwaiting]), hfollows.process]
        exact hchecked
      rw [hslot.sameFd] at hrecord
      have hstep : Session.step session
          (.receive polled.fd answers.received) =
            .ok { process := process
                  clients := Function.update session.clients polled.fd
                    (some client') } := by
        rw [Session.step, hrecord]
        simp only [hreceive]
      refine ⟨[.receive polled.fd answers.received],
        { process := process
          clients := Function.update session.clients polled.fd
            (some client') }, ?_,
        ⟨hhanded _ _ hat, fun _ _ => trivial⟩,
        hfollows.set haligned hslot.record
          (checkRequest_kept hchecked).clientId ?_ ?_ ?_
          ⟨client', ?_, .refl _⟩⟩
      · rw [Machine.run, hstep]
        rfl
      · rw [takeRead_eq]
      · rw [takeRead_eq]
      · intro fd hfd
        rw [hslot.sameFd] at hfd
        exact Function.update_of_ne hfd _ _
      · rw [hslot.sameFd]
        exact Function.update_self ..
  | ended hslot _ =>
      exact ⟨[.close _], _, rfl, ⟨hclosed _ _, fun _ _ => trivial⟩,
        hfollows.erase haligned hslot⟩
  | @wrote clientIndex polled client client' bytes hslot hout hwritten _ =>
      have hall := (hopen _ _ _ hslot).2 (congrArg Revents.pollOut hout)
      have hwritten := congrArg Prod.snd hwritten
      obtain ⟨record, hrecord, hsent⟩ :=
        hfollows.present client (List.mem_of_getElem? hslot.record)
      obtain ⟨fileStream, hclient'⟩ := clientWrite_some hwritten
      exact ⟨[], session, rfl, trivial,
        hfollows.set haligned hslot.record (by rw [hclient']) rfl
          hfollows.process (fun _ _ => rfl)
          ⟨record, hrecord, hsent.write hall hwritten⟩⟩
  | @left clientIndex polled client bytes hslot _ _ _ =>
      exact ⟨[.close _], _, rfl, ⟨hclosed _ _, fun _ _ => trivial⟩,
        (hlogged polled.fd bytes).erase (haligned.logSent ..)
          (hslot.logSent ..)⟩
  | @leftBoth clientIndex polled other client neighbour bytes hslot _ _
      hother =>
      have hlog := haligned.logSent polled.fd bytes
      exact ⟨[.close _, .close _], _, rfl,
        ⟨hclosed _ _, fun _ _ => ⟨hclosed _ _, fun _ _ => trivial⟩⟩,
        ((hlogged polled.fd bytes).erase hlog (hslot.logSent ..)).erase
          (hlog.eraseClient (hslot.logSent ..)) hother⟩

/-- The condition on one event: a buffer that it hands on meets the one on
requests, whichever session stands for the state. -/
def Handing (condition : Session W → Session.Event → Prop)
    (server : Server W) (event : Event) : Prop :=
  Permitted server event ∧ ∀ session, Follows session server →
    ∀ fd bytes, server.handed event = some (fd, bytes) →
      condition session (.receive fd bytes)

theorem simulates {condition : Session W → Session.Event → Prop}
    (hcondition : OnBuffers condition) :
    Machine.Simulates Session.step condition step (Handing condition)
      (fun session server => Follows session server ∧ Kept server) := by
  rintro session server event next ⟨hfollows, hkept⟩
    ⟨hpermitted, hhanding⟩ hnext
  have hafter := hkept.step hpermitted hnext
  cases step_stepped hkept.aligned hnext with
  | still _ => exact ⟨[], session, rfl, trivial, hfollows, hafter⟩
  | polled =>
      exact ⟨[], session, rfl, trivial,
        ⟨hfollows.process, hfollows.present, hfollows.absent⟩, hafter⟩
  | @visited index answers next hcursor hvisited =>
      have hpolling := hkept.polling.atSlot hcursor
      have hmoved : Follows session ({ server with cursor := index } :
          Server W) :=
        ⟨hfollows.process, hfollows.present, hfollows.absent⟩
      have hids : ∀ fd, fd ∈ server.clients.map Client.clientId →
          fd ∈ server.pollfds.map PollFd.fd := by
        intro fd hfd
        rw [hkept.aligned.fds]
        exact List.mem_append_right _ hfd
      obtain ⟨events, session', hrun, hmeets, hfollows'⟩ :=
        hvisited.follows hcondition hmoved (hkept.aligned.atSlot index)
          (fun clientIndex polled client hslot =>
            have hready := hkept.polling.ready_at hcursor hslot.entry
            ⟨hpolling.open_of_pollIn hslot hready.1,
              hpolling.received_of_pollOut hslot hready.2⟩)
          (fun fd haccepted hmem =>
            (hpermitted fd haccepted).2 (hids fd hmem))
          (fun fd bytes hat => hhanding session hfollows fd bytes (by
            unfold handed
            rw [hcursor]
            exact hat))
      exact ⟨events, session', hrun, hmeets, hfollows', hafter⟩

/-- Every state of the event loop is the end of a run of requests, with the
same process and the same records. -/
theorem reached_follows {world : W} {blocks : List ServerBlock}
    {created : List ServerConfig}
    (hnodup : ((created.filter (0 ≤ ·.fd)).map ServerConfig.fd).Nodup)
    (h : Machine.Reachable step Permitted
      (initializeServers world blocks created) server) :
    ∃ requests session, Machine.run Session.step (Session.initial world)
        requests = .ok session ∧ Follows session server := by
  have hreached : Machine.Reachable step (Handing fun _ _ => True)
      (initializeServers world blocks created) server :=
    h.mono fun _ _ hpermitted => ⟨hpermitted, fun _ _ _ _ _ => trivial⟩
  have hbuffers : OnBuffers (W := W) fun _ _ => True := fun _ _ _ => trivial
  obtain ⟨requests, session, hrun, -, hfollows, -⟩ :=
    (simulates hbuffers).reachable
        ⟨follows_initializeServers world blocks created,
          kept_initializeServers world blocks hnodup⟩ hreached
  exact ⟨requests, session, hrun, hfollows⟩

/-- Two clients, whose buffers reach the process one after the other. -/
theorem reached_follows_two :
    ∃ server requests session,
      Machine.replay step Permitted listening twoClients = some server ∧
      Machine.run Session.step (Session.initial fileDisk) requests =
        .ok session ∧ Follows session server := by
  have hsome : (Machine.replay step Permitted listening twoClients).isSome =
    true := by decide +kernel
  obtain ⟨server, hserver⟩ := Option.isSome_iff_exists.mp hsome
  obtain ⟨requests, session, hrun, hfollows⟩ := reached_follows
    (show ((List.filter (0 ≤ ·.fd) [({ serverBlockIndex := 0, fd := 3 } :
      ServerConfig)]).map ServerConfig.fd).Nodup by decide)
    (Machine.reachable_of_replay .start hserver)
  exact ⟨server, requests, session, hserver, hrun, hfollows⟩

omit [Os W] in
theorem Follows.waiting (h : Follows session server) {fd : Int}
    {record : Client} (hrecord : session.clients fd = some record)
    (hopen : record.allRecv = false) :
    record ∈ server.clients ∧ record.clientId = fd := by
  by_cases hfd : fd ∈ server.clients.map Client.clientId
  · obtain ⟨client, hclient, rfl⟩ := List.mem_map.mp hfd
    obtain ⟨other, hother, hsent⟩ := h.present client hclient
    obtain rfl := Option.some.inj (hrecord.symm.trans hother)
    rw [← hsent.waiting hopen]
    exact ⟨hclient, rfl⟩
  · rw [h.absent fd hfd] at hrecord
    cases hrecord

/-- The condition on one event of the loop: the head that a buffer completes
for the client it is handed to is refused if it is a request to remove something
around a place. -/
def RefusesAround (base : Str) (server : Server W) (event : Event) : Prop :=
  Permitted server event ∧ ∀ fd bytes, server.handed event = some (fd, bytes) →
    ∀ client ∈ server.clients, client.clientId = fd →
      client.request.index = false → ∀ parsed,
        parseRequest server.process.world
          (client.setSRequest bytes).forgetLocation = .ok parsed →
        RefusedAround base parsed

/-- Whatever its clients send, and in which order: the event loop removes
nothing at or below a place around which every request to remove something is
refused. -/
theorem reached_nothingRemoved {base : Str} {world : W}
    {blocks : List ServerBlock} {created : List ServerConfig}
    (hnodup : ((created.filter (0 ≤ ·.fd)).map ServerConfig.fd).Nodup)
    (h : Machine.Reachable step (RefusesAround base)
      (initializeServers world blocks created) server) :
    Session.NothingRemoved base server.process := by
  have hcondition : OnBuffers (W := W) (Session.DeletesRefused base) := by
    intro session event hevent
    cases event with
    | receive fd bytes => exact absurd rfl (hevent fd bytes)
    | connect fd block => trivial
    | close fd => trivial
  have hreached : Machine.Reachable step
      (Handing (Session.DeletesRefused base))
      (initializeServers world blocks created) server := by
    refine h.mono fun server event hrefuses => ⟨hrefuses.1, ?_⟩
    intro session hfollows fd bytes hhanded record parsed hrecord hopen hindex
      hparsed
    rw [hfollows.process] at hparsed
    obtain ⟨hmem, hid⟩ := hfollows.waiting hrecord hopen
    exact hrefuses.2 fd bytes hhanded record hmem hid hindex parsed hparsed
  obtain ⟨requests, session, hrun, hmeets, hfollows, -⟩ :=
    (simulates hcondition).reachable
      ⟨follows_initializeServers world blocks created,
        kept_initializeServers world blocks hnodup⟩ hreached
  have hstart : Session.DeleteInvariant base (Session.initial world) :=
    ⟨by simp [Session.NothingRemoved, Session.initial],
      by simp [Session.initial]⟩
  rw [← hfollows.process]
  exact (Machine.run_invariant
    (fun _ _ _ => Session.step_deleteInvariant) hstart hmeets hrun).removed

/-- A check of one event: no buffer completes a request to remove something
that is not answered at once. -/
def refusesDelete (server : Server W) (event : Event) : Bool :=
  match server.handed event with
  | none => true
  | some (fd, bytes) =>
      (server.clients.filter (·.clientId = fd)).all fun client =>
        match parseRequest server.process.world
          (client.setSRequest bytes).forgetLocation with
        | .error _ => true
        | .ok parsed => parsed.response.readyToSend

theorem refusesAround_of_refusesDelete {base : Str} {server : Server W}
    {event : Event} (hpermitted : Permitted server event)
    (h : refusesDelete server event = true) :
    RefusesAround base server event := by
  refine ⟨hpermitted, fun fd bytes hhanded client hclient hid _ parsed
    hparsed => fun _ _ => .inr ?_⟩
  unfold refusesDelete at h
  rw [hhanded] at h
  have hanswered := List.all_eq_true.mp h client
    (List.mem_filter.mpr ⟨hclient, decide_eq_true hid⟩)
  rw [hparsed] at hanswered
  exact hanswered

def privateListening : Server Disk :=
  initializeServers Session.privateDisk
    [{ routes := [Session.privateRoute] }]
    [{ serverBlockIndex := 0, fd := 3 }]

/-- A client asks for the removal of a file of the private location. -/
def askForRemoval : List Event := [
  .poll fun _ => { pollIn := true },
  .visit { accepted := some 5 },
  .poll fun i => { pollIn := i = 1 },
  .visit { received :=
    "DELETE /private/x HTTP/1.1\r\nHost: h\r\n\r\n".toList }]

theorem reached_nothingRemoved_private :
    ∃ server : Server Disk,
      Machine.Reachable step (RefusesAround "./html/private".toList)
        privateListening server ∧
      (server.clients.map (·.response.responseStatus)) = [405] ∧
      Session.NothingRemoved "./html/private".toList server.process := by
  have hstate : (Machine.replay step (fun server event =>
      Permitted server event ∧ refusesDelete server event = true)
        privateListening askForRemoval).map (fun server =>
          server.clients.map (·.response.responseStatus)) = some [405] := by
    decide +kernel
  obtain ⟨server, hserver, hstatus⟩ := Option.map_eq_some_iff.mp hstate
  have hreached : Machine.Reachable step
      (RefusesAround "./html/private".toList) privateListening server :=
    (Machine.reachable_of_replay .start hserver).mono
      fun _ _ hchecked => refusesAround_of_refusesDelete hchecked.1 hchecked.2
  exact ⟨server, hreached, hstatus, reached_nothingRemoved
    (show ((List.filter (0 ≤ ·.fd) [({ serverBlockIndex := 0, fd := 3 } :
      ServerConfig)]).map ServerConfig.fd).Nodup by decide) hreached⟩

end Requests

end Server

end Webserv
