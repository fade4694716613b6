import Webserv.StaticFiles
import Webserv.IndexResolution

namespace Webserv

open Cxx

/-! How a run can end: the steps of the event loop that leave its vectors or a
text, and why a server that is only read from takes no other one. -/

namespace Server

variable {W : Type} {server : Server W}

theorem Slot.isLast_iff (h : Aligned server) {index clientIndex : Nat}
    {polled : PollFd} {client : Client}
    (hslot : Slot server index clientIndex polled client) :
    server.clients.getLast? = some client ↔
      (server.clients.eraseIdx clientIndex)[clientIndex]? = none := by
  have hlt := (List.getElem?_eq_some_iff.mp hslot.record).1
  rw [List.getElem?_eq_none_iff, List.length_eraseIdx_of_lt hlt,
    List.getLast?_eq_getElem?]
  constructor
  · intro hlast
    have hsame := (findIdx_key h.clients_nodup hslot.record).symm.trans
      (findIdx_key h.clients_nodup hlast)
    omega
  · intro hle
    have hindex : server.clients.length - 1 = clientIndex := by omega
    rw [hindex]
    exact hslot.record

/-- The write to a client goes wrong where its `send` fails and no other client
moves to its slots. -/
theorem Slot.visitWrite_error_iff (h : Aligned server)
    {index clientIndex : Nat} {polled : PollFd} {client : Client}
    (hslot : Slot server index clientIndex polled client) (answers : Answers)
    (fault : Fault) :
    server.visitWrite index polled answers = .error fault ↔
      fault = .badSlot ∧ FailedSend client answers ∧
        server.clients.getLast? = some client := by
  rw [hslot.visitWrite_eq, hslot.handleClientWrite_eq h,
    ← clientWrite_eq_none_iff, hslot.isLast_iff h]
  have hlt := (List.getElem?_eq_some_iff.mp hslot.record).1
  cases hwritten : (clientWrite client answers).2 with
  | some client' =>
      obtain ⟨fileStream, hclient'⟩ := clientWrite_some hwritten
      have hset : Aligned ((server.logSent polled.fd
          (clientWrite client answers).1).setClient clientIndex client') :=
        (h.logSent ..).setClient hslot.record (by rw [hclient']) (by
          rw [hclient']
          exact h.keepAlive client (List.mem_of_getElem? hslot.record))
      have hfound : ((server.logSent polled.fd
          (clientWrite client answers).1).setClient clientIndex
            client').clients[clientIndex]? = some client' := by
        simp [Server.setClient, Server.logSent, hlt]
      refine ⟨fun herror => ?_, fun hfalse => by cases hfalse.2.1⟩
      rcases finishWrite_cases hset hslot.offset with
        ⟨hnone, -⟩ | ⟨other, -, ⟨-, hok⟩ | ⟨-, next, hok, -⟩⟩
      · rw [hfound] at hnone
        cases hnone
      · cases hok.symm.trans herror
      · cases hok.symm.trans herror
  | none =>
      have herased := (h.logSent polled.fd
        (clientWrite client answers).1).eraseClient (hslot.logSent ..)
      change finishWrite _ _ _ = _ ↔ fault = .badSlot ∧ none = none ∧
        (((server.logSent polled.fd (clientWrite client answers).1).eraseClient
          index clientIndex polled.fd).clients)[clientIndex]? = none
      rcases finishWrite_cases herased hslot.offset with
        ⟨hnone, hbad⟩ | ⟨other, hsome, hok⟩
      · rw [hnone, hbad]
        exact ⟨fun herror => ⟨(Except.error.inj herror).symm, rfl, rfl⟩,
          fun hall => by rw [hall.1]⟩
      · rw [hsome]
        refine ⟨fun herror => ?_, fun hfalse => by cases hfalse.2.2⟩
        rcases hok with ⟨-, hok⟩ | ⟨-, next, hok, -⟩
        · cases hok.symm.trans herror
        · cases hok.symm.trans herror

variable [Os W]

theorem Slot.visitRead_error_iff {index clientIndex : Nat} {polled : PollFd}
    {client : Client} (hslot : Slot server index clientIndex polled client)
    (answers : Answers) (fault : Fault) :
    server.visitRead index polled answers = .error fault ↔
      answers.received ≠ [] ∧ checkRequest server.process
        (client.setSRequest answers.received) = .error fault := by
  unfold visitRead
  simp only [hslot.found, hslot.record]
  by_cases hreceived : answers.received = []
  · rw [if_pos hreceived]
    refine ⟨fun herror => ?_, fun herror => absurd hreceived herror.1⟩
    cases herror
  · rw [if_neg hreceived]
    cases checkRequest server.process
        (client.setSRequest answers.received) with
    | error other => simp [hreceived]
    | ok result => simp

theorem visit_error_iff (h : Aligned server) {index : Nat} {polled : PollFd}
    (hpolled : server.pollfds[index]? = some polled) (answers : Answers)
    (fault : Fault)
    (hopen : ∀ clientIndex client,
      Slot server index clientIndex polled client →
        polled.revents.pollIn = true → client.allRecv = false) :
    server.visit index answers = .error fault ↔
      (∃ bytes client,
        server.handedAt index answers = some (polled.fd, bytes) ∧
        server.record polled.fd = some client ∧
        receive server.process client bytes = .error fault) ∨
      (fault = .badSlot ∧ polled.revents = { pollOut := true } ∧
        ∃ client, server.record polled.fd = some client ∧
          FailedSend client answers ∧
          server.clients.getLast? = some client) := by
  have hfine : server.handedAt index answers = none →
      polled.revents ≠ { pollOut := true } →
      server.visit index answers ≠ .error fault →
      (server.visit index answers = .error fault ↔
        (∃ bytes client,
          server.handedAt index answers = some (polled.fd, bytes) ∧
          server.record polled.fd = some client ∧
          receive server.process client bytes = .error fault) ∨
        (fault = .badSlot ∧ polled.revents = { pollOut := true } ∧
          ∃ client, server.record polled.fd = some client ∧
            FailedSend client answers ∧
            server.clients.getLast? = some client)) := by
    intro hhanded hevents hok
    refine ⟨fun herror => absurd herror hok, ?_⟩
    rintro (⟨bytes, client, hsome, -⟩ | ⟨-, hout, -⟩)
    · rw [hhanded] at hsome
      cases hsome
    · exact absurd hout hevents
  cases htrouble : polled.revents.trouble with
  | true =>
      refine hfine (by simp [handedAt, hpolled, htrouble]) (fun hout => ?_) ?_
      · rw [hout] at htrouble
        cases htrouble
      · unfold visit
        rw [hpolled]
        simp only [htrouble, if_true]
        split <;> simp
  | false =>
      cases hin : polled.revents.pollIn with
      | true =>
          have hevents : polled.revents ≠ { pollOut := true } := by
            intro hout
            rw [hout] at hin
            cases hin
          cases hconfig : server.findConfig polled.fd with
          | some config =>
              refine hfine (by simp [handedAt, hpolled, htrouble, hin, hconfig])
                hevents ?_
              simp [visit, hpolled, htrouble, hin, hconfig]
          | none =>
              have hvisit : server.visit index answers =
                  server.visitRead index polled answers := by
                simp [visit, hpolled, htrouble, hin, hconfig]
              rcases h.slot_cases hpolled with
                ⟨hlistening, -⟩ | ⟨clientIndex, client, hslot⟩
              · obtain ⟨listener, hlistener, hfd⟩ := List.mem_map.mp hlistening
                obtain ⟨config, hmem, hsame⟩ := h.configured listener hlistener
                have hnot := List.find?_eq_none.mp hconfig config hmem
                rw [hsame, hfd] at hnot
                simp at hnot
              have hreceive : receive server.process client answers.received =
                  checkRequest server.process
                    (client.setSRequest answers.received) := by
                unfold receive
                rw [if_neg (by simp [hopen clientIndex client hslot hin])]
              have hhanded : server.handedAt index answers =
                  if answers.received = [] then none
                  else some (polled.fd, answers.received) := by
                simp [handedAt, hpolled, htrouble, hin, hconfig, hslot.found,
                  hslot.record]
              rw [hvisit, hslot.visitRead_error_iff, hhanded,
                record_of_slot h hslot, ← hreceive]
              constructor
              · rintro ⟨hreceived, herror⟩
                rw [if_neg hreceived]
                exact .inl ⟨_, _, rfl, rfl, herror⟩
              · rintro (⟨bytes, other, hsome, hother, herror⟩ | ⟨-, hout, -⟩)
                · split at hsome
                  · cases hsome
                  rename_i hreceived
                  obtain ⟨-, rfl⟩ := Prod.mk.inj (Option.some.inj hsome)
                  obtain rfl := Option.some.inj hother
                  exact ⟨hreceived, herror⟩
                · exact absurd hout hevents
      | false =>
          cases hout : polled.revents.pollOut with
          | false =>
              refine hfine (by simp [handedAt, hpolled, htrouble, hin])
                (fun hsame => ?_) ?_
              · rw [hsame] at hout
                cases hout
              · simp [visit, hpolled, htrouble, hin, hout]
          | true =>
              have hevents : polled.revents = { pollOut := true } := by
                rcases hrevents : polled.revents with ⟨trouble, pollIn, pollOut⟩
                rw [hrevents] at htrouble hin hout
                obtain rfl : trouble = false := htrouble
                obtain rfl : pollIn = false := hin
                obtain rfl : pollOut = true := hout
                rfl
              have hhanded : server.handedAt index answers = none := by
                simp [handedAt, hpolled, htrouble, hin]
              rcases h.slot_cases hpolled with
                ⟨hlistening, -⟩ | ⟨clientIndex, client, hslot⟩
              · have hquiet := (h.listening polled
                  (List.mem_of_getElem? hpolled) hlistening).2
                rw [hout] at hquiet
                cases hquiet
              rw [visit_pollOut hpolled hevents, hslot.visitWrite_error_iff h,
                hhanded, record_of_slot h hslot]
              constructor
              · rintro ⟨rfl, hfailed, hlast⟩
                exact .inr ⟨rfl, hevents, client, rfl, hfailed, hlast⟩
              · rintro (⟨bytes, other, hsome, -⟩ |
                  ⟨rfl, -, other, hother, hfailed⟩)
                · cases hsome
                · obtain rfl := Option.some.inj hother
                  exact ⟨rfl, hfailed⟩

/-- The event is a buffer that `check_request` fails on. -/
def BreaksRequest (server : Server W) (event : Event) (fault : Fault) : Prop :=
  ∃ fd bytes client, server.handed event = some (fd, bytes) ∧
    server.record fd = some client ∧
    receive server.process client bytes = .error fault

omit [Os W] in
/-- The event is a write to the last client, and its `send` fails. -/
def BreaksWrite (server : Server W) (event : Event) : Prop :=
  ∃ client answers, server.turn event = some (client, answers) ∧
    FailedSend client answers ∧ server.clients.getLast? = some client

theorem step_error_iff (hkept : Kept server) (event : Event)
    (fault : Fault) :
    server.step event = .error fault ↔
      server.BreaksRequest event fault ∨
        (fault = .badSlot ∧ server.BreaksWrite event) := by
  have hquiet : server.handed event = none → server.turn event = none →
      server.step event ≠ .error fault →
      (server.step event = .error fault ↔
        server.BreaksRequest event fault ∨
          (fault = .badSlot ∧ server.BreaksWrite event)) := by
    intro hhanded hturn hok
    refine ⟨fun herror => absurd herror hok, ?_⟩
    rintro (⟨fd, bytes, client, hsome, -⟩ | ⟨-, client, answers, hsome, -⟩)
    · rw [hhanded] at hsome
      cases hsome
    · rw [hturn] at hsome
      cases hsome
  cases event with
  | poll reported =>
      refine hquiet rfl rfl fun herror => ?_
      rw [step] at herror
      split at herror <;> cases herror
  | visit answers =>
      cases hcursor : server.cursor with
      | zero =>
          refine hquiet (by simp [handed, hcursor]) (by simp [turn, hcursor])
            fun herror => ?_
          rw [step, hcursor] at herror
          cases herror
      | succ index =>
          have hstep : server.step (.visit answers) =
              visit { server with cursor := index } index answers := by
            rw [step, hcursor]
          have hhanded : server.handed (.visit answers) =
              server.handedAt index answers := by
            rw [handed, hcursor]
          have hturn : server.turn (.visit answers) =
              (server.pollfds[index]?).bind fun polled =>
                if polled.revents = { pollOut := true } then
                  (server.record polled.fd).map fun client =>
                    (client, answers)
                else none := by
            rw [turn, hcursor]
          cases hpolled : server.pollfds[index]? with
          | none =>
              refine hquiet ?_ ?_ ?_
              · rw [hhanded]
                simp [handedAt, hpolled]
              · rw [hturn, hpolled]
                rfl
              · rw [hstep]
                simp [visit, hpolled]
          | some polled =>
              rw [hpolled, Option.bind_some] at hturn
              rw [hstep, visit_error_iff (hkept.aligned.atSlot index) hpolled
                answers fault fun clientIndex client hslot =>
                  (hkept.polling.atSlot hcursor).open_of_pollIn hslot
                    (hkept.polling.ready_at hcursor hpolled).1]
              refine or_congr ⟨?_, ?_⟩ (and_congr_right fun _ => ⟨?_, ?_⟩)
              · rintro ⟨bytes, client, hsome, hclient, herror⟩
                exact ⟨_, bytes, client, hhanded.trans hsome, hclient, herror⟩
              · rintro ⟨fd, bytes, client, hsome, hclient, herror⟩
                rw [hhanded] at hsome
                obtain rfl := handedAt_fd hpolled hsome
                exact ⟨bytes, client, hsome, hclient, herror⟩
              · rintro ⟨hevents, client, hclient, hbad⟩
                refine ⟨client, answers, ?_, hbad⟩
                have hclient : server.record polled.fd = some client := hclient
                rw [hturn, if_pos hevents, hclient]
                rfl
              · rintro ⟨client, offered, hsome, hbad⟩
                rw [hturn] at hsome
                split at hsome
                · rename_i hevents
                  obtain ⟨found, hfound, hsame⟩ :=
                    Option.map_eq_some_iff.mp hsome
                  obtain ⟨rfl, rfl⟩ := Prod.mk.inj hsame
                  exact ⟨hevents, found, hfound, hbad⟩
                · cases hsome

end Server

/-! The first buffer of a request that only reads. -/

section Buffers

variable {W : Type} [Os W] {client parsed : Client}

theorem responseToGet_total (world : W) (hlocated : client.Located) :
    ∃ answer, responseToGet world client = .ok answer := by
  unfold responseToGet
  split
  · exact ⟨_, rfl⟩
  split
  · unfold directoryResponse
    split
    · exact ⟨_, rfl⟩
    split
    · exact ⟨_, rfl⟩
    simp only
    split
    · have hmissing := @directoryAnswer_missing W _ world client hlocated
        (indexCandidate world client)
      obtain ⟨answer, hanswer, -⟩ := hmissing _
      exact ⟨answer, hanswer⟩
    · rw [directoryAnswer_zero]
      exact ⟨_, rfl⟩
  · split <;> exact ⟨_, rfl⟩
  · exact ⟨_, rfl⟩

theorem ReadOnly.dispatchRequest_total (process : Process W)
    (hread : ReadOnly parsed)
    (hlocated : parsed.response.readyToSend = false → parsed.Located) :
    ∃ result, Webserv.dispatchRequest process parsed = .ok result := by
  cases hready : parsed.response.readyToSend with
  | true => exact ⟨_, dispatchRequest_of_ready hready⟩
  | false =>
      obtain ⟨hmethod, hplain⟩ := hread.resolve_left (by simp [hready])
      obtain ⟨answer, hanswer⟩ :=
        responseToGet_total process.world (hlocated hready)
      unfold Webserv.dispatchRequest checkIfHaveCgi
      rw [if_neg (by simp [hready])]
      simp only [hplain, bind, Except.bind, Bool.false_eq_true, if_false,
        hready]
      unfold dispatchMethod
      rw [if_pos hmethod, hanswer]
      exact ⟨_, rfl⟩

theorem parseRequest_total (world : W) (fd : Int) (block : ServerBlock)
    {bytes : Str} (hsize : bytes.length ≤ 16383) :
    ∃ parsed, parseRequest world (firstBuffer fd block bytes) =
      .ok parsed := by
  have hrange : (firstBuffer fd block bytes).serverClientObj.InRange := nofun
  rcases parseRequest_gated world (firstBuffer fd block bytes) hsize with
    ⟨answered, heq, -⟩ | ⟨passed, requestPath, hpassed, heq⟩
  · exact ⟨answered, heq⟩
  have hsettled : passed.Settled := by
    intro hready
    rw [hpassed.response] at hready
    cases hready
  obtain ⟨parsed, hparsed, -⟩ := parseTarget_total world
    (hpassed.block.symm ▸ hrange) hsettled hpassed.path passed.request.method
  exact ⟨parsed, heq.trans hparsed⟩

theorem receive_total (process : Process W) (fd : Int) (block : ServerBlock)
    {bytes : Str}
    (hsize : bytes.length ≤ 16383)
    (hread : ∀ parsed, parseRequest process.world
      (firstBuffer fd block bytes) = .ok parsed → ReadOnly parsed) :
    ∃ result, receive process (Client.connect fd block) bytes =
      .ok result := by
  obtain ⟨parsed, hparsed⟩ := parseRequest_total process.world fd block hsize
  have honce : parseOnce process.world
      ((Client.connect fd block).setSRequest bytes).forgetLocation =
        .ok parsed := by
    have hindex : (firstBuffer fd block bytes).request.index = false := rfl
    unfold parseOnce
    exact (if_pos hindex).trans hparsed
  obtain ⟨result, hresult⟩ := (hread parsed hparsed).dispatchRequest_total
    process (parseOnce_located honce)
  refine ⟨result, ?_⟩
  unfold receive checkRequest
  rw [if_neg (by simp [Client.connect]), honce]
  exact hresult

end Buffers

namespace Wired

variable {W : Type} [Os W] {wired : Wired W}

/-- The condition on one event: a buffer that it hands on is no longer than the
one `recv` is given, and a head in it only reads. -/
def Readable (wired : Wired W) (event : Server.Event) : Prop :=
  wired.ReadsOnly event ∧
    ∀ handed ∈ wired.server.handed event, handed.2.length ≤ 16383

/-- A server that is only read from goes on until a `send` to its last client
fails. -/
theorem reached_stuck_iff {world : W} {blocks : List ServerBlock}
    {created : List ServerConfig}
    (hnodup : ((created.filter (0 ≤ ·.fd)).map ServerConfig.fd).Nodup)
    {event : Server.Event}
    (h : Machine.Reachable step Readable (initial world blocks created) wired)
    (hreadable : wired.Readable event) :
    (∀ next, wired.step event ≠ .ok next) ↔
      wired.server.BreaksWrite event := by
  have honly := reachable_onlyRead hnodup (h.mono fun _ _ hreads => hreads.1)
  have hrequest : ∀ fault, ¬wired.server.BreaksRequest event fault := by
    rintro fault ⟨fd, bytes, client, hhanded, hrecord, herror⟩
    cases hall : client.allRecv with
    | true =>
        unfold receive at herror
        rw [if_pos hall] at herror
        cases herror
    | false =>
        obtain ⟨-, block, -, rfl⟩ := honly.waiting hrecord hall
        have hsize : bytes.length ≤ 16383 :=
          hreadable.2 (fd, bytes) hhanded
        obtain ⟨result, hresult⟩ := receive_total wired.server.process fd
          block hsize fun parsed hparsed =>
            hreadable.1.2 fd bytes _ parsed hhanded hrecord rfl hparsed
        cases hresult.symm.trans herror
  have hstep : (∀ next, wired.step event ≠ .ok next) ↔
      ∃ fault, wired.server.step event = .error fault := by
    unfold step
    cases wired.server.step event with
    | error fault => exact ⟨fun _ => ⟨fault, rfl⟩, fun _ _ hok => by cases hok⟩
    | ok next =>
        exact ⟨fun hnot => absurd rfl (hnot _), fun ⟨_, hbad⟩ => by cases hbad⟩
  rw [hstep]
  constructor
  · rintro ⟨fault, herror⟩
    rcases (Server.step_error_iff honly.kept event fault).mp herror with
      hbad | ⟨-, hbad⟩
    · exact absurd hbad (hrequest fault)
    · exact hbad
  · intro hbad
    exact ⟨.badSlot, (Server.step_error_iff honly.kept event .badSlot).mpr
      (.inr ⟨rfl, hbad⟩)⟩

def readable (wired : Wired W) (event : Server.Event) : Prop :=
  wired.onlyReads event ∧
    ∀ handed ∈ wired.server.handed event, handed.2.length ≤ 16383

instance (wired : Wired W) (event : Server.Event) :
    Decidable (wired.readable event) :=
  inferInstanceAs (Decidable (_ ∧ _))

theorem readable_sound {event : Server.Event} (h : wired.readable event) :
    wired.Readable event :=
  ⟨Server.readsOnly_sound h.1.1 h.1.2, h.2⟩

/-- The only client is gone before its answer. -/
theorem reached_stuck_one :
    ∃ wired, Machine.replay step readable listening Server.oneClient =
        some wired ∧
      wired.server.BreaksWrite (.visit {}) := by
  have hstate : (Machine.replay step readable listening
      Server.oneClient).map (fun wired => (decide (wired.readable (.visit {})),
        (wired.step (.visit {})).toOption.isNone)) = some (true, true) := by
    decide +kernel
  obtain ⟨wired, hwired, hfields⟩ := Option.map_eq_some_iff.mp hstate
  obtain ⟨hreadable, hstuck⟩ := Prod.mk.inj hfields
  have hreached : Machine.Reachable step Readable listening wired :=
    (Machine.reachable_of_replay .start hwired).mono
      fun _ _ hchecked => readable_sound hchecked
  refine ⟨wired, hwired, (reached_stuck_iff listening_nodup hreached
    (readable_sound (of_decide_eq_true hreadable))).mp ?_⟩
  intro next hnext
  rw [hnext] at hstuck
  cases hstuck

end Wired

end Webserv
