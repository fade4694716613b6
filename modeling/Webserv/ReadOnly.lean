import Webserv.Session
import Webserv.Machine.Purge
import Webserv.Provenance

namespace Webserv

open Cxx

/-! Requests that only read.  They leave nothing behind for the others, and they
are answered as if they were alone. -/

/-- A head that is answered at once, or that asks for a file or a directory and
not for the output of a script. -/
def ReadOnly (parsed : Client) : Prop :=
  parsed.response.readyToSend = true ∨
    (parsed.request.method = "GET".toList ∧
      scriptExtension? parsed.request.path = none)

instance (parsed : Client) : Decidable (ReadOnly parsed) :=
  inferInstanceAs (Decidable (_ ∨ _))

section Buffers

variable {W : Type} [Os W] {process process' : Process W}
  {client client' parsed : Client}

theorem ReadOnly.dispatchRequest (hread : ReadOnly parsed)
    (h : dispatchRequest process parsed = .ok (process', client')) :
    process' = process ∧ client'.allRecv = true := by
  by_cases hready : parsed.response.readyToSend = true
  · rw [dispatchRequest_of_ready hready] at h
    obtain ⟨rfl, rfl⟩ := Prod.mk.inj (Except.ok.inj h)
    exact ⟨rfl, rfl⟩
  obtain ⟨hmethod, hplain⟩ := hread.resolve_left hready
  unfold Webserv.dispatchRequest checkIfHaveCgi at h
  rw [if_neg hready] at h
  simp only [hplain] at h
  obtain ⟨⟨handled, client₁, isCgi⟩, hcgi, hnext⟩ := bind_ok h
  obtain ⟨rfl, hrest⟩ := Prod.mk.inj (Except.ok.inj hcgi)
  obtain ⟨rfl, rfl⟩ := Prod.mk.inj hrest
  simp only [Bool.false_eq_true, if_false] at hnext
  rw [if_neg hready] at hnext
  unfold dispatchMethod at hnext
  rw [if_pos hmethod] at hnext
  obtain ⟨answered, -, hnext⟩ := bind_ok hnext
  obtain ⟨rfl, rfl⟩ := Prod.mk.inj (Except.ok.inj hnext)
  exact ⟨rfl, rfl⟩

theorem receive_readOnly {bytes : Str} (hindex : client.request.index = false)
    (hopen : client.allRecv = false)
    (hread : ∀ parsed, parseRequest process.world
      (client.setSRequest bytes).forgetLocation = .ok parsed →
        ReadOnly parsed)
    (h : receive process client bytes = .ok (process', client')) :
    process' = process ∧ client'.allRecv = true := by
  rcases receive_cases h with ⟨hall, -, -⟩ | ⟨-, parsed, hparsed, h⟩
  · rw [hopen] at hall
    cases hall
  rcases parseOnce_cases hparsed with ⟨-, hparse⟩ | ⟨hdone, -⟩
  · exact (hread parsed hparse).dispatchRequest h
  · have hfresh : client.request.index = true := hdone
    rw [hindex] at hfresh
    cases hfresh

end Buffers

/-! A run of requests without those of some of its clients. -/

namespace Session

variable {W : Type}

def Event.client : Event → Int
  | .connect fd _ => fd
  | .receive fd _ => fd
  | .close fd => fd

section Bystanders

variable [Os W] {reader : Int → Bool} {session session' : Session W}

/-- The condition on one event: a head that a buffer of a reader may complete
only reads. -/
def ReadsOnly (reader : Int → Bool) (session : Session W) : Event → Prop
  | .receive fd bytes => reader fd = true → ∀ client parsed,
      session.clients fd = some client → client.allRecv = false →
        client.request.index = false →
        parseRequest session.process.world
          (client.setSRequest bytes).forgetLocation = .ok parsed →
        ReadOnly parsed
  | _ => True

omit [Os W] in
/-- The same process and the same other clients; a reader has sent nothing, or
all of its request. -/
structure Beside (reader : Int → Bool) (session session' : Session W) :
    Prop where
  process : session'.process = session.process
  clients : ∀ fd, reader fd = false →
    session'.clients fd = session.clients fd
  readers : ∀ fd client, reader fd = true →
    session.clients fd = some client →
      client.allRecv = true ∨
        (client.allRecv = false ∧ client.request.index = false)

omit [Os W] in
theorem Beside.update (h : Beside reader session session') {fd : Int}
    (hfd : reader fd = true) {found : Option Client}
    (hfound : ∀ client, found = some client → client.allRecv = true ∨
      (client.allRecv = false ∧ client.request.index = false)) :
    Beside reader
      { session with clients := Function.update session.clients fd found }
      session' := by
  refine ⟨h.process, fun other hother => ?_, fun other client hother hclient =>
    ?_⟩
  · have hne : other ≠ fd := by
      rintro rfl
      rw [hfd] at hother
      cases hother
    rw [h.clients other hother]
    exact (Function.update_of_ne hne _ _).symm
  · by_cases hsame : other = fd
    · subst hsame
      exact hfound client (by simpa using hclient)
    · exact h.readers other client hother (by simpa [hsame] using hclient)

omit [Os W] in
theorem Beside.both (h : Beside reader session session') {fd : Int}
    (hfd : reader fd = false) {after after' : Session W}
    {found : Option Client} (hprocess : after'.process = after.process)
    (hafter : after.clients = Function.update session.clients fd found)
    (hafter' : after'.clients = Function.update session'.clients fd found) :
    Beside reader after after' := by
  refine ⟨hprocess, fun other hother => ?_, fun other client hother hclient =>
    ?_⟩
  · rw [hafter, hafter']
    by_cases hsame : other = fd
    · simp [hsame]
    · simp [hsame, h.clients other hother]
  · have hne : other ≠ fd := by
      rintro rfl
      rw [hfd] at hother
      cases hother
    rw [hafter, Function.update_of_ne hne] at hclient
    exact h.readers other client hother hclient

theorem purges_readers (W : Type) [Os W] (reader : Int → Bool) :
    Machine.Purges step (ReadsOnly (W := W) reader) (Beside reader)
      fun event => !reader event.client := by
  constructor
  · intro session session' event next h hdropped hreads hnext
    have hfd : reader event.client = true := by simpa using hdropped
    cases event with
    | connect fd block =>
        obtain rfl := Except.ok.inj hnext
        refine h.update hfd fun client hclient => ?_
        obtain rfl := Option.some.inj hclient
        exact .inr ⟨rfl, rfl⟩
    | close fd =>
        obtain rfl := Except.ok.inj hnext
        exact h.update hfd (by simp)
    | receive fd bytes =>
        rw [step] at hnext
        split at hnext
        · obtain rfl := Except.ok.inj hnext
          exact h
        rename_i client hclient
        split at hnext
        · cases hnext
        rename_i process client' hreceive
        obtain rfl := Except.ok.inj hnext
        have hquiet : process = session.process ∧ client'.allRecv = true := by
          rcases h.readers fd client hfd hclient with hall | ⟨hopen, hindex⟩
          · unfold receive at hreceive
            rw [if_pos hall] at hreceive
            obtain ⟨rfl, rfl⟩ := Prod.mk.inj (Except.ok.inj hreceive)
            exact ⟨rfl, hall⟩
          · exact receive_readOnly hindex hopen (fun parsed =>
              hreads hfd client parsed hclient hopen hindex) hreceive
        rw [hquiet.1]
        refine h.update hfd fun other hother => ?_
        obtain rfl := Option.some.inj hother
        exact .inl hquiet.2
  · intro session session' event next h hkept _ hnext
    have hfd : reader event.client = false := by simpa using hkept
    cases event with
    | connect fd block =>
        obtain rfl := Except.ok.inj hnext
        exact ⟨_, rfl, h.both hfd h.process rfl rfl⟩
    | close fd =>
        obtain rfl := Except.ok.inj hnext
        exact ⟨_, rfl, h.both hfd h.process rfl rfl⟩
    | receive fd bytes =>
        have hfd : reader fd = false := hfd
        rw [step] at hnext ⊢
        rw [h.clients fd hfd]
        split at hnext
        · obtain rfl := Except.ok.inj hnext
          exact ⟨_, rfl, h⟩
        rename_i client hclient
        rw [h.process]
        split at hnext
        · cases hnext
        rename_i process client' hreceive
        obtain rfl := Except.ok.inj hnext
        exact ⟨_, rfl, h.both hfd rfl rfl rfl⟩

/-- Whoever only reads is no one's concern: without such clients the run ends
with the same process, and with the same records of all the others. -/
theorem run_bystanders {world : W} {events : List Event} {final : Session W}
    (hreads : Machine.Meets step (ReadsOnly reader) (initial world) events)
    (hrun : Machine.run step (initial world) events = .ok final) :
    ∃ final', Machine.run step (initial world)
        (events.filter fun event => !reader event.client) = .ok final' ∧
      final'.process = final.process ∧
      ∀ fd, reader fd = false → final'.clients fd = final.clients fd := by
  have hstart : Beside reader (initial world) (initial world) :=
    ⟨rfl, fun _ _ => rfl, fun _ _ _ hnone => by cases hnone⟩
  obtain ⟨final', hfinal, hbeside⟩ :=
    (purges_readers W reader).run hstart hreads hrun
  exact ⟨final', hfinal, hbeside.process, hbeside.clients⟩

/-- A check of one event, by the head that it completes. -/
def readsOnly (reader : Int → Bool) (session : Session W) : Event → Bool
  | .receive fd bytes =>
      !reader fd || match session.clients fd with
        | none => true
        | some client =>
            match parseRequest session.process.world
              (client.setSRequest bytes).forgetLocation with
            | .error _ => true
            | .ok parsed => ReadOnly parsed
  | _ => true

theorem readsOnly_sound {event : Event}
    (h : readsOnly reader session event = true) :
    ReadsOnly reader session event := by
  cases event with
  | connect fd block => trivial
  | close fd => trivial
  | receive fd bytes =>
      intro hfd client parsed hclient _ _ hparsed
      rw [readsOnly, hfd, hclient] at h
      simpa [hparsed] using h

/-- One client removes the file that another one has asked for before. -/
def readThenRemove : List Event := [
  .connect 5 {}, .connect 6 {},
  .receive 6 "GET /a HTTP/1.1\r\nHost: h\r\n\r\n".toList,
  .receive 5 "DELETE /a HTTP/1.1\r\nHost: h\r\n\r\n".toList]

theorem run_bystanders_two :
    ∃ final final', Machine.run step (initial Server.fileDisk)
        readThenRemove = .ok final ∧
      Machine.run step (initial Server.fileDisk)
        (readThenRemove.filter fun event => !(event.client == 6)) =
          .ok final' ∧
      final.process.effects = [⟨5, .remove "./html/a".toList⟩] ∧
      final'.process = final.process ∧
      final'.clients 5 = final.clients 5 := by
  have hstate : (Machine.replay step (fun session event =>
      readsOnly (· == 6) session event = true) (initial Server.fileDisk)
        readThenRemove).map (·.process.effects) =
      some [⟨5, .remove "./html/a".toList⟩] := by decide +kernel
  obtain ⟨final, hfinal, heffects⟩ := Option.map_eq_some_iff.mp hstate
  obtain ⟨hrun, hmeets⟩ := Machine.run_of_replay hfinal
  obtain ⟨final', hrun', hprocess, hclients⟩ := run_bystanders
    (hmeets.mono fun _ _ => readsOnly_sound) hrun
  exact ⟨final, final', hrun, hrun', heffects, hprocess, hclients 5 rfl⟩

end Bystanders

end Session

/-! A server that is only read from. -/

namespace Server

variable {W : Type} [Os W] {server : Server W}

/-- The condition on one event of the loop: a head that it may complete only
reads. -/
def ReadsOnly (server : Server W) (event : Event) : Prop :=
  Permitted server event ∧ ∀ fd bytes client parsed,
    server.handed event = some (fd, bytes) →
      server.record fd = some client → client.request.index = false →
      parseRequest server.process.world
        (client.setSRequest bytes).forgetLocation = .ok parsed →
      ReadOnly parsed

/-- A record as its own connection leads to it on a process of its own, by the
buffers it has been heard with: a new one, or the answer to its first buffer. -/
inductive Alone (world : W) (blocks : List ServerBlock) (fd : Int) :
    List Str → Client → Prop
  | fresh {block : ServerBlock} : block ∈ blocks →
      Alone world blocks fd [] (Client.connect fd block)
  | answered {block : ServerBlock} {bytes : Str} {record : Client} :
      block ∈ blocks →
      receive { world := world } (Client.connect fd block) bytes =
        .ok ({ world := world }, record) →
      record.allRecv = true → Alone world blocks fd [bytes] record

def readsOnly (server : Server W) (event : Event) : Bool :=
  match server.handed event with
  | none => true
  | some (fd, bytes) =>
      match server.record fd with
      | none => true
      | some client =>
          match parseRequest server.process.world
            (client.setSRequest bytes).forgetLocation with
          | .error _ => true
          | .ok parsed => ReadOnly parsed

theorem readsOnly_sound {event : Event} (hpermitted : Permitted server event)
    (h : readsOnly server event = true) : ReadsOnly server event := by
  refine ⟨hpermitted, fun fd bytes client parsed hhanded hrecord _ hparsed =>
    ?_⟩
  rw [readsOnly, hhanded] at h
  simpa [hrecord, hparsed] using h

end Server

namespace Wired

variable {W : Type} [Os W] {wired : Wired W}

structure OnlyRead (world : W) (blocks : List ServerBlock)
    (wired : Wired W) : Prop where
  kept : wired.server.Kept
  process : wired.server.process = { world := world }
  configured : wired.server.serverBlockObj = blocks
  provenance : ∀ fd, Provenance (Server.Alone world blocks fd)
    (wired.heard fd) (wired.answer fd) (wired.server.record fd)

theorem initial_onlyRead (world : W) (blocks : List ServerBlock)
    {created : List ServerConfig}
    (hnodup : ((created.filter (0 ≤ ·.fd)).map ServerConfig.fd).Nodup) :
    OnlyRead world blocks (initial world blocks created) :=
  ⟨Server.kept_initializeServers world blocks hnodup, rfl, rfl,
    fun _ _ hnone => by cases hnone⟩

theorem OnlyRead.waiting {world : W} {blocks : List ServerBlock}
    (h : OnlyRead world blocks wired) {fd : Int} {client : Client}
    (hrecord : wired.server.record fd = some client)
    (hopen : client.allRecv = false) :
    wired.heard fd = [] ∧
      ∃ block ∈ blocks, client = Client.connect fd block := by
  obtain ⟨record, hmade, hsent, -⟩ := h.provenance fd client hrecord
  obtain rfl := hsent.waiting (hsent.allRecv ▸ hopen)
  generalize wired.heard fd = heard at hmade
  cases hmade with
  | fresh hblock => exact ⟨rfl, _, hblock, rfl⟩
  | answered _ _ hall =>
      rw [hopen] at hall
      cases hall

theorem step_onlyRead {world : W} {blocks : List ServerBlock}
    {event : Server.Event} {next : Wired W}
    (h : OnlyRead world blocks wired)
    (hreads : wired.server.ReadsOnly event)
    (hnext : wired.step event = .ok next) : OnlyRead world blocks next := by
  obtain ⟨server, hstep, hnext⟩ := bind_ok hnext
  obtain rfl := Except.ok.inj hnext
  -- a buffer that is handled is the first one of its connection
  have hreceive : ∀ fd bytes client process client',
      wired.server.handed event = some (fd, bytes) →
        wired.server.record fd = some client → client.allRecv = false →
        receive wired.server.process client bytes = .ok (process, client') →
        process = wired.server.process ∧ client'.allRecv = true ∧
          wired.heard fd = [] ∧
          ∃ block ∈ blocks, client = Client.connect fd block := by
    intro fd bytes client process client' hhanded hrecord hopen hreceive
    obtain ⟨hheard, block, hblock, rfl⟩ := h.waiting hrecord hopen
    have hquiet := receive_readOnly rfl rfl (fun parsed =>
      hreads.2 fd bytes _ parsed hhanded hrecord rfl) hreceive
    exact ⟨hquiet.1, hquiet.2, hheard, block, hblock, rfl⟩
  have hprocess : server.process = wired.server.process := by
    rcases Server.step_process h.kept hstep with
      hsame | ⟨fd, bytes, client, client', hhanded, hrecord, hopen, hran⟩
    · exact hsame
    · exact (hreceive fd bytes client _ client' hhanded hrecord hopen hran).1
  refine ⟨h.kept.step hreads.1 hstep, hprocess.trans h.process,
    (Server.step_serverBlockObj h.kept.aligned hstep).trans h.configured,
    fun fd => ?_⟩
  have hdealt := Server.step_dealt h.kept hreads.1 hstep fd
  rw [h.configured] at hdealt
  refine (h.provenance fd).dealt hdealt (fun block hblock => .fresh hblock) ?_
  intro client bytes client' hrecord hhanded hopen _ hran
  obtain ⟨hsame, hall, hheard, block, hblock, rfl⟩ :=
    hreceive fd bytes client _ client' hhanded hrecord hopen hran
  rw [hsame, h.process] at hran
  rw [hheard]
  exact .answered hblock hran hall

def ReadsOnly (wired : Wired W) (event : Server.Event) : Prop :=
  wired.server.ReadsOnly event

theorem reachable_onlyRead {world : W} {blocks : List ServerBlock}
    {created : List ServerConfig}
    (hnodup : ((created.filter (0 ≤ ·.fd)).map ServerConfig.fd).Nodup)
    (h : Machine.Reachable step ReadsOnly (initial world blocks created)
      wired) : OnlyRead world blocks wired :=
  h.invariant
    (fun _ _ _ honly hreads hnext => step_onlyRead honly hreads hnext)
    (initial_onlyRead world blocks hnodup)

/-- In a run whose requests only read, whatever their order and however they
are interleaved: the process stays as it was, and every record is what the
buffers of its own connection alone lead to on a process of its own, up to what
has been sent of it. -/
theorem reached_alone {world : W} {blocks : List ServerBlock}
    {created : List ServerConfig}
    (hnodup : ((created.filter (0 ≤ ·.fd)).map ServerConfig.fd).Nodup)
    (h : Machine.Reachable step ReadsOnly (initial world blocks created)
      wired) :
    wired.server.process = { world := world } ∧
      ∀ fd client, wired.server.record fd = some client →
        ∃ record, Server.Alone world blocks fd (wired.heard fd) record ∧
          SentFrom record client := by
  have honly := reachable_onlyRead hnodup h
  refine ⟨honly.process, fun fd client hclient => ?_⟩
  obtain ⟨record, halone, hsent, -⟩ := honly.provenance fd client hclient
  exact ⟨record, halone, hsent⟩

def onlyReads (wired : Wired W) (event : Server.Event) : Prop :=
  wired.Permitted event ∧ wired.server.readsOnly event = true

instance (wired : Wired W) (event : Server.Event) :
    Decidable (wired.onlyReads event) :=
  inferInstanceAs (Decidable (_ ∧ _))

/-- Two clients that ask for the same file in one round. -/
theorem reached_alone_two :
    ∃ wired : Wired Disk,
      Machine.replay step onlyReads listening Server.twoClients =
        some wired ∧
      wired.server.fds = [3, 5, 6] ∧
      wired.server.process = { world := Server.fileDisk } ∧
      ∀ fd client, wired.server.record fd = some client →
        ∃ record, Server.Alone Server.fileDisk [{}] fd (wired.heard fd)
          record ∧ SentFrom record client := by
  have hstate : (Machine.replay step onlyReads listening
      Server.twoClients).map (·.server.fds) = some [3, 5, 6] := by
    decide +kernel
  obtain ⟨wired, hwired, hfds⟩ := Option.map_eq_some_iff.mp hstate
  have hreached : Machine.Reachable step ReadsOnly listening wired :=
    (Machine.reachable_of_replay .start hwired).mono
      fun _ _ hchecked => Server.readsOnly_sound hchecked.1 hchecked.2
  obtain ⟨hprocess, halone⟩ := reached_alone listening_nodup hreached
  exact ⟨wired, hwired, hfds, hprocess, halone⟩

end Wired

end Webserv
