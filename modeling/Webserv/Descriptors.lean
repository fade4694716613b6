import Webserv.Aligned
import Webserv.Disk

namespace Webserv

open Cxx

/-! The descriptors of the event loop: those that are open, and those that have
been closed and not handed out again. -/

namespace Server

variable {W : Type}

def fds (server : Server W) : List Int := server.pollfds.map PollFd.fd

/-- What `accept` returns in the visit of a slot, where it is called. -/
def acceptsAt (server : Server W) (index : Nat) (answers : Answers) :
    Option Int :=
  match server.pollfds[index]? with
  | none => none
  | some polled =>
      if polled.revents.trouble then none
      else if polled.revents.pollIn then
        match server.findConfig polled.fd with
        | none => none
        | some config =>
            if config.serverBlockIndex < 0 then none
            else
              match server.serverBlockObj[config.serverBlockIndex.toNat]? with
              | none => none
              | some _ => answers.accepted
      else none

def accepts (server : Server W) : Event → Option Int
  | .poll _ => none
  | .visit answers =>
      match server.cursor with
      | 0 => none
      | index + 1 => server.acceptsAt index answers

/-- How a step moves descriptors in and out of the vectors. -/
structure Moves (server next : Server W) (fresh ended : List Int) :
    Prop where
  closed : next.closed = server.closed ++ ended
  fds : ∀ fd, fd ∈ next.fds ↔
    (fd ∈ server.fds ∨ fd ∈ fresh) ∧ fd ∉ ended
  kept : fresh = [] → next.fds.Sublist server.fds
  listening : next.pollfdsServers = server.pollfdsServers

namespace Moves

variable {server next : Server W} {fresh ended : List Int}

theorem of_same (hclosed : next.closed = server.closed)
    (hfds : next.fds = server.fds)
    (hlistening : next.pollfdsServers = server.pollfdsServers) :
    Moves server next [] [] := by
  refine ⟨by simp [hclosed], by simp [hfds], ?_, hlistening⟩
  intro _
  rw [hfds]

theorem trans {last : Server W} {more : List Int}
    (hfirst : Moves server next fresh ended)
    (hsecond : Moves next last [] more) :
    Moves server last fresh (ended ++ more) := by
  refine ⟨?_, ?_, ?_, hsecond.listening.trans hfirst.listening⟩
  · rw [hsecond.closed, hfirst.closed, List.append_assoc]
  · intro fd
    rw [hsecond.fds, hfirst.fds]
    simp [and_assoc]
  · intro hnone
    exact (hsecond.kept rfl).trans (hfirst.kept hnone)

end Moves

variable {server : Server W}

theorem addClient_moves (fd : Int) (block : ServerBlock) :
    Moves server (server.addClient fd block) [fd] [] := by
  refine ⟨?_, ?_, ?_, rfl⟩
  · simp [addClient]
  · simp [addClient, fds]
  · intro hnone
    cases hnone

theorem giveUp_moves {fd : Int} (hnew : fd ∉ server.fds) :
    Moves server (server.giveUp fd) [fd] [fd] := by
  refine ⟨rfl, fun other => ?_, fun hnone => absurd hnone (by simp), rfl⟩
  change other ∈ server.fds ↔ _
  constructor
  · intro hmem
    refine ⟨.inl hmem, fun hsame => ?_⟩
    rw [List.mem_singleton] at hsame
    exact hnew (hsame ▸ hmem)
  · rintro ⟨hold | hsame, hother⟩
    · exact hold
    · exact absurd hsame hother

theorem acceptClient_moves {answers : Answers} (block : ServerBlock)
    (hnew : ∀ fd, answers.accepted = some fd → fd ∉ server.fds) :
    ∃ ended, Moves server (server.acceptClient answers block)
      answers.accepted.toList ended := by
  unfold acceptClient
  cases haccepted : answers.accepted with
  | none => exact ⟨[], .of_same rfl rfl rfl⟩
  | some fd =>
      simp only
      split
      · exact ⟨_, giveUp_moves (hnew fd haccepted)⟩
      · exact ⟨_, addClient_moves fd block⟩

theorem mem_eraseIdx_fds {index : Nat} {polled : PollFd}
    (hnodup : server.fds.Nodup)
    (hpolled : server.pollfds[index]? = some polled) (fd : Int) :
    fd ∈ (server.pollfds.eraseIdx index).map PollFd.fd ↔
      fd ∈ server.fds ∧ fd ≠ polled.fd := by
  obtain ⟨hindex, rfl⟩ := List.getElem?_eq_some_iff.mp hpolled
  have hinside : index < server.fds.length := by simpa [fds] using hindex
  have hkey : server.fds[index] = server.pollfds[index].fd := by simp [fds]
  rw [← List.eraseIdx_map, ← hkey]
  change fd ∈ server.fds.eraseIdx index ↔ _
  rw [← List.Nodup.erase_getElem hnodup index hinside, hnodup.mem_erase_iff]
  exact and_comm

theorem moves_of_erased {next : Server W} {index : Nat} {polled : PollFd}
    (hnodup : server.fds.Nodup)
    (hpolled : server.pollfds[index]? = some polled)
    (hclosed : next.closed = server.closed ++ [polled.fd])
    (hpollfds : next.pollfds = server.pollfds.eraseIdx index)
    (hlistening : next.pollfdsServers = server.pollfdsServers) :
    Moves server next [] [polled.fd] := by
  have hfds := mem_eraseIdx_fds hnodup hpolled
  refine ⟨hclosed, ?_, ?_, hlistening⟩
  · intro fd
    rw [fds, hpollfds, hfds]
    simp
  · intro _
    rw [fds, hpollfds]
    exact (List.eraseIdx_sublist ..).map _

theorem closeClientConnection_moves (hnodup : server.fds.Nodup)
    (index : Nat) :
    ∃ ended, Moves server (server.closeClientConnection index) [] ended := by
  unfold closeClientConnection
  cases hpolled : server.pollfds[index]? with
  | none => exact ⟨[], .of_same rfl rfl rfl⟩
  | some polled =>
      simp only
      cases server.clients[server.getClientIndexByFd polled.fd]? with
      | none => exact ⟨_, moves_of_erased hnodup hpolled rfl rfl rfl⟩
      | some client =>
          simp only
          split
          · exact ⟨_, moves_of_erased hnodup hpolled rfl rfl rfl⟩
          · exact ⟨[], .of_same rfl (setEvents_fds ..) rfl⟩

theorem handleClientWrite_moves (hnodup : server.fds.Nodup) (index : Nat)
    (answers : Answers) :
    ∃ ended, Moves server (server.handleClientWrite index answers) []
      ended := by
  unfold handleClientWrite
  cases server.pollfds[index]? with
  | none => exact ⟨[], .of_same rfl rfl rfl⟩
  | some polled =>
      simp only
      cases server.clients[server.getClientIndexByFd polled.fd]? with
      | none => exact closeClientConnection_moves hnodup index
      | some client =>
          simp only
          have hlogged : ∀ bytes, Moves server (server.logSent polled.fd bytes)
              [] [] := fun _ => .of_same rfl rfl rfl
          cases (clientWrite client answers).2 with
          | none =>
              obtain ⟨ended, hclosed⟩ := @closeClientConnection_moves W
                (server.logSent polled.fd (clientWrite client answers).1)
                hnodup index
              exact ⟨_, (hlogged _).trans hclosed⟩
          | some client' => exact ⟨[], .of_same rfl rfl rfl⟩

theorem finishWrite_moves {next : Server W} (hnodup : server.fds.Nodup)
    {index clientIndex : Nat}
    (hnext : server.finishWrite index clientIndex = .ok next) :
    ∃ ended, Moves server next [] ended := by
  unfold finishWrite at hnext
  split at hnext
  · cases hnext
  split at hnext
  · obtain rfl := Except.ok.inj hnext
    exact ⟨[], .of_same rfl rfl rfl⟩
  split at hnext
  · cases hnext
  have hset : Moves server (server.setEvents index .pollIn) [] [] :=
    .of_same rfl (setEvents_fds ..) rfl
  have hnodup' : (server.setEvents index .pollIn).fds.Nodup := by
    simpa [fds] using hnodup
  simp only at hnext
  split at hnext
  · obtain rfl := Except.ok.inj hnext
    obtain ⟨ended, hclosed⟩ := closeClientConnection_moves hnodup' index
    exact ⟨_, hset.trans hclosed⟩
  · obtain rfl := Except.ok.inj hnext
    exact ⟨[], .of_same rfl (setEvents_fds ..) rfl⟩

theorem visitWrite_moves {next : Server W} (hnodup : server.fds.Nodup)
    {index : Nat} {polled : PollFd} {answers : Answers}
    (hnext : server.visitWrite index polled answers = .ok next) :
    ∃ ended, Moves server next [] ended := by
  unfold visitWrite at hnext
  simp only at hnext
  split at hnext
  · obtain rfl := Except.ok.inj hnext
    exact closeClientConnection_moves hnodup index
  obtain ⟨ended, hwritten⟩ := handleClientWrite_moves hnodup index answers
  obtain ⟨more, hfinished⟩ :=
    finishWrite_moves ((hwritten.kept rfl).nodup hnodup) hnext
  exact ⟨_, hwritten.trans hfinished⟩

variable [Os W]

theorem visitRead_moves {next : Server W} (hnodup : server.fds.Nodup)
    {index : Nat} {polled : PollFd} {answers : Answers}
    (hnext : server.visitRead index polled answers = .ok next) :
    ∃ ended, Moves server next [] ended := by
  unfold visitRead at hnext
  simp only at hnext
  split at hnext
  · obtain rfl := Except.ok.inj hnext
    exact closeClientConnection_moves hnodup index
  split at hnext
  · obtain rfl := Except.ok.inj hnext
    exact closeClientConnection_moves hnodup index
  split at hnext
  · cases hnext
  obtain rfl := Except.ok.inj hnext
  refine ⟨[], .of_same ?_ ?_ ?_⟩
  · split <;> rfl
  · split
    · exact setEvents_fds ..
    · rfl
  · split <;> rfl

theorem visit_moves {next : Server W} (hnodup : server.fds.Nodup)
    {index : Nat} {answers : Answers}
    (hnew : ∀ fd, server.acceptsAt index answers = some fd →
      fd ∉ server.fds)
    (hnext : server.visit index answers = .ok next) :
    ∃ ended, Moves server next (server.acceptsAt index answers).toList
      ended := by
  unfold visit at hnext
  unfold acceptsAt at hnew ⊢
  cases hpolled : server.pollfds[index]? with
  | none =>
      rw [hpolled] at hnext
      obtain rfl := Except.ok.inj hnext
      exact ⟨[], .of_same rfl rfl rfl⟩
  | some polled =>
      rw [hpolled] at hnext hnew
      simp only at hnext hnew ⊢
      by_cases htrouble : polled.revents.trouble = true
      · rw [if_pos htrouble] at hnext ⊢
        split at hnext
        · obtain rfl := Except.ok.inj hnext
          exact ⟨[], .of_same rfl rfl rfl⟩
        · obtain rfl := Except.ok.inj hnext
          exact closeClientConnection_moves hnodup index
      rw [if_neg htrouble] at hnext hnew ⊢
      by_cases hin : polled.revents.pollIn = true
      · rw [if_pos hin] at hnext hnew ⊢
        cases hconfig : server.findConfig polled.fd with
        | none =>
            rw [hconfig] at hnext
            exact visitRead_moves hnodup hnext
        | some config =>
            rw [hconfig] at hnext hnew
            obtain rfl := Except.ok.inj hnext
            simp only at hnew ⊢
            unfold visitAccept
            by_cases hindex : config.serverBlockIndex < 0
            · rw [if_pos hindex, if_pos hindex]
              exact ⟨[], .of_same rfl rfl rfl⟩
            rw [if_neg hindex] at hnew ⊢
            rw [if_neg hindex]
            cases hblock :
              server.serverBlockObj[config.serverBlockIndex.toNat]? with
            | none => exact ⟨[], .of_same rfl rfl rfl⟩
            | some block =>
                rw [hblock] at hnew
                exact acceptClient_moves block hnew
      rw [if_neg hin] at hnext ⊢
      split at hnext
      · exact visitWrite_moves hnodup hnext
      · obtain rfl := Except.ok.inj hnext
        exact ⟨[], .of_same rfl rfl rfl⟩

theorem step_moves {next : Server W} (hnodup : server.fds.Nodup)
    {event : Event}
    (hnew : ∀ fd, server.accepts event = some fd → fd ∉ server.fds)
    (hnext : server.step event = .ok next) :
    ∃ ended, Moves server next (server.accepts event).toList ended := by
  cases event with
  | poll reported =>
      rw [step] at hnext
      split at hnext
      · obtain rfl := Except.ok.inj hnext
        exact ⟨[], .of_same rfl (poll_fds ..) rfl⟩
      · obtain rfl := Except.ok.inj hnext
        exact ⟨[], .of_same rfl rfl rfl⟩
  | visit answers =>
      rw [step] at hnext
      unfold accepts at hnew ⊢
      cases hcursor : server.cursor with
      | zero =>
          rw [hcursor] at hnext
          obtain rfl := Except.ok.inj hnext
          exact ⟨[], .of_same rfl rfl rfl⟩
      | succ index =>
          rw [hcursor] at hnext hnew
          have hmoved : (fds { server with cursor := index }).Nodup := hnodup
          obtain ⟨ended, hmoves⟩ := visit_moves hmoved hnew hnext
          exact ⟨ended, hmoves.closed, hmoves.fds, hmoves.kept,
            hmoves.listening⟩

theorem visit_acceptsAt (server : Server W) (index : Nat)
    (answers : Answers) :
    server.visit index answers = server.visit index
      { answers with accepted := server.acceptsAt index answers } := by
  unfold visit acceptsAt
  cases server.pollfds[index]? with
  | none => rfl
  | some polled =>
      simp only
      split
      · rfl
      split
      · cases server.findConfig polled.fd with
        | none => rfl
        | some config =>
            simp only [visitAccept]
            split
            · rfl
            cases server.serverBlockObj[config.serverBlockIndex.toNat]? with
            | none => rfl
            | some block => rfl
      · rfl

theorem step_aligned_of_accepts {next : Server W} (h : Aligned server)
    {event : Event}
    (hfresh : ∀ fd, server.accepts event = some fd → fd ∉ server.fds)
    (hnext : server.step event = .ok next) : Aligned next := by
  cases event with
  | poll reported =>
      exact step_aligned h (show Permitted server (.poll reported) from
        trivial) hnext
  | visit answers =>
      rw [step] at hnext
      unfold accepts at hfresh
      cases hcursor : server.cursor with
      | zero =>
          rw [hcursor] at hnext
          obtain rfl := Except.ok.inj hnext
          exact h
      | succ index =>
          rw [hcursor] at hnext hfresh
          have hmoved : Aligned { server with cursor := index } :=
            ⟨h.fds, h.clientFds, h.nodup, h.listening, h.configured,
              h.keepAlive⟩
          have hvisit : visit { server with cursor := index } index answers =
              .ok next := hnext
          rw [visit_acceptsAt] at hvisit
          exact hmoved.visit hfresh hvisit

end Server

/-! The event loop beside a record of its descriptors. -/

structure Watched (W : Type) where
  server : Server W
  /-- Created or accepted, and not closed since. -/
  opened : List Int
  /-- Closed, and not handed out again since. -/
  gone : List Int

namespace Watched

variable {W : Type}

def initial (world : W) (blocks : List ServerBlock)
    (created : List ServerConfig) : Watched W :=
  let server := Server.initializeServers world blocks created
  { server := server
    opened := server.fds
    gone := [] }

variable [Os W]

def step (watched : Watched W) (event : Server.Event) :
    Except Fault (Watched W) := do
  let next ← watched.server.step event
  let fresh := (watched.server.accepts event).toList
  let ended := next.closed.drop watched.server.closed.length
  return {
    server := next
    opened := (watched.opened ++ fresh).filter (· ∉ ended)
    gone := watched.gone.filter (· ∉ fresh) ++ ended }

omit [Os W] in
/-- `accept` returns a descriptor that is not open. -/
def Fresh (watched : Watched W) (event : Server.Event) : Prop :=
  ∀ fd, watched.server.accepts event = some fd → fd ∉ watched.opened

instance (watched : Watched W) (event : Server.Event) :
    Decidable (Fresh watched event) :=
  match haccepts : watched.server.accepts event with
  | none => .isTrue (by simp [Fresh, haccepts])
  | some fd =>
      decidable_of_iff (fd ∉ watched.opened) (by simp [Fresh, haccepts])

structure Invariant (sockets : List Int) (watched : Watched W) : Prop where
  aligned : watched.server.Aligned
  sockets : watched.server.pollfdsServers.map PollFd.fd = sockets
  opened : ∀ fd, fd ∈ watched.opened ↔ fd ∈ watched.server.fds
  gone : ∀ fd ∈ watched.gone, fd ∉ watched.server.fds

theorem step_invariant {sockets : List Int} {watched next : Watched W}
    {event : Server.Event} (h : Invariant sockets watched)
    (hfresh : Fresh watched event) (hnext : watched.step event = .ok next) :
    Invariant sockets next := by
  obtain ⟨server, hstep, hnext⟩ := bind_ok hnext
  have hnew : ∀ fd, watched.server.accepts event = some fd →
      fd ∉ watched.server.fds := by
    intro fd haccepts hmem
    exact hfresh fd haccepts ((h.opened fd).mpr hmem)
  obtain ⟨ended, hmoves⟩ := Server.step_moves h.aligned.nodup hnew
    hstep
  have hended : server.closed.drop watched.server.closed.length = ended := by
    rw [hmoves.closed, List.drop_left]
  simp only [hended] at hnext
  obtain rfl := Except.ok.inj hnext
  refine ⟨Server.step_aligned_of_accepts h.aligned hnew hstep, ?_, ?_, ?_⟩
  · rw [hmoves.listening]
    exact h.sockets
  · intro fd
    rw [hmoves.fds]
    simp [h.opened, or_and_right]
  · intro fd hfd
    rw [hmoves.fds]
    rcases List.mem_append.mp hfd with hold | hclosed
    · obtain ⟨hgone, hkept⟩ := List.mem_filter.mp hold
      have hleft := h.gone fd hgone
      simp only [decide_eq_true_eq] at hkept
      simp [hleft, hkept]
    · simp [hclosed]

omit [Os W] in
theorem initial_invariant (world : W) (blocks : List ServerBlock)
    {created : List ServerConfig}
    (hnodup : ((created.filter (0 ≤ ·.fd)).map ServerConfig.fd).Nodup) :
    Invariant ((created.filter (0 ≤ ·.fd)).map ServerConfig.fd)
      (initial world blocks created) := by
  refine ⟨Server.aligned_initializeServers world blocks hnodup, ?_, ?_, ?_⟩
  · simp [initial, Server.initializeServers, Function.comp_def]
  · intro fd
    rfl
  · intro fd hfd
    cases hfd

/-- What the vectors of the event loop hold in every state it reaches. -/
structure Bookkeeping (sockets : List Int) (watched : Watched W) :
    Prop where
  pollfds : watched.server.pollfds.map PollFd.fd =
    sockets ++ watched.server.clients.map Client.clientId
  pollfdsClients : watched.server.pollfdsClients.map PollFd.fd =
    watched.server.clients.map Client.clientId
  once : (watched.server.pollfds.map PollFd.fd).Nodup
  gone : ∀ fd ∈ watched.gone,
    fd ∉ watched.server.pollfds.map PollFd.fd ∧
    fd ∉ watched.server.clients.map Client.clientId ∧
    fd ∉ watched.server.pollfdsClients.map PollFd.fd

theorem bookkeeping {world : W} {blocks : List ServerBlock}
    {created : List ServerConfig}
    (hnodup : ((created.filter (0 ≤ ·.fd)).map ServerConfig.fd).Nodup)
    {watched : Watched W}
    (h : Machine.Reachable step Fresh (initial world blocks created)
      watched) :
    Bookkeeping ((created.filter (0 ≤ ·.fd)).map ServerConfig.fd)
      watched := by
  have hinvariant := h.invariant (fun _ _ _ => step_invariant)
    (initial_invariant world blocks hnodup)
  have hpollfds := hinvariant.aligned.fds
  rw [hinvariant.sockets] at hpollfds
  refine ⟨hpollfds, hinvariant.aligned.clientFds, hinvariant.aligned.nodup,
    ?_⟩
  intro fd hfd
  have hpolled := hinvariant.gone fd hfd
  have hclient : fd ∉ watched.server.clients.map Client.clientId := by
    intro hmem
    apply hpolled
    rw [Server.fds, hpollfds]
    exact List.mem_append_right _ hmem
  refine ⟨hpolled, hclient, ?_⟩
  rw [hinvariant.aligned.clientFds]
  exact hclient

def visits : List Server.Event := [
  .poll fun _ => { pollIn := true },
  .visit { accepted := some 5 },
  .poll fun i => { pollIn := i = 0 },
  .visit {}, .visit { accepted := some 6 },
  .poll fun i => { pollIn := i = 1 },
  .visit {}, .visit {}, .visit {}]

theorem bookkeeping_visits :
    ∃ watched, Machine.replay step Fresh
        (initial (Disk.ofDirectories []) [{}]
          [{ serverBlockIndex := 0, fd := 3 }]) visits = some watched ∧
      (watched.server.fds, watched.gone) = ([3, 6], [5]) ∧
      Bookkeeping [3] watched := by
  have hstate : (Machine.replay step Fresh
      (initial (Disk.ofDirectories []) [{}]
        [{ serverBlockIndex := 0, fd := 3 }]) visits).map
      (fun watched => (watched.server.fds, watched.gone)) =
        some ([3, 6], [5]) := by decide +kernel
  obtain ⟨watched, hreplay, hfds⟩ := Option.map_eq_some_iff.mp hstate
  refine ⟨watched, hreplay, hfds, ?_⟩
  exact bookkeeping (by decide)
    (Machine.reachable_of_replay .start hreplay)

end Watched

end Webserv
