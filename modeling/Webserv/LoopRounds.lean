import Webserv.LoopSteps
import Webserv.SendIsolation
import Webserv.Machine.Simulation

namespace Webserv

open Cxx

/-! A round of the event loop: the visits between two polls go down the slots
while connections come and go. -/

namespace Server

variable {W : Type} {server : Server W}

def nextSlot (server : Server W) : Option PollFd :=
  match server.cursor with
  | 0 => none
  | index + 1 => server.pollfds[index]?

section Rounds

variable [Os W]

def visitedSlots (server : Server W) : List Answers → List PollFd
  | [] => []
  | answers :: rest =>
      server.nextSlot.toList ++
        match server.step (.visit answers) with
        | .error _ => []
        | .ok next => visitedSlots next rest

theorem visit_slots (haligned : Aligned server) {index : Nat}
    {answers : Answers} {next : Server W} (hcursor : server.cursor = index + 1)
    (hnext : server.step (.visit answers) = .ok next) :
    next.cursor = index ∧
      next.pollfds.take index = server.pollfds.take index := by
  cases step_stepped haligned hnext with
  | still =>
      -- with a slot to visit, the cursor moves on
      rw [step, hcursor] at hnext
      have hvisited := visit_visited (haligned.atSlot index) hnext
      exact ⟨hvisited.cursor, hvisited.take_pollfds⟩
  | visited hat hvisited =>
      obtain rfl : _ = index := Nat.succ.inj (hat.symm.trans hcursor)
      exact ⟨hvisited.cursor, hvisited.take_pollfds⟩

theorem visits_serve {answers : List Answers} {final : Server W}
    (hkept : Kept server) (hcursor : server.cursor = answers.length)
    (hbelow : server.cursor ≤ server.pollfds.length)
    (hpermitted : Machine.Meets step Permitted server
      (answers.map Event.visit))
    (hrun : Machine.run step server (answers.map Event.visit) = .ok final) :
    visitedSlots server answers =
        (server.pollfds.take server.cursor).reverse ∧
      final.cursor = 0 := by
  induction answers generalizing server with
  | nil =>
      obtain rfl := Except.ok.inj hrun
      rw [hcursor]
      exact ⟨rfl, rfl⟩
  | cons answer rest ih =>
      obtain ⟨next, hnext, hrest⟩ := Machine.run_cons_ok hrun
      rw [List.length_cons] at hcursor
      obtain ⟨hmoved, htake⟩ := visit_slots hkept.aligned hcursor hnext
      have hlengths := congrArg List.length htake
      simp only [List.length_take] at hlengths
      obtain ⟨hslots, hend⟩ := ih (hkept.step hpermitted.1 hnext) hmoved
        (by omega) (hpermitted.2 next hnext) hrest
      have hindex : rest.length < server.pollfds.length := by omega
      refine ⟨?_, hend⟩
      have hslot : server.nextSlot = some server.pollfds[rest.length] := by
        unfold nextSlot
        rw [hcursor]
        exact List.getElem?_eq_getElem hindex
      rw [visitedSlots, hnext, hslot]
      simp only
      rw [hslots, hmoved, htake, hcursor, List.take_succ_eq_append_getElem hindex,
        List.reverse_append]
      rfl

/-- Between two polls every slot is looked at exactly once, from the last one
to the first, and ready for what `poll` has reported of it: no connection is
passed over when others are closed or accepted meanwhile, and none that is
accepted meanwhile is looked at. -/
theorem round_serves {answers : List Answers} {final : Server W}
    {reported : Nat → Revents} (hreached : Reached server)
    (hstart : server.cursor = 0)
    (hlength : answers.length = server.pollfds.length)
    (hpermitted : Machine.Meets step Permitted server
      (.poll reported :: answers.map Event.visit))
    (hrun : Machine.run step server
      (.poll reported :: answers.map Event.visit) = .ok final) :
    visitedSlots (server.poll reported) answers =
        (server.poll reported).pollfds.reverse ∧
      (visitedSlots (server.poll reported) answers).map PollFd.fd =
        server.fds.reverse ∧
      final.cursor = 0 := by
  obtain ⟨next, hnext, hrest⟩ := Machine.run_cons_ok hrun
  have hkept := hreached.kept.step hpermitted.1 hnext
  have hmeets := hpermitted.2 next hnext
  rw [step, if_pos hstart] at hnext
  obtain rfl := Except.ok.inj hnext
  have hcursor : (server.poll reported).cursor = server.pollfds.length := rfl
  have hpollfds : (server.poll reported).pollfds.length =
      server.pollfds.length := by
    simp [poll]
  obtain ⟨hslots, hend⟩ := visits_serve hkept (hcursor.trans hlength.symm)
    (by omega) hmeets hrest
  rw [hcursor, ← hpollfds, List.take_length] at hslots
  refine ⟨hslots, ?_, hend⟩
  rw [hslots, List.map_reverse, poll_fds]
  rfl

def changingRound : List Answers := [{}, { accepted := some 6 }]

theorem round_serves_changing :
    ∃ server final, Machine.replay step Permitted listening
        [.poll fun _ => { pollIn := true }, .visit { accepted := some 5 }] =
          some server ∧
      server.fds = [3, 5] ∧ final.fds = [3, 6] ∧
      Machine.run step server (.poll (fun _ => { pollIn := true }) ::
        changingRound.map Event.visit) = .ok final ∧
      (visitedSlots (server.poll fun _ => { pollIn := true })
        changingRound).map PollFd.fd = [5, 3] := by
  have hstate : (Machine.replay step Permitted listening
      [.poll fun _ => { pollIn := true },
        .visit { accepted := some 5 }]).map (fun server =>
          (server.fds, server.cursor, server.pollfds.length,
            (Machine.replay step Permitted server
              (.poll (fun _ => { pollIn := true }) ::
                changingRound.map Event.visit)).map Server.fds)) =
      some ([3, 5], 0, 2, some [3, 6]) := by decide +kernel
  obtain ⟨server, hserver, hfields⟩ := Option.map_eq_some_iff.mp hstate
  obtain ⟨hfds, hfields⟩ := Prod.mk.inj hfields
  obtain ⟨hcursor, hfields⟩ := Prod.mk.inj hfields
  obtain ⟨hlength, hround⟩ := Prod.mk.inj hfields
  obtain ⟨final, hfinal, hafter⟩ := Option.map_eq_some_iff.mp hround
  obtain ⟨hrun, hmeets⟩ := Machine.run_of_replay hfinal
  have hserved := round_serves (reached_of_replay hserver) hcursor
    (show changingRound.length = server.pollfds.length from hlength.symm)
    hmeets hrun
  refine ⟨server, final, hserver, hfds, hafter, hrun, ?_⟩
  rw [hserved.2.1, hfds]
  rfl

end Rounds

end Server

end Webserv
