import Webserv.StaticFiles
import Webserv.Stored
import Webserv.Machine.Progress

namespace Webserv

open Cxx Coding Files

/-! A file that one client has stored, and another one reads. -/

namespace Wired

variable {W : Type} [Os W] {root wired next : Wired W}

/-- The condition on one event: no file has changed that is being sent, each
`send` that it makes fails or accepts all that it is offered, and the connection
on a descriptor is not closed. -/
def Stays (fd : Int) : Wired W → Server.Event → Prop :=
  Machine.Keeps step SteadySends fun next =>
    (next.server.record fd).isSome = true

instance (fd : Int) (wired : Wired W) (event : Server.Event) :
    Decidable (Stays fd wired event) :=
  inferInstanceAs (Decidable (Machine.Keeps _ _ _ _ _))

structure Answered (fd : Int) (answer : Str) (wired : Wired W) : Prop
    extends Invariant Eq wired where
  answered : wired.answer fd = answer
  complete : ∃ client, wired.server.record fd = some client ∧
    client.allRecv = true

theorem Answered.step {fd : Int} {answer : Str} {event : Server.Event}
    (h : Answered fd answer wired) (hstays : Stays fd wired event)
    (hnext : wired.step event = .ok next) : Answered fd answer next := by
  have hafter := step_whole h.toInvariant hstays.1.1 hnext
  have hsome : (next.server.record fd).isSome = true := hstays.2 next hnext
  obtain ⟨client, hrecord, hall⟩ := h.complete
  obtain ⟨server, hstep, hnext⟩ := bind_ok hnext
  obtain rfl := Except.ok.inj hnext
  have hdealt := Server.step_dealt h.kept hstays.1.1.1 hstep fd
  rw [hrecord] at hdealt
  have hpromise {after : Client} (hfound : server.record fd = some after)
      (hdone : after.allRecv = true) :
      promise (wired.server.record fd) (server.record fd) (wired.answer fd) =
        answer := by
    rw [hrecord, hfound, ← h.answered]
    simp [promise, hall, hdone]
  generalize hfound : server.record fd = found at hdealt hsome
  generalize server.sentTo fd = sent' at hdealt
  generalize wired.server.sentTo fd = sent at hdealt
  cases hdealt with
  | same _ => exact ⟨hafter, hpromise hfound hall, client, hfound, hall⟩
  | received _ hopen =>
      rw [hall] at hopen
      cases hopen
  | @wrote _ after _ _ _ _ _ hwritten =>
      have hsent := (SentFrom.refl client).write hall
        (congrArg Prod.snd hwritten)
      have hdone : after.allRecv = true := hsent.allRecv.trans hall
      exact ⟨hafter, hpromise hfound hdone, after, hfound, hdone⟩
  | closed => cases hsome
  | left => cases hsome

def storing : Wired Disk :=
  initial (.ofDirectories [Disk.upload]) [storedBlock]
    [{ serverBlockIndex := 0, fd := 3 }]

end Wired

end Webserv
