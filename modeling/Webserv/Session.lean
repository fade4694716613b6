import Webserv.Served
import Webserv.Machine.Run
import Mathlib.Logic.Function.Basic

namespace Webserv

open Cxx

/-! The process with its connections, as buffers reach `check_request`. -/

structure Session (W : Type) where
  process : Process W
  clients : Int → Option Client

namespace Session

/-- What reaches the request code from the event loop. -/
inductive Event
  | connect (fd : Int) (block : ServerBlock)
  | receive (fd : Int) (bytes : Str)
  | close (fd : Int)

variable {W : Type} [Os W]

def initial (world : W) : Session W where
  process := { world := world }
  clients _ := none

def setClient (session : Session W) (fd : Int) (client : Option Client) :
    Session W :=
  { session with clients := Function.update session.clients fd client }

def step (session : Session W) : Event → Except Fault (Session W)
  | .connect fd block => .ok (session.setClient fd (Client.connect fd block))
  | .close fd => .ok (session.setClient fd none)
  | .receive fd bytes =>
      match session.clients fd with
      | none => .ok session
      | some client =>
          match receive session.process client bytes with
          | .error fault => .error fault
          | .ok (process, client) =>
              .ok { process := process
                    clients := Function.update session.clients fd client }

/-- What the process and every client satisfy on their own is kept by a step
if new connections and handled buffers satisfy it. -/
theorem step_rule (onProcess : Process W → Prop)
    (onClient : Int → Client → Prop) {session next : Session W}
    {event : Event} (hprocess : onProcess session.process)
    (hclients : ∀ fd client, session.clients fd = some client →
      onClient fd client)
    (hconnect : ∀ fd block, event = .connect fd block →
      onClient fd (Client.connect fd block))
    (hreceive : ∀ fd bytes client process' client',
      event = .receive fd bytes → session.clients fd = some client →
      receive session.process client bytes = .ok (process', client') →
      onProcess process' ∧ onClient fd client')
    (h : step session event = .ok next) :
    onProcess next.process ∧
      ∀ fd client, next.clients fd = some client → onClient fd client := by
  -- only the entry of one descriptor changes
  have hupdate : ∀ fd (changed : Option Client),
      (∀ client, changed = some client → onClient fd client) →
      ∀ fd' client, Function.update session.clients fd changed fd' =
        some client → onClient fd' client := by
    intro fd changed hchanged fd' client hclient
    by_cases hfd : fd' = fd
    · subst hfd
      exact hchanged client (by simpa using hclient)
    · exact hclients fd' client (by simpa [hfd] using hclient)
  cases event with
  | connect fd block =>
      obtain rfl := Except.ok.inj h
      refine ⟨hprocess, hupdate fd _ ?_⟩
      rintro client ⟨⟩
      exact hconnect fd block rfl
  | close fd =>
      obtain rfl := Except.ok.inj h
      exact ⟨hprocess, hupdate fd none (by simp)⟩
  | receive fd bytes =>
      rw [step] at h
      split at h
      · obtain rfl := Except.ok.inj h
        exact ⟨hprocess, hclients⟩
      rename_i client hclient
      split at h
      · cases h
      rename_i process' client' hhandled
      obtain rfl := Except.ok.inj h
      obtain ⟨hprocess', hclient'⟩ :=
        hreceive fd bytes client process' client' rfl hclient hhandled
      refine ⟨hprocess', hupdate fd _ ?_⟩
      rintro client ⟨⟩
      exact hclient'

end Session

end Webserv
