import Webserv.Wire
import Webserv.LoopRefinement

namespace Webserv

open Cxx

/-! Where a record of the event loop comes from: what the buffers of its own
connection have made of a new record, and then what has been sent of it. -/

namespace Server

variable {W : Type} [Os W] {server : Server W}

theorem Visited.serverBlockObj {index : Nat} {answers : Answers}
    {next : Server W} (h : Visited server index answers next) :
    next.serverBlockObj = server.serverBlockObj := by
  cases h with
  | received => rw [takeRead_eq]
  | _ => rfl

theorem step_serverBlockObj {event : Event} {next : Server W}
    (haligned : Aligned server) (hnext : server.step event = .ok next) :
    next.serverBlockObj = server.serverBlockObj := by
  cases step_stepped haligned hnext with
  | still => rfl
  | polled => rfl
  | visited _ hvisited => exact hvisited.serverBlockObj

end Server

namespace Wired

variable {W : Type}

/-- A record is made of one that its own buffers have led to, and what the
connection has been promised is what this one had to send. -/
def Provenance (made : List Str → Client → Prop) (heard : List Str)
    (answer : Str) (found : Option Client) : Prop :=
  ∀ client, found = some client →
    ∃ record, made heard record ∧ SentFrom record client ∧
      (client.allRecv = true → answer = record.unsent)

variable [Os W]

omit [Os W] in
theorem listened_not {handed : Option (Int × Str)} {fd : Int}
    (h : ∀ bytes, handed ≠ some (fd, bytes)) (record : Option Client)
    (heard : List Str) :
    listened handed fd record record heard = heard := by
  have hnone : handed.toList.filter (·.1 = fd) = [] := by
    refine List.filter_eq_nil_iff.mpr fun entry hentry hfd => ?_
    have hfd : entry.1 = fd := by simpa using hfd
    exact h entry.2 (by rw [← hfd]; simpa using hentry)
  unfold listened
  cases record with
  | none => rfl
  | some client => simp [hnone]

/-- What a new record satisfies, and what its buffers keep, holds of the origin
of each record. -/
theorem Provenance.dealt {made : List Str → Client → Prop}
    {turn : Option (Client × Answers)} {handed : Option (Int × Str)}
    {listener : Option ServerConfig} {blocks : List ServerBlock}
    {process process' : Process W} {fd : Int}
    {before after : Option Client} {sent sent' answer : Str}
    {heard : List Str}
    (hdealt : Server.Dealt turn handed listener blocks process process' fd
      before sent after sent')
    (hconnect : ∀ block ∈ blocks, made [] (Client.connect fd block))
    (hreceive : ∀ client bytes client', before = some client →
      handed = some (fd, bytes) → client.allRecv = false →
        made heard client →
        receive process client bytes = .ok (process', client') →
          made (heard ++ [bytes]) client')
    (h : Provenance made heard answer before) :
    Provenance made (listened handed fd before after heard)
      (promise before after answer) after := by
  intro client hclient
  cases hdealt with
  | same hnot =>
      obtain ⟨record, hmade, hsent, hanswer⟩ := h client hclient
      rw [listened_not hnot]
      refine ⟨record, hmade, hsent, fun hall => ?_⟩
      rw [hclient]
      simpa [promise, hall] using hanswer hall
  | connected _ hblock =>
      obtain rfl := Option.some.inj hclient
      exact ⟨_, hconnect _ (List.mem_of_getElem? hblock), .refl _, fun hall => by cases hall⟩
  | @received old new bytes _ hhanded hopen hran =>
      obtain rfl := Option.some.inj hclient
      obtain ⟨record, hmade, hsent, -⟩ := h old rfl
      -- a record that waits has not been sent from
      obtain rfl := hsent.waiting (hsent.allRecv ▸ hopen)
      have hheard : listened handed fd (some old) (some new) heard =
          heard ++ [bytes] := by
        simp [listened, hopen, hhanded]
      rw [hheard]
      refine ⟨new, hreceive old bytes new rfl hhanded hopen hmade hran,
        .refl _, fun hall => ?_⟩
      simp [promise, hopen, hall]
  | @wrote old new answers _ bytes hturn hall hwritten =>
      obtain rfl := Option.some.inj hclient
      obtain ⟨record, hmade, hsent, hanswer⟩ := h old rfl
      have hheard : listened handed fd (some old) (some new) heard =
          heard := by
        simp [listened, hall]
      rw [hheard]
      refine ⟨record, hmade, hsent.write hall (congrArg Prod.snd hwritten),
        fun hall' => ?_⟩
      simpa [promise, hall, hall'] using hanswer hall
  | closed => cases hclient
  | left => cases hclient

end Wired

end Webserv
