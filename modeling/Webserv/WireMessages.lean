import Webserv.Provenance
import Webserv.RequestRules
import Webserv.AnswerRuns

namespace Webserv

open Cxx Coding

/-! What a client reads from its socket, from the first byte of its connection
to the last: the message and the file of one answer. -/

theorem Untouched.unsent_eq {client : Client} (h : Untouched client) :
    client.unsent = client.response.response ++
      client.response.fileStream.content.getD [] :=
  flatten_offers_fresh h.unsent h.stream

/-- The record that a connection's buffers have led to, one after the other, none
of which has run a script. -/
inductive Led (W : Type) [Os W] (fd : Int) (block : ServerBlock) :
    List Str → Client → Prop
  | connect : Led W fd block [] (.connect fd block)
  | receive {process process' : Process W} {buffers : List Str} {bytes : Str}
      {client client' : Client} : Led W fd block buffers client →
        receive process client bytes = .ok (process', client') →
          cgiBodies (actsSince process process') = [] →
            Led W fd block (buffers ++ [bytes]) client'

theorem Led.handled {W : Type} [Os W] {fd : Int} {block : ServerBlock}
    {buffers : List Str} {client : Client}
    (h : Led W fd block buffers client) : Handled W fd block client := by
  induction h with
  | connect => exact .connect
  | receive _ hreceive hacts ih => exact ih.receive hreceive hacts

namespace Wired

variable {W : Type} [Os W]

/-- A record that the buffers of its connection have led to, none of which has
run a script, and that nothing has been sent of. -/
structure Quiet (blocks : List ServerBlock) (fd : Int) (buffers : List Str)
    (record : Client) : Prop where
  led : ∃ block ∈ blocks, Led W fd block buffers record
  untouched : Untouched record

def NoScript (wired : Wired W) (event : Server.Event) : Prop :=
  ∀ next, wired.step event = .ok next →
    cgiBodies (actsSince wired.server.process next.server.process) = []

instance (wired : Wired W) (event : Server.Event) :
    Decidable (wired.NoScript event) :=
  match hnext : wired.step event with
  | .error _ => .isTrue fun _ hok => by rw [hnext] at hok; cases hok
  | .ok next =>
      decidable_of_iff (cgiBodies (actsSince wired.server.process
          next.server.process) = [])
        ⟨fun hnone other hok => by
          obtain rfl := Except.ok.inj (hnext.symm.trans hok)
          exact hnone, fun h => h next hnext⟩

structure Sourced (blocks : List ServerBlock) (wired : Wired W) : Prop
    extends Invariant Eq wired where
  configured : wired.server.serverBlockObj = blocks
  provenance : ∀ fd, Provenance (Quiet (W := W) blocks fd)
    (wired.heard fd) (wired.answer fd) (wired.server.record fd)

theorem step_sourced {blocks : List ServerBlock} {wired next : Wired W}
    {event : Server.Event} (h : Sourced blocks wired)
    (hwhole : wired.WholeSends event) (hquiet : wired.NoScript event)
    (hnext : wired.step event = .ok next) : Sourced blocks next := by
  have hafter := step_whole h.toInvariant hwhole hnext
  have hacts := hquiet next hnext
  obtain ⟨server, hstep, hnext⟩ := bind_ok hnext
  obtain rfl := Except.ok.inj hnext
  refine ⟨hafter, ?_, fun fd => ?_⟩
  · rw [← h.configured]
    exact Server.step_serverBlockObj h.kept.aligned hstep
  · have hdealt := Server.step_dealt h.kept hwhole.1 hstep fd
    rw [h.configured] at hdealt
    refine (h.provenance fd).dealt hdealt (fun block hblock =>
      ⟨⟨block, hblock, .connect⟩, untouched_connect fd block⟩) ?_
    intro old bytes new _ _ _ hquiet hreceive
    obtain ⟨block, hblock, hled⟩ := hquiet.led
    exact ⟨⟨block, hblock, hled.receive hreceive hacts⟩,
      (untouched_rule W).receive hreceive hquiet.untouched⟩

def MessageSends (wired : Wired W) (event : Server.Event) : Prop :=
  wired.SteadySends event ∧ wired.NoScript event

instance (wired : Wired W) (event : Server.Event) :
    Decidable (wired.MessageSends event) :=
  inferInstanceAs (Decidable (_ ∧ _))

theorem reachable_sourced {world : W} {blocks : List ServerBlock}
    {created : List ServerConfig}
    (hnodup : ((created.filter (0 ≤ ·.fd)).map ServerConfig.fd).Nodup)
    {wired : Wired W}
    (h : Machine.Reachable step MessageSends (initial world blocks created)
      wired) : Sourced blocks wired :=
  h.invariant
    (fun _ _ _ hsourced hsends hnext =>
      step_sourced hsourced hsends.1.1 hsends.2 hnext)
    ⟨initial_invariant passing_eq world blocks hnodup, rfl,
      fun _ _ hnone => by cases hnone⟩

/-- Over any interleaving of connections that run no script and change no file
that is being sent, with `send`s that accept all or fail: a connection that
ends with its last write has carried the text of the answer that its own
buffers have led to, and the file left open behind it.  The text is a message
exactly if the call that built it was proper, and its length is that of the
file exactly if the call measured it. -/
theorem carried_message {world : W} {blocks : List ServerBlock}
    {created : List ServerConfig}
    (hnodup : ((created.filter (0 ≤ ·.fd)).map ServerConfig.fd).Nodup)
    (hinline : ∀ block ∈ blocks, InlineLocations block.routes)
    {wired next : Wired W} {event : Server.Event} {client : Client}
    {answers : Answers}
    (h : Machine.Reachable step MessageSends (initial world blocks created)
      wired) (hsends : wired.SteadySends event)
    (hturn : wired.server.turn event = some (client, answers))
    (hfine : ¬FailedSend client answers)
    (hnext : wired.step event = .ok next)
    (hended : next.server.record client.clientId = none) :
    ∃ block ∈ blocks, ∃ record : Client,
      Led W client.clientId block (wired.heard client.clientId) record ∧
      (∃ answer : Answer W, answer.Stored record) ∧
      ∀ answer : Answer W, answer.Stored record →
        next.since client.clientId = answer.text ++ answer.leftOpen ∧
        (WellFormedMessage answer.text ↔ answer.Proper) ∧
        (Framed answer.text answer.leftOpen.length ↔ answer.Measured) := by
  have hsourced := reachable_sourced hnodup h
  obtain ⟨hall, hsince⟩ :=
    hsourced.complete hsends.1 hturn hfine hnext hended
  obtain ⟨record, hquiet, hsent, hanswer⟩ := hsourced.provenance
    client.clientId client (Server.record_of_turn hturn)
  obtain ⟨block, hblock, hled⟩ := hquiet.led
  have hinvariant := hled.handled.invariant (hinline block hblock)
  cases hinvariant.settled with
  | inl hwaiting =>
      rw [hsent.allRecv, hwaiting.2.2] at hall
      cases hall
  | inr hanswered =>
      refine ⟨block, hblock, record, hled, hanswered, fun answer hstored => ?_⟩
      have hlocation := hled.handled.inline (hinline block hblock) hstored
      refine ⟨?_, answer.wellFormed_iff hlocation,
        answer.framed_iff hlocation⟩
      rw [hsince, hanswer hall, hquiet.untouched.unsent_eq, hstored.text,
        hstored.leftOpen]

end Wired

end Webserv
