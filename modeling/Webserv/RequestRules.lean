import Webserv.ClientRules
import Webserv.Answers

namespace Webserv

open Cxx

/-! The rule for a whole buffer: a relation between records that is closed under
the changes of the parser, of the body handlers, of the answers and of the
scripts holds of the record before and behind `check_request`. -/

section Rule

variable {W : Type} [Os W]

/-- A relation between records that is closed under what an answer to a `GET`
does. -/
structure AnswerRule (W : Type) [Os W] (relation : Client → Client → Prop) :
    Prop where
  refl (client : Client) : relation client client
  trans {first second third : Client} : relation first second →
    relation second third → relation first third
  error (world : W) (client : Client) (status : Int) :
    relation client (setResponseError world client status)
  sendFile (world : W) (client : Client) (path : Str) :
    relation client (sendFile world client path)
  /-- A listing. -/
  setResponse (client : Client) (text : Str) :
    relation client (client.setResponse text)
  setResponseStatus (client : Client) (status : Int) :
    relation client (client.setResponseStatus status)

namespace AnswerRule

variable {relation : Client → Client → Prop} (rule : AnswerRule W relation)
  {client client' : Client} {world : W}

include rule

theorem checkAutoIndex (world : W) (client : Client)
    (routes : List RouteBlock) :
    relation client (checkAutoIndex world client routes).1 := by
  induction routes with
  | nil => exact rule.refl client
  | cons route rest ih =>
      rw [Webserv.checkAutoIndex]
      split
      · exact rule.error ..
      · exact ih

theorem directoryListing {names : List Str}
    (h : directoryListing client names = .ok client') :
    relation client client' := by
  obtain ⟨base, rfl⟩ := directoryListing_ok h
  exact rule.trans (rule.setResponseStatus client 200)
    (rule.setResponse _ _)

theorem directoryAnswer {flag : Nat} {str : Str} {names : List Str}
    (h : directoryAnswer world client flag str names = .ok client') :
    relation client client' := by
  unfold Webserv.directoryAnswer at h
  split at h
  · obtain rfl := Except.ok.inj h
    exact rule.refl client
  split at h
  · split at h
    · obtain rfl := Except.ok.inj h
      exact rule.error ..
    · obtain rfl := Except.ok.inj h
      exact rule.sendFile ..
  split at h
  · split at h
    · obtain rfl := Except.ok.inj h
      exact rule.error ..
    · obtain rfl := Except.ok.inj h
      exact rule.sendFile ..
  split at h
  · obtain rfl := Except.ok.inj h
    exact rule.sendFile ..
  · exact rule.directoryListing h

theorem responseToGet (h : responseToGet world client = .ok client') :
    relation client client' := by
  unfold Webserv.responseToGet at h
  split at h
  · obtain rfl := Except.ok.inj h
    exact rule.error ..
  split at h
  · unfold directoryResponse at h
    split at h
    · obtain rfl := Except.ok.inj h
      exact rule.error ..
    split at h
    · obtain rfl := Except.ok.inj h
      exact rule.error ..
    simp only at h
    split at h
    · exact rule.trans (rule.checkAutoIndex ..) (rule.directoryAnswer h)
    · exact rule.directoryAnswer h
  · split at h
    · obtain rfl := Except.ok.inj h
      exact rule.error ..
    · obtain rfl := Except.ok.inj h
      exact rule.sendFile ..
  · obtain rfl := Except.ok.inj h
    exact rule.error ..

end AnswerRule

structure RequestRule (W : Type) [Os W] (relation : Client → Client → Prop) :
    Prop where
  parse : ParseRule W relation
  body : BodyRule W relation
  sendFile (world : W) (client : Client) (path : Str) :
    relation client (sendFile world client path)
  /-- A listing, or the output of a script. -/
  setResponse (client : Client) (text : Str) :
    relation client (client.setResponse text)
  setResponseStatus (client : Client) (status : Int) :
    relation client (client.setResponseStatus status)
  setResponseIndex (client : Client) :
    relation client (client.setResponseIndex true)

namespace RequestRule

variable {relation : Client → Client → Prop} (rule : RequestRule W relation)
  {process process' : Process W} {client client' : Client}

include rule

theorem answer : AnswerRule W relation where
  refl := rule.body.refl
  trans := rule.body.trans
  error := rule.body.error
  sendFile := rule.sendFile
  setResponse := rule.setResponse
  setResponseStatus := rule.setResponseStatus

/-! Scripts. -/

theorem execScript (process : Process W) (client : Client)
    (script : Script) :
    relation client (execScript process client script).2 := by
  unfold Webserv.execScript
  generalize Os.run process.world script = ran
  obtain ⟨world, outcome⟩ := ran
  cases outcome with
  | notStarted => exact rule.body.refl client
  | timedOut => exact rule.body.error ..
  | signaled => exact rule.body.error ..
  | exited code content =>
      simp only
      split
      · exact rule.body.error ..
      split
      · exact rule.body.error ..
      split
      · exact rule.body.error ..
      split
      · exact rule.body.error ..
      · exact rule.setResponse ..

theorem cgiHandler (process : Process W) (client : Client) (body sn : Str) :
    relation client (cgiHandler process client body sn).2 := by
  unfold Webserv.cgiHandler
  simp only
  split
  · exact rule.execScript ..
  split
  · exact rule.execScript ..
  · exact rule.body.refl client

theorem chunkedForCgiLoop {fuel : Nat} {tmp : Str}
    (h : chunkedForCgiLoop fuel process client =
      .ok (process', client', tmp)) : relation client client' := by
  induction fuel generalizing process client with
  | zero => cases h
  | succ fuel ih =>
      rw [Webserv.chunkedForCgiLoop] at h
      split at h
      · obtain ⟨-, hrest⟩ := Prod.mk.inj (Except.ok.inj h)
        obtain ⟨rfl, -⟩ := Prod.mk.inj hrest
        exact rule.body.refl client
      · obtain ⟨line, -, h⟩ := bind_ok h
        simp only at h
        split at h
        · obtain ⟨-, hrest⟩ := Prod.mk.inj (Except.ok.inj h)
          obtain ⟨rfl, -⟩ := Prod.mk.inj hrest
          exact rule.body.trans (rule.body.setAllRecv client)
            (rule.body.setSRequest _ _)
        obtain ⟨data, -, h⟩ := bind_ok h
        split at h
        · obtain ⟨-, hrest⟩ := Prod.mk.inj (Except.ok.inj h)
          obtain ⟨rfl, -⟩ := Prod.mk.inj hrest
          exact rule.body.refl client
        obtain ⟨request, -, h⟩ := bind_ok h
        obtain ⟨data, -, h⟩ := bind_ok h
        obtain ⟨rest, -, h⟩ := bind_ok h
        exact ih h

theorem cgiPost {slot : BodySlot} {path : Str}
    (h : cgiPost slot process client path = .ok (process', client')) :
    relation client client' := by
  have hran (stored : Process W) (asked : Client) {ran : Process W}
      {answered : Client}
      (hrun : runOnBody slot stored asked path = (ran, answered)) :
      relation asked answered := by
    have hrelated := rule.cgiHandler stored asked (stored.getBody slot) path
    rw [runOnBody] at hrun
    obtain ⟨-, rfl⟩ := Prod.mk.inj hrun
    exact hrelated
  rcases cgiPost_cases h with ⟨taken, client₁, tmp, htaken, hnext⟩ | hnext
  · have htake := rule.chunkedForCgiLoop htaken
    rcases hnext with ⟨-, hrun⟩ | ⟨-, -, rfl⟩
    · exact rule.body.trans htake (hran _ _ hrun)
    · exact htake
  · rcases hnext with ⟨ran, answered, hrun, -, rfl⟩ | ⟨-, rfl⟩
    · exact rule.body.trans (hran _ _ hrun) (rule.body.setAllRecv _)
    · exact rule.body.refl _

theorem markAlive (client : Client) : relation client (markAlive client) := by
  unfold Webserv.markAlive
  split
  · exact rule.body.trans (rule.setResponseIndex client)
      (rule.setResponseStatus _ _)
  · exact rule.body.refl client

theorem cgiExtensions {ex path : Str} {extensions : List Str}
    {bol bol' : Bool}
    (h : cgiExtensions ex path extensions process client bol =
      .ok (process', client', bol')) : relation client client' := by
  induction extensions generalizing process client bol with
  | nil =>
      obtain ⟨-, hrest⟩ := Prod.mk.inj (Except.ok.inj h)
      obtain ⟨rfl, -⟩ := Prod.mk.inj hrest
      exact rule.body.refl client
  | cons extension rest ih =>
      rw [Webserv.cgiExtensions] at h
      split at h
      · split at h
        · obtain ⟨⟨posted, client₁⟩, hpost, h⟩ := bind_ok h
          exact rule.body.trans (rule.cgiPost hpost)
            (rule.body.trans (rule.markAlive _) (ih h))
        split at h
        · exact rule.body.trans (rule.body.setAllRecv client)
            (rule.body.trans (rule.cgiHandler ..)
              (rule.body.trans (rule.markAlive _) (ih h)))
        · obtain ⟨-, hrest⟩ := Prod.mk.inj (Except.ok.inj h)
          obtain ⟨rfl, -⟩ := Prod.mk.inj hrest
          exact rule.body.error ..
      · exact ih h

theorem checkIfHaveCgi {bol : Bool}
    (h : checkIfHaveCgi process client = .ok (process', client', bol)) :
    relation client client' := by
  unfold Webserv.checkIfHaveCgi at h
  simp only at h
  split at h
  · obtain ⟨-, hrest⟩ := Prod.mk.inj (Except.ok.inj h)
    obtain ⟨rfl, -⟩ := Prod.mk.inj hrest
    exact rule.body.refl client
  split at h
  · exact rule.cgiExtensions h
  unfold cgiServer at h
  split at h
  · obtain ⟨⟨posted, client₁⟩, hpost, h⟩ := bind_ok h
    obtain ⟨-, hrest⟩ := Prod.mk.inj (Except.ok.inj h)
    obtain ⟨rfl, -⟩ := Prod.mk.inj hrest
    exact rule.body.trans (rule.cgiPost hpost) (rule.markAlive _)
  split at h
  · obtain ⟨-, hrest⟩ := Prod.mk.inj (Except.ok.inj h)
    obtain ⟨rfl, -⟩ := Prod.mk.inj hrest
    exact rule.body.trans (rule.cgiHandler ..)
      (rule.body.trans (rule.body.setAllRecv _) (rule.markAlive _))
  · obtain ⟨-, hrest⟩ := Prod.mk.inj (Except.ok.inj h)
    obtain ⟨rfl, -⟩ := Prod.mk.inj hrest
    exact rule.body.error ..

/-! The dispatch, and the buffer as a whole. -/

theorem postRequest
    (h : postRequest process client = .ok (process', client')) :
    relation client client' := by
  have hchecked : relation client (checkUri process.world client).1 := by
    unfold checkUri
    split
    · exact rule.body.error ..
    · split
      · exact rule.body.error ..
      · exact rule.body.refl client
  unfold Webserv.postRequest at h
  simp only at h
  split at h
  · obtain ⟨-, rfl⟩ := Prod.mk.inj (Except.ok.inj h)
    exact hchecked
  · obtain ⟨⟨taken, client₁⟩, htaken, h⟩ := bind_ok h
    obtain ⟨-, rfl⟩ := Prod.mk.inj (Except.ok.inj h)
    refine rule.body.trans hchecked
      (rule.body.trans (rule.body.takeBody htaken) ?_)
    unfold answerCreated
    split
    · exact rule.body.error ..
    · exact rule.body.refl _

theorem dispatchRequest
    (h : dispatchRequest process client = .ok (process', client')) :
    relation client client' := by
  unfold Webserv.dispatchRequest at h
  split at h
  · obtain ⟨-, rfl⟩ := Prod.mk.inj (Except.ok.inj h)
    exact rule.body.setAllRecv client
  obtain ⟨⟨handled, client₁, isCgi⟩, hcgi, h⟩ := bind_ok h
  have hhandled := rule.checkIfHaveCgi hcgi
  simp only at h
  split at h
  · obtain ⟨-, rfl⟩ := Prod.mk.inj (Except.ok.inj h)
    exact hhandled
  split at h
  · obtain ⟨-, rfl⟩ := Prod.mk.inj (Except.ok.inj h)
    exact rule.body.trans hhandled (rule.body.setAllRecv _)
  refine rule.body.trans hhandled ?_
  unfold dispatchMethod at h
  split at h
  · obtain ⟨answered, hget, h⟩ := bind_ok h
    obtain ⟨-, rfl⟩ := Prod.mk.inj (Except.ok.inj h)
    exact rule.body.trans (rule.answer.responseToGet hget) (rule.body.setAllRecv _)
  split at h
  · exact rule.postRequest h
  split at h
  · have hclient : _ = client' := congrArg Prod.snd (Except.ok.inj h)
    rw [← hclient]
    exact rule.body.trans (rule.body.setAllRecv _) (rule.body.error ..)
  · obtain ⟨-, rfl⟩ := Prod.mk.inj (Except.ok.inj h)
    exact rule.body.refl _

theorem receive {bytes : Str}
    (h : receive process client bytes = .ok (process', client')) :
    relation client client' := by
  rcases receive_cases h with ⟨-, -, rfl⟩ | ⟨-, parsed, hparsed, h⟩
  · exact rule.body.refl _
  have hstored : relation client (client.setSRequest bytes).forgetLocation :=
    rule.body.trans (rule.body.setSRequest client bytes)
      (rule.parse.setBlock _ none)
  refine rule.body.trans hstored
    (rule.body.trans ?_ (rule.dispatchRequest h))
  rcases parseOnce_cases hparsed with ⟨-, hparse⟩ | ⟨-, rfl⟩
  · exact rule.parse.parseRequest hparse
  · exact rule.body.refl _

end RequestRule

end Rule

/-! A record that nothing has been sent of: the response is sent from its first
byte on, and the file in its stream, too. -/

structure Untouched (client : Client) : Prop where
  unsent : client.request.isStringReqSend = false
  stream : client.response.fileStream.Fresh

theorem untouched_connect (fd : Int) (block : ServerBlock) :
    Untouched (.connect fd block) :=
  ⟨rfl, rfl, rfl, fun hnone => absurd rfl hnone⟩

def KeepsUntouched (client client' : Client) : Prop :=
  Untouched client → Untouched client'

section Untouched

variable {W : Type} [Os W]

theorem untouched_fillResponse (world : W) (client : Client) (path : Str)
    (status : Int) :
    KeepsUntouched client (fillResponse world client path status).1 := by
  intro h
  have hopened := h.stream.close.openFile world path
  unfold fillResponse
  simp only
  split
  · exact ⟨h.unsent, hopened⟩
  · exact ⟨h.unsent, hopened⟩

theorem untouched_setResponseError (world : W) (client : Client)
    (status : Int) :
    KeepsUntouched client (setResponseError world client status) := by
  intro h
  unfold setResponseError
  simp only
  split
  · exact ⟨h.unsent, h.stream⟩
  · have hfilled := untouched_fillResponse world (client.setAllRecv true)
      (client.serverClientObj.findErrorPagePath status) status
      ⟨h.unsent, h.stream⟩
    exact ⟨hfilled.unsent, hfilled.stream⟩

variable (W) in
theorem untouched_parseRule : ParseRule W KeepsUntouched where
  refl _ := id
  trans hfirst hsecond := hsecond ∘ hfirst
  start _ _ h := ⟨h.unsent, h.stream⟩
  setLine _ _ _ _ h := ⟨h.unsent, h.stream⟩
  setPath _ _ h := ⟨h.unsent, h.stream⟩
  addHeader client key value h := by
    obtain ⟨headersMap, keepAlive, heq, -⟩ := addHeader_eq client key value
    rw [heq]
    exact ⟨h.unsent, h.stream⟩
  setBlock _ _ h := ⟨h.unsent, h.stream⟩
  setContentLength _ _ h := ⟨h.unsent, h.stream⟩
  error := untouched_setResponseError
  refuse world client h :=
    have herror := untouched_setResponseError world client 400 h
    ⟨herror.unsent, herror.stream⟩
  clear world client h :=
    have herror := untouched_setResponseError world client 400 h
    ⟨herror.unsent, herror.stream⟩
  redirect world client route entry _ _ h :=
    untouched_setResponseError world _ _ ⟨h.unsent, h.stream⟩

variable (W) in
theorem untouched_rule : RequestRule W KeepsUntouched where
  parse := untouched_parseRule W
  body :=
    { refl := fun _ => id
      trans := fun hfirst hsecond => hsecond ∘ hfirst
      setFile := fun _ _ h => ⟨h.unsent, h.stream⟩
      setSRequest := fun _ _ h => ⟨h.unsent, h.stream⟩
      setAllRecv := fun _ h => ⟨h.unsent, h.stream⟩
      error := untouched_setResponseError }
  sendFile world client path h :=
    have hfilled := untouched_fillResponse world client path 200 h
    ⟨hfilled.unsent, hfilled.stream⟩
  setResponse _ _ h := ⟨h.unsent, h.stream⟩
  setResponseStatus _ _ h := ⟨h.unsent, h.stream⟩
  setResponseIndex _ h := ⟨h.unsent, h.stream⟩

end Untouched

end Webserv
