import Webserv.Answers
import Webserv.ClientRules
import Webserv.CgiBody
import Webserv.BodyLimit
import Webserv.HeadCuts

namespace Webserv

open Cxx Coding

/-! Every response of a request that runs no script is an answer. -/

section Stored

variable {W : Type} [Os W]

/-- A record holds the response of an answer, under the same configuration. -/
structure Answer.Stored (answer : Answer W) (client : Client) : Prop where
  text : client.response.response = answer.text
  leftOpen : client.response.fileStream.content.getD [] = answer.leftOpen
  errorPages : client.serverClientObj.errorPages =
    answer.client.serverClientObj.errorPages
  redirection : client.request.redirection =
    answer.client.request.redirection
  location : client.request.location = answer.client.request.location

variable (W) in
def Answered (client : Client) : Prop :=
  ∃ answer : Answer W, answer.Stored client

structure SameAnswer (client client' : Client) : Prop where
  text : client'.response.response = client.response.response
  fileStream : client'.response.fileStream = client.response.fileStream
  errorPages : client'.serverClientObj.errorPages =
    client.serverClientObj.errorPages
  redirection : client'.request.redirection = client.request.redirection
  location : client'.request.location = client.request.location

theorem SameAnswer.refl (client : Client) : SameAnswer client client :=
  ⟨rfl, rfl, rfl, rfl, rfl⟩

omit [Os W] in
theorem SameAnswer.trans {first second third : Client}
    (h : SameAnswer first second) (h' : SameAnswer second third) :
    SameAnswer first third :=
  ⟨h'.text.trans h.text, h'.fileStream.trans h.fileStream,
    h'.errorPages.trans h.errorPages, h'.redirection.trans h.redirection,
    h'.location.trans h.location⟩

theorem Answered.of_same {client client' : Client} (h : Answered W client)
    (hsame : SameAnswer client client') : Answered W client' := by
  obtain ⟨answer, hstored⟩ := h
  refine ⟨answer, hsame.text.trans hstored.text, ?_,
    hsame.errorPages.trans hstored.errorPages,
    hsame.redirection.trans hstored.redirection,
    hsame.location.trans hstored.location⟩
  rw [hsame.fileStream]
  exact hstored.leftOpen

theorem answered_setResponseError (world : W) (client : Client)
    (status : Int) : Answered W (setResponseError world client status) :=
  ⟨.error world client status, rfl, rfl, by simp [Answer.client],
    by simp [Answer.client], by simp [Answer.client]⟩

theorem answered_sendFile (world : W) (client : Client) (path : Str) :
    Answered W (sendFile world client path) := by
  have hserved := sendFile_served { world := world } world client path
  obtain ⟨file, sRequest, hrequest⟩ := hserved.request
  refine ⟨.file world client path, rfl, rfl,
    congrArg ServerBlock.errorPages hserved.block, ?_, ?_⟩
  · rw [hrequest]
    rfl
  · rw [hrequest]
    rfl

theorem answered_listing {client client' : Client} {names : List Str}
    (h : directoryListing client names = .ok client') :
    Answered W client' := by
  obtain ⟨base, rfl⟩ := directoryListing_ok h
  exact ⟨.listing client base names, rfl, rfl, rfl, rfl, rfl⟩

/-- The response is left alone, or it becomes that of an answer. -/
def Rewrites (W : Type) [Os W] (client client' : Client) : Prop :=
  (SameAnswer client client' ∧
    client'.response.readyToSend = client.response.readyToSend) ∨
  Answered W client'

variable (W) in
theorem rewrites_rule : BodyRule W (Rewrites W) where
  refl client := .inl ⟨.refl client, rfl⟩
  trans := by
    rintro first second third hfirst (⟨hsame, hready⟩ | hanswered)
    · cases hfirst with
      | inl hkept =>
          exact .inl ⟨hkept.1.trans hsame, hready.trans hkept.2⟩
      | inr hanswered => exact .inr (hanswered.of_same hsame)
    · exact .inr hanswered
  setFile _ _ := .inl ⟨⟨rfl, rfl, rfl, rfl, rfl⟩, rfl⟩
  setSRequest _ _ := .inl ⟨⟨rfl, rfl, rfl, rfl, rfl⟩, rfl⟩
  setAllRecv _ := .inl ⟨⟨rfl, rfl, rfl, rfl, rfl⟩, rfl⟩
  error world client status := .inr (answered_setResponseError ..)

end Stored

section Get

variable {W : Type} [Os W] {world : W} {client client' : Client}

theorem answered_checkAutoIndex (world : W) (client : Client)
    (routes : List RouteBlock)
    (h : (checkAutoIndex world client routes).2 = 1) :
    Answered W (checkAutoIndex world client routes).1 := by
  induction routes with
  | nil => cases h
  | cons route rest ih =>
      rw [checkAutoIndex] at h ⊢
      split
      · exact answered_setResponseError ..
      · rename_i hroute
        rw [if_neg hroute] at h
        exact ih h

theorem answered_directoryAnswer {flag : Nat} {str : Str}
    {names : List Str} (hflag : flag = 1 → Answered W client)
    (h : directoryAnswer world client flag str names = .ok client') :
    Answered W client' := by
  unfold directoryAnswer at h
  split at h
  · rename_i hone
    obtain rfl := Except.ok.inj h
    exact hflag hone
  split at h
  · split at h
    · rw [← Except.ok.inj h]
      exact answered_setResponseError ..
    · rw [← Except.ok.inj h]
      exact answered_sendFile ..
  split at h
  · split at h
    · rw [← Except.ok.inj h]
      exact answered_setResponseError ..
    · rw [← Except.ok.inj h]
      exact answered_sendFile ..
  split at h
  · rw [← Except.ok.inj h]
    exact answered_sendFile ..
  · exact answered_listing h

theorem answered_responseToGet
    (h : responseToGet world client = .ok client') :
    Answered W client' := by
  unfold responseToGet at h
  split at h
  · rw [← Except.ok.inj h]
    exact answered_setResponseError ..
  split at h
  · unfold directoryResponse at h
    split at h
    · rw [← Except.ok.inj h]
      exact answered_setResponseError ..
    split at h
    · rw [← Except.ok.inj h]
      exact answered_setResponseError ..
    simp only at h
    split at h
    · exact answered_directoryAnswer (answered_checkAutoIndex world client _) h
    · exact answered_directoryAnswer (by simp) h
  · split at h
    · rw [← Except.ok.inj h]
      exact answered_setResponseError ..
    · rw [← Except.ok.inj h]
      exact answered_sendFile ..
  · rw [← Except.ok.inj h]
    exact answered_setResponseError ..

/-- A `GET` of a directory without an index file, where the chosen route lists
directories. -/
structure Listed (world : W) (client : Client) (route : RouteBlock)
    (names : List Str) : Prop where
  method : client.request.method = "GET".toList
  plain : scriptExtension? client.request.path = none
  kind : (Os.stat world client.request.path).map Stat.kind = some .directory
  access : Os.access world client.request.path .read = true
  names : Os.readdir world client.request.path = some names
  noIndex : Os.stat world (indexCandidate world client) = none
  selected : client.serverClientObj.selected = some route
  autoindex : route.autoindex = true
  flag : (checkAutoIndex world client client.serverClientObj.routes).2 = 2

theorem checkAutoIndex_open {routes : List RouteBlock}
    (h : (checkAutoIndex world client routes).2 = 2) :
    checkAutoIndex world client routes = (client, 2) := by
  induction routes with
  | nil => rfl
  | cons route rest ih =>
      rw [checkAutoIndex] at h ⊢
      split
      · rename_i hroute
        rw [if_pos hroute] at h
        cases h
      · rename_i hroute
        rw [if_neg hroute] at h
        exact ih h

theorem Listed.responseToGet {route : RouteBlock} {names : List Str}
    (h : Listed world client route names) :
    responseToGet world client = directoryListing client names := by
  obtain ⟨pathStat, hstat, hkind⟩ := Option.map_eq_some_iff.mp h.kind
  unfold Webserv.responseToGet
  rw [hstat]
  simp only [hkind]
  unfold directoryResponse
  rw [if_neg (by simp [h.access]), h.names]
  simp only [h.noIndex, Option.isNone_none, if_true,
    checkAutoIndex_open h.flag]
  unfold directoryAnswer
  rw [if_neg (by decide), h.selected]
  simp only [h.autoindex]
  rw [if_neg (by decide), if_neg (by decide)]

theorem Listed.dispatchRequest {process process' : Process W}
    {route : RouteBlock} {names : List Str}
    (hlisted : Listed process.world client route names)
    (hready : client.response.readyToSend = false)
    (h : dispatchRequest process client = .ok (process', client')) :
    ∃ base, client'.response.response = listingResponse client base names := by
  unfold Webserv.dispatchRequest checkIfHaveCgi at h
  rw [if_neg (by simp [hready])] at h
  simp only [hlisted.plain] at h
  obtain ⟨⟨handled, client₁, isCgi⟩, hcgi, hnext⟩ := bind_ok h
  obtain ⟨rfl, hrest⟩ := Prod.mk.inj (Except.ok.inj hcgi)
  obtain ⟨rfl, rfl⟩ := Prod.mk.inj hrest
  simp only [Bool.false_eq_true, if_false, hready] at hnext
  unfold dispatchMethod at hnext
  rw [if_pos hlisted.method, hlisted.responseToGet] at hnext
  obtain ⟨answered, hget, hnext⟩ := bind_ok hnext
  obtain ⟨-, rfl⟩ := Prod.mk.inj (Except.ok.inj hnext)
  obtain ⟨base, rfl⟩ := directoryListing_ok hget
  exact ⟨base, rfl⟩

/-- What a call leaves behind: a record that waits for more bytes, with the
response as it was, or an answer. -/
def Settled (W : Type) [Os W] (client client' : Client) : Prop :=
  (client'.allRecv = false ∧ client'.response.readyToSend = false ∧
    SameAnswer client client') ∨ Answered W client'

variable {process process' : Process W}

theorem postRequest_settled (hready : client.response.readyToSend = false)
    (h : postRequest process client = .ok (process', client')) :
    Settled W client client' := by
  unfold postRequest at h
  simp only at h
  split at h
  · rename_i hrefused
    obtain ⟨-, rfl⟩ := Prod.mk.inj (Except.ok.inj h)
    obtain ⟨status, heq⟩ := checkUri_refused hrefused
    rw [heq]
    exact .inr (answered_setResponseError ..)
  · rename_i hdirectory
    obtain ⟨⟨taken, client₁⟩, htaken, hnext⟩ := bind_ok h
    obtain ⟨-, rfl⟩ := Prod.mk.inj (Except.ok.inj hnext)
    rw [checkUri_directory (by simpa using hdirectory)] at htaken
    have htake := (rewrites_rule W).takeBody htaken
    unfold answerCreated
    split
    · exact .inr (answered_setResponseError ..)
    · rename_i hwaiting
      cases htake with
      | inr hanswered => exact .inr hanswered
      | inl hkept =>
          have hready₁ : client₁.response.readyToSend = false :=
            hkept.2.trans hready
          refine .inl ⟨?_, hready₁, hkept.1⟩
          by_contra hall
          exact hwaiting ⟨by simpa using hall, hready₁⟩

theorem dispatchMethod_settled (hopen : client.allRecv = false)
    (hready : client.response.readyToSend = false)
    (h : dispatchMethod process client = .ok (process', client')) :
    Settled W client client' := by
  unfold dispatchMethod at h
  split at h
  · obtain ⟨answered, hget, h⟩ := bind_ok h
    obtain ⟨-, rfl⟩ := Prod.mk.inj (Except.ok.inj h)
    exact .inr ((answered_responseToGet hget).of_same
      ⟨rfl, rfl, rfl, rfl, rfl⟩)
  split at h
  · exact postRequest_settled hready h
  split at h
  · have hclient : _ = client' := congrArg Prod.snd (Except.ok.inj h)
    rw [← hclient]
    exact .inr (answered_setResponseError ..)
  · obtain ⟨-, rfl⟩ := Prod.mk.inj (Except.ok.inj h)
    exact .inl ⟨hopen, hready, .refl client⟩

end Get

/-! The dispatch to a script that is not run. -/

section Script

variable {W : Type} [Os W] {process process' : Process W}
  {client client' : Client}

def SomeRun (process process' : Process W) : Prop :=
  ∃ bodies, bodies ≠ [] ∧ RanOn process process' bodies

omit [Os W] in
theorem SomeRun.not_quiet (h : SomeRun process process') :
    cgiBodies (actsSince process process') ≠ [] := by
  obtain ⟨bodies, hne, hran⟩ := h
  rw [hran.cgiBodies_eq]
  exact hne

omit [Os W] in
theorem Served.ranOn (h : Served process client process' client') :
    ∃ bodies, RanOn process process' bodies := by
  obtain ⟨acts, heffects, -⟩ := h.effects
  exact ⟨_, _, heffects, rfl⟩

omit [Os W] in
theorem SomeRun.before {process'' : Process W}
    (h : SomeRun process process')
    (hserved : Served process' client process'' client') :
    SomeRun process process'' := by
  obtain ⟨bodies, hne, hran⟩ := h
  obtain ⟨more, hmore⟩ := hserved.ranOn
  exact ⟨bodies ++ more, by simp [hne], hran.trans hmore⟩

omit [Os W] in
theorem SomeRun.after {process'' : Process W}
    (h : SomeRun process' process'')
    (heffects : process'.effects = process.effects) :
    SomeRun process process'' := by
  obtain ⟨bodies, hne, hran⟩ := h
  exact ⟨[] ++ bodies, by simpa using hne,
    (RanOn.of_effects heffects).trans hran⟩

theorem someRun_cgiHandler (process : Process W) (client : Client)
    (body sn : Str) :
    SomeRun process (cgiHandler process client body sn).1 := by
  obtain ⟨world, heq⟩ := (cgiHandler_run process client body sn).process
  exact ⟨[body], by simp, _, by rw [heq], rfl⟩

theorem someRun_runOnBody (slot : BodySlot) (process : Process W)
    (client : Client) (path : Str) :
    SomeRun process (runOnBody slot process client path).1 := by
  obtain ⟨bodies, hne, effects, heffects, hbodies⟩ :=
    someRun_cgiHandler process client (process.getBody slot) path
  refine ⟨bodies, hne, effects, ?_, hbodies⟩
  unfold runOnBody
  rw [Process.setBody_effects, heffects]

omit [Os W] in
theorem chunkedForCgiLoop_waits {fuel : Nat} {tmp : Str}
    (h : chunkedForCgiLoop fuel process client =
      .ok (process', client', tmp)) :
    client' = client ∨ client'.allRecv = true := by
  induction fuel generalizing process client with
  | zero => cases h
  | succ fuel ih =>
      rw [chunkedForCgiLoop] at h
      split at h
      · obtain ⟨-, hrest⟩ := Prod.mk.inj (Except.ok.inj h)
        exact .inl (Prod.mk.inj hrest).1.symm
      · obtain ⟨line, -, h⟩ := bind_ok h
        simp only at h
        split at h
        · obtain ⟨-, hrest⟩ := Prod.mk.inj (Except.ok.inj h)
          obtain ⟨rfl, -⟩ := Prod.mk.inj hrest
          exact .inr rfl
        obtain ⟨data, -, h⟩ := bind_ok h
        split at h
        · obtain ⟨-, hrest⟩ := Prod.mk.inj (Except.ok.inj h)
          exact .inl (Prod.mk.inj hrest).1.symm
        obtain ⟨request, -, h⟩ := bind_ok h
        obtain ⟨data, -, h⟩ := bind_ok h
        obtain ⟨rest, -, h⟩ := bind_ok h
        exact ih h

theorem cgiPost_waits {slot : BodySlot} {path : Str}
    (h : cgiPost slot process client path = .ok (process', client')) :
    SomeRun process process' ∨
      (client' = client ∧ process'.effects = process.effects) := by
  have hran (stored : Process W) (asked : Client) {ran : Process W}
      {answered : Client}
      (hrun : runOnBody slot stored asked path = (ran, answered)) :
      SomeRun stored ran := by
    have hsome := someRun_runOnBody slot stored asked path
    rwa [hrun] at hsome
  rcases cgiPost_cases h with ⟨taken, client₁, tmp, htaken, hnext⟩ | hnext
  · have hstored : (taken.setBody slot (taken.getBody slot ++ tmp)).effects =
        process.effects := by
      rw [Process.setBody_effects, chunkedForCgi_effects htaken]
    rcases hnext with ⟨-, hrun⟩ | ⟨hwaiting, rfl, rfl⟩
    · exact .inl ((hran _ _ hrun).after hstored)
    · refine .inr ⟨?_, hstored⟩
      exact (chunkedForCgiLoop_waits htaken).resolve_right
        (by simp [hwaiting])
  · rcases hnext with ⟨ran, answered, hrun, rfl, -⟩ | ⟨rfl, rfl⟩
    · exact .inl ((hran _ _ hrun).after (Process.setBody_effects ..))
    · exact .inr ⟨rfl, Process.setBody_effects ..⟩

theorem cgiExtensions_waits {ex path : Str} {extensions : List Str}
    {bol bol' : Bool} (halive : client.keepAlive = false)
    (h : cgiExtensions ex path extensions process client bol =
      .ok (process', client', bol')) :
    SomeRun process process' ∨ client' = client ∨ Answered W client' := by
  induction extensions generalizing process bol with
  | nil =>
      obtain ⟨-, hrest⟩ := Prod.mk.inj (Except.ok.inj h)
      exact .inr (.inl (Prod.mk.inj hrest).1.symm)
  | cons extension rest ih =>
      rw [cgiExtensions] at h
      split at h
      · split at h
        · obtain ⟨⟨posted, client₁⟩, hpost, hnext⟩ := bind_ok h
          cases cgiPost_waits hpost with
          | inl hrun => exact .inl (hrun.before (cgiExtensions_served hnext))
          | inr hwaits =>
              obtain ⟨rfl, heffects⟩ := hwaits
              simp only at hnext
              rw [markAlive_of_not_alive halive] at hnext
              cases ih hnext with
              | inl hrun => exact .inl (hrun.after heffects)
              | inr hrest => exact .inr hrest
        split at h
        · exact .inl ((someRun_cgiHandler ..).before
            (cgiExtensions_served h))
        · obtain ⟨-, hrest⟩ := Prod.mk.inj (Except.ok.inj h)
          obtain ⟨rfl, -⟩ := Prod.mk.inj hrest
          exact .inr (.inr (answered_setResponseError ..))
      · exact ih h

theorem checkIfHaveCgi_waits {bol : Bool}
    (halive : client.keepAlive = false)
    (h : checkIfHaveCgi process client = .ok (process', client', bol)) :
    SomeRun process process' ∨ client' = client ∨ Answered W client' := by
  unfold checkIfHaveCgi at h
  simp only at h
  split at h
  · obtain ⟨-, hrest⟩ := Prod.mk.inj (Except.ok.inj h)
    exact .inr (.inl (Prod.mk.inj hrest).1.symm)
  split at h
  · exact cgiExtensions_waits halive h
  · unfold cgiServer at h
    split at h
    · obtain ⟨⟨posted, client₁⟩, hpost, h⟩ := bind_ok h
      obtain ⟨rfl, hrest⟩ := Prod.mk.inj (Except.ok.inj h)
      obtain ⟨rfl, -⟩ := Prod.mk.inj hrest
      cases cgiPost_waits hpost with
      | inl hrun => exact .inl hrun
      | inr hwaits =>
          obtain ⟨rfl, -⟩ := hwaits
          exact .inr (.inl (markAlive_of_not_alive halive))
    split at h
    · obtain ⟨rfl, hrest⟩ := Prod.mk.inj (Except.ok.inj h)
      exact .inl (someRun_cgiHandler ..)
    · obtain ⟨-, hrest⟩ := Prod.mk.inj (Except.ok.inj h)
      obtain ⟨rfl, -⟩ := Prod.mk.inj hrest
      exact .inr (.inr (answered_setResponseError ..))

theorem dispatchRequest_settled (halive : client.keepAlive = false)
    (hopen : client.allRecv = false)
    (hready : client.response.readyToSend = false)
    (hquiet : cgiBodies (actsSince process process') = [])
    (h : dispatchRequest process client = .ok (process', client')) :
    Settled W client client' := by
  unfold dispatchRequest at h
  rw [if_neg (by simp [hready])] at h
  obtain ⟨⟨handled, client₁, isCgi⟩, hcgi, hnext⟩ := bind_ok h
  have hserved := checkIfHaveCgi_served hcgi
  simp only at hnext
  cases checkIfHaveCgi_waits halive hcgi with
  | inl hrun =>
      have hlater : SomeRun process process' := by
        split at hnext
        · obtain ⟨rfl, -⟩ := Prod.mk.inj (Except.ok.inj hnext)
          exact hrun
        split at hnext
        · obtain ⟨rfl, -⟩ := Prod.mk.inj (Except.ok.inj hnext)
          exact hrun
        · exact hrun.before (dispatchMethod_served hnext)
      exact absurd hquiet hlater.not_quiet
  | inr hwaits =>
      split at hnext
      · obtain ⟨-, rfl⟩ := Prod.mk.inj (Except.ok.inj hnext)
        cases hwaits with
        | inl hsame =>
            rw [hsame]
            exact .inl ⟨hopen, hready, .refl client⟩
        | inr hanswered => exact .inr hanswered
      · rename_i hfile
        obtain ⟨-, hsame⟩ := checkIfHaveCgi_spends hcgi
        obtain ⟨rfl, rfl⟩ := hsame (by simpa using hfile)
        rw [if_neg (by simp [hready])] at hnext
        exact dispatchMethod_settled hopen hready hnext

end Script

/-! A connection from its first buffer on. -/

section Handled

variable {W : Type} [Os W]

variable (W) in
theorem rewrites_parseRule : ParseRule W (Rewrites W) where
  refl := (rewrites_rule W).refl
  trans := (rewrites_rule W).trans
  start _ _ := .inl ⟨⟨rfl, rfl, rfl, rfl, rfl⟩, rfl⟩
  setLine _ _ _ _ := .inl ⟨⟨rfl, rfl, rfl, rfl, rfl⟩, rfl⟩
  setPath _ _ := .inl ⟨⟨rfl, rfl, rfl, rfl, rfl⟩, rfl⟩
  addHeader client key value := by
    obtain ⟨headersMap, keepAlive, heq, -⟩ := addHeader_eq client key value
    rw [heq]
    exact .inl ⟨⟨rfl, rfl, rfl, rfl, rfl⟩, rfl⟩
  setBlock _ _ := .inl ⟨⟨rfl, rfl, rfl, rfl, rfl⟩, rfl⟩
  setContentLength _ _ := .inl ⟨⟨rfl, rfl, rfl, rfl, rfl⟩, rfl⟩
  error world client status := .inr (answered_setResponseError ..)
  refuse world client := .inr ((answered_setResponseError world client
    400).of_same ⟨rfl, rfl, rfl, rfl, rfl⟩)
  clear world client := .inr ((answered_setResponseError world client
    400).of_same ⟨rfl, rfl, rfl, rfl, rfl⟩)
  redirect world client route entry _ _ :=
    .inr (answered_setResponseError world _ _)

/-- No `Location` of a configuration contains a line end: the configuration is
read word by word. -/
def InlineLocations (routes : List RouteBlock) : Prop :=
  ∀ route ∈ routes, ∀ entry ∈ route.redirections, Inline entry.2

/-- The location stored stays inside a line. -/
def KeepsInline (client client' : Client) : Prop :=
  client'.serverClientObj.routes = client.serverClientObj.routes ∧
    (InlineLocations client.serverClientObj.routes →
      Inline client.request.location → Inline client'.request.location)

variable (W) in
theorem keepsInline_rule : ParseRule W KeepsInline where
  refl _ := ⟨rfl, fun _ => id⟩
  trans hfirst hsecond := ⟨hsecond.1.trans hfirst.1, fun hroutes hinline =>
    hsecond.2 (hfirst.1 ▸ hroutes) (hfirst.2 hroutes hinline)⟩
  start _ _ := ⟨rfl, fun _ => id⟩
  setLine _ _ _ _ := ⟨rfl, fun _ => id⟩
  setPath _ _ := ⟨rfl, fun _ => id⟩
  addHeader client key value := by
    obtain ⟨headersMap, keepAlive, heq, -⟩ := addHeader_eq client key value
    rw [heq]
    exact ⟨rfl, fun _ => id⟩
  setBlock _ _ := ⟨rfl, fun _ => id⟩
  setContentLength _ _ := ⟨rfl, fun _ => id⟩
  error world client status := by
    refine ⟨by simp, fun _ hinline => ?_⟩
    rw [setResponseError_request]
    exact hinline
  refuse world client := by
    refine ⟨by simp [Client.setResponseIndex], fun _ hinline => ?_⟩
    change Inline (setResponseError world client 400).request.location
    rw [setResponseError_request]
    exact hinline
  clear world client := by
    refine ⟨by simp [Client.setResponseIndex, Client.clearHeaders],
      fun _ hinline => ?_⟩
    change Inline (setResponseError world client 400).request.location
    rw [setResponseError_request]
    exact hinline
  redirect world client route entry hroute hentry := by
    refine ⟨by simp [Client.setRedirection], fun hroutes _ => ?_⟩
    rw [setResponseError_request]
    exact hroutes route hroute entry hentry

/-- The record of a connection after some buffers, none of which has run a
script. The process may have changed in between: other connections share it. -/
inductive Handled (W : Type) [Os W] (fd : Int) (block : ServerBlock) :
    Client → Prop
  | connect : Handled W fd block (.connect fd block)
  | receive {process process' : Process W} {client client' : Client}
      {bytes : Str} : Handled W fd block client →
        receive process client bytes = .ok (process', client') →
          cgiBodies (actsSince process process') = [] →
            Handled W fd block client'

structure HandledInvariant (W : Type) [Os W] (block : ServerBlock)
    (client : Client) : Prop where
  routes : client.serverClientObj.routes = block.routes
  inline : Inline client.request.location
  keepAlive : client.keepAlive = false
  settled : (client.response.response = [] ∧
    client.response.readyToSend = false ∧ client.allRecv = false) ∨
      Answered W client

variable {process process' : Process W} {client client' : Client}
  {block : ServerBlock}

theorem parseOnce_rewrites {world : W} {parsed : Client}
    (h : parseOnce world client = .ok parsed) :
    Rewrites W client parsed ∧ KeepsInline client parsed ∧
      (client.keepAlive = false → parsed.keepAlive = false) ∧
      (parsed.response.readyToSend = false →
        parsed.allRecv = client.allRecv) := by
  cases parseOnce_cases h with
  | inl hfresh =>
      refine ⟨(rewrites_parseRule W).parseRequest hfresh.2,
        (keepsInline_rule W).parseRequest hfresh.2,
        fun _ => parseRequest_keepAlive hfresh.2, fun hready => ?_⟩
      obtain ⟨parts, located, haccepted⟩ :=
        parseRequest_accepted hfresh.2 hready
      exact haccepted.allRecv
  | inr hkept =>
      obtain ⟨-, rfl⟩ := hkept
      exact ⟨(rewrites_rule W).refl _, (keepsInline_rule W).refl _, id,
        fun _ => rfl⟩

theorem receive_invariant {bytes : Str}
    (hlocations : InlineLocations block.routes)
    (hinvariant : HandledInvariant W block client)
    (h : receive process client bytes = .ok (process', client'))
    (hquiet : cgiBodies (actsSince process process') = []) :
    HandledInvariant W block client' := by
  rcases receive_cases h with ⟨-, rfl, rfl⟩ | ⟨hopen, parsed, hparsed, h⟩
  · exact hinvariant
  obtain ⟨hrewrites, ⟨hroutes, hinline⟩, halive, hall⟩ :=
    parseOnce_rewrites hparsed
  have hserved := dispatchRequest_served h
  obtain ⟨file, sRequest, hrequest⟩ := hserved.request
  have halive' : parsed.keepAlive = false := halive hinvariant.keepAlive
  refine ⟨?_, ?_, hserved.keepAlive.trans halive', ?_⟩
  · rw [hserved.block, hroutes]
    exact hinvariant.routes
  · rw [hrequest]
    refine hinline ?_ hinvariant.inline
    change InlineLocations client.serverClientObj.routes
    rw [hinvariant.routes]
    exact hlocations
  -- the response behind the parsing
  have hbefore : SameAnswer client (client.setSRequest bytes).forgetLocation :=
    ⟨rfl, rfl, rfl, rfl, rfl⟩
  have hparsed' : (parsed.response.response = [] ∧
      parsed.response.readyToSend = false) ∨ Answered W parsed := by
    cases hrewrites with
    | inr hanswered => exact .inr hanswered
    | inl hkept =>
        obtain ⟨hsame, hready⟩ := hkept
        cases hinvariant.settled with
        | inl hwaiting =>
            exact .inl ⟨(hbefore.trans hsame).text.trans hwaiting.1,
              hready.trans hwaiting.2.1⟩
        | inr hanswered =>
            exact .inr (hanswered.of_same (hbefore.trans hsame))
  by_cases hready : parsed.response.readyToSend = true
  · rw [dispatchRequest_of_ready hready] at h
    obtain ⟨-, rfl⟩ := Prod.mk.inj (Except.ok.inj h)
    cases hparsed' with
    | inl hwaiting =>
        rw [hwaiting.2] at hready
        cases hready
    | inr hanswered =>
        exact .inr (hanswered.of_same ⟨rfl, rfl, rfl, rfl, rfl⟩)
  · have hready' : parsed.response.readyToSend = false := by
      simpa using hready
    have hsettled := dispatchRequest_settled halive'
      ((hall hready').trans hopen) hready' hquiet h
    cases hsettled with
    | inr hanswered => exact .inr hanswered
    | inl hwaits =>
        obtain ⟨hopen', hready₁, hsame⟩ := hwaits
        cases hparsed' with
        | inl hwaiting =>
            exact .inl ⟨hsame.text.trans hwaiting.1, hready₁, hopen'⟩
        | inr hanswered => exact .inr (hanswered.of_same hsame)

theorem Handled.invariant {fd : Int}
    (hlocations : InlineLocations block.routes)
    (h : Handled W fd block client) : HandledInvariant W block client := by
  induction h with
  | connect => exact ⟨rfl, ⟨by simp [Client.connect], by simp [Client.connect]⟩,
      rfl, .inl ⟨rfl, rfl, rfl⟩⟩
  | receive _ hreceived hquiet ih =>
      exact receive_invariant hlocations ih hreceived hquiet

theorem Handled.inline {fd : Int}
    (hlocations : InlineLocations block.routes)
    (h : Handled W fd block client) {answer : Answer W}
    (hstored : answer.Stored client) :
    Inline answer.client.request.location :=
  hstored.location ▸ (h.invariant hlocations).inline

/-- Once everything has been received, the response is that of an answer, and
it is a message exactly if the call that built it was proper. -/
theorem response_wellFormed_iff {fd : Int}
    (hlocations : InlineLocations block.routes)
    (h : Handled W fd block client) (hall : client.allRecv = true) :
    (∃ answer : Answer W, answer.Stored client) ∧
      ∀ answer : Answer W, answer.Stored client →
        ((client.response.response ≠ [] ∧
          WellFormedMessage client.response.response) ↔ answer.Proper) := by
  constructor
  · cases (h.invariant hlocations).settled with
    | inl hwaiting =>
        rw [hwaiting.2.2] at hall
        cases hall
    | inr hanswered => exact hanswered
  · intro answer hstored
    rw [hstored.text, and_iff_right_of_imp WellFormedMessage.ne_nil]
    exact answer.wellFormed_iff (h.inline hlocations hstored)

/-- As long as there is no response nothing is announced; afterwards the length
is right exactly if the call that built the response measured it. -/
theorem response_framed_iff {fd : Int}
    (hlocations : InlineLocations block.routes)
    (h : Handled W fd block client) :
    (client.allRecv = false ∧ client.response.response = []) ∨
      (∃ answer : Answer W, answer.Stored client) ∧
        ∀ answer : Answer W, answer.Stored client →
          (Framed client.response.response
            (client.response.fileStream.content.getD []).length ↔
              answer.Measured) := by
  cases (h.invariant hlocations).settled with
  | inl hwaiting => exact .inl ⟨hwaiting.2.2, hwaiting.1⟩
  | inr hanswered =>
      refine .inr ⟨hanswered, fun answer hstored => ?_⟩
      rw [hstored.text, hstored.leftOpen]
      exact answer.framed_iff (h.inline hlocations hstored)

end Handled

/-! A page, a missing file and a listing, each asked for in one buffer. -/

def getPage : Str := "GET / HTTP/1.1\r\n\r\n".toList

def getMissing : Str := "GET /missing HTTP/1.1\r\n\r\n".toList

def getList : Str := "GET /list HTTP/1.1\r\n\r\n".toList

def listedRoute : RouteBlock where
  uri := "/list".toList
  autoindex := true

def listedBlock : ServerBlock where
  routes := [listedRoute]

def listedProcess : Process Disk where
  world := .ofDirectories ["./html".toList, "./html/list".toList]

theorem inlineLocations_nil : InlineLocations ({} : ServerBlock).routes := by
  intro route hroute
  cases hroute

theorem handled_first {process : Process Disk} {block : ServerBlock}
    {bytes : Str} {property : Client → Prop} [DecidablePred property]
    (h : ((receive process (.connect 5 block) bytes).toOption.map fun final =>
      (cgiBodies (actsSince process final.1), decide (property final.2))) =
        some ([], true)) :
    ∃ client, Handled Disk 5 block client ∧ property client := by
  obtain ⟨⟨process', client⟩, hcall, hparts⟩ := ok_of_toOption_map h
  obtain ⟨hquiet, hproperty⟩ := Prod.mk.inj hparts
  exact ⟨client, .receive .connect hcall hquiet, of_decide_eq_true hproperty⟩

theorem handled_page :
    ∃ client, Handled Disk 5 {} client ∧ client.allRecv = true := by
  apply @handled_first pageProcess _ getPage
  decide +kernel

theorem response_wellFormed_page :
    ∃ client, client.allRecv = true ∧
      (∃ answer : Answer Disk, answer.Stored client) ∧
        ∀ answer : Answer Disk, answer.Stored client →
          ((client.response.response ≠ [] ∧
            WellFormedMessage client.response.response) ↔
              answer.Proper) := by
  obtain ⟨client, hhandled, hall⟩ := handled_page
  exact ⟨client, hall, response_wellFormed_iff inlineLocations_nil hhandled
    hall⟩

theorem handled_missing :
    ∃ client, Handled Disk 5 {} client ∧ client.allRecv = true ∧
      "HTTP/1.1 404Not Found".toList <+: client.response.response := by
  apply @handled_first pageProcess _ getMissing
  decide +kernel

/-- A built-in page comes with the status and the reason in one word. -/
theorem response_malformed_missing :
    ∃ client, Handled Disk 5 {} client ∧ client.allRecv = true ∧
      "HTTP/1.1 404Not Found".toList <+: client.response.response ∧
        ¬WellFormedMessage client.response.response := by
  obtain ⟨client, hhandled, hall, hstart⟩ := handled_missing
  refine ⟨client, hhandled, hall, hstart, fun hwell => ?_⟩
  obtain ⟨rest, hrest⟩ := hstart
  have hspace := hwell.space
  rw [← hrest, List.getElem?_append_left (by decide)] at hspace
  exact absurd hspace (by decide)

theorem response_framed_page :
    ∃ client, Handled Disk 5 {} client ∧
      ((client.allRecv = false ∧ client.response.response = []) ∨
        (∃ answer : Answer Disk, answer.Stored client) ∧
          ∀ answer : Answer Disk, answer.Stored client →
            (Framed client.response.response
              (client.response.fileStream.content.getD []).length ↔
                answer.Measured)) := by
  obtain ⟨client, hhandled, -⟩ := handled_page
  exact ⟨client, hhandled, response_framed_iff inlineLocations_nil hhandled⟩

theorem listed_getList :
    ∃ parsed, parseOnce listedProcess.world ((Client.connect 5
      listedBlock).setSRequest getList).forgetLocation = .ok parsed ∧
        Listed listedProcess.world parsed listedRoute
          [".".toList, "..".toList] ∧
            parsed.response.readyToSend = false := by
  have hparts : ((parseOnce listedProcess.world ((Client.connect 5
      listedBlock).setSRequest getList).forgetLocation).toOption.map
        fun parsed => decide (parsed.request.method = "GET".toList ∧
          parsed.request.path = "./html/list".toList ∧
          parsed.serverClientObj = listedBlock.setLocationUrl (some 0) ∧
          parsed.response.readyToSend = false)) = some true := by
    decide +kernel
  obtain ⟨parsed, hparsed, hparts⟩ := ok_of_toOption_map hparts
  obtain ⟨hmethod, hpath, hblock, hready⟩ := of_decide_eq_true hparts
  refine ⟨parsed, hparsed, ⟨hmethod, ?_, ?_, ?_, ?_, ?_, ?_, rfl, ?_⟩, hready⟩
  · rw [hpath]
    decide +kernel
  · rw [hpath]
    decide +kernel
  · rw [hpath]
    decide +kernel
  · rw [hpath]
    decide +kernel
  · unfold indexCandidate
    rw [hpath, hblock]
    decide +kernel
  · rw [hblock]
    decide +kernel
  · rw [hblock]
    change (checkAutoIndex _ parsed [listedRoute]).2 = 2
    rw [checkAutoIndex, hpath, if_neg (by decide +kernel), checkAutoIndex]

/-- An empty directory is listed with 29 bytes more than announced. -/
theorem response_unframed_listing :
    ∃ client, Handled Disk 5 listedBlock client ∧ client.allRecv = true ∧
      ¬Framed client.response.response
        (client.response.fileStream.content.getD []).length := by
  have hparts : ((receive listedProcess (.connect 5 listedBlock)
      getList).toOption.map fun final =>
        (cgiBodies (actsSince listedProcess final.1), final.2.allRecv)) =
          some ([], true) := by
    decide +kernel
  obtain ⟨⟨process', client⟩, hcall, hparts⟩ := ok_of_toOption_map hparts
  obtain ⟨hquiet, hall⟩ := Prod.mk.inj hparts
  refine ⟨client, .receive .connect hcall hquiet, hall, ?_⟩
  rcases receive_cases hcall with ⟨hclosed, -⟩ | ⟨-, parsed, hparsed, hnext⟩
  · cases hclosed
  obtain ⟨parsed', hparsed', hlisted, hready⟩ := listed_getList
  rw [hparsed] at hparsed'
  obtain rfl := Except.ok.inj hparsed'
  obtain ⟨base, htext⟩ := hlisted.dispatchRequest hready hnext
  rw [htext]
  exact not_framed_listing parsed base _ _

end Webserv
