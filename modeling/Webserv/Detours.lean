import Webserv.UploadConfinement
import Webserv.ChunkedRuns

namespace Webserv

open Cxx Coding

/-! The buffers of a chunked body that do not reach its file: those taken for a
script, those taken for parts, and those of a file that is opened too late. -/

section Scripts

variable {W : Type} [Os W] {process : Process W} {client : Client}

/-- A step on the way of a script: no file is touched, and no `201` given. -/
structure ScriptStep (process : Process W) (client : Client)
    (process' : Process W) (client' : Client) : Prop
    extends Served process client process' client' where
  files : ∀ fd, process'.filesOf fd = process.filesOf fd
  part : process'.part = process.part
  status : client'.response.responseStatus = 201 →
    client.response.responseStatus = 201

namespace ScriptStep

omit [Os W] in
theorem refl (process : Process W) (client : Client) :
    ScriptStep process client process client :=
  ⟨.refl process client, fun _ => rfl, rfl, id⟩

omit [Os W] in
theorem trans {process₁ process₂ : Process W} {client₁ client₂ : Client}
    (h : ScriptStep process client process₁ client₁)
    (h' : ScriptStep process₁ client₁ process₂ client₂) :
    ScriptStep process client process₂ client₂ :=
  ⟨h.toServed.trans h'.toServed,
    fun fd => (h'.files fd).trans (h.files fd), h'.part.trans h.part,
    h.status ∘ h'.status⟩

end ScriptStep

theorem execScript_status (process : Process W) (client : Client)
    (script : Script)
    (h : (execScript process client script).2.response.responseStatus = 201) :
    client.response.responseStatus = 201 := by
  unfold execScript at h
  generalize Os.run process.world script = ran at h
  obtain ⟨world, outcome⟩ := ran
  cases outcome with
  | notStarted => exact h
  | timedOut => simp at h
  | signaled => simp at h
  | exited code content =>
      simp only at h
      split at h
      · simp at h
      split at h
      · simp at h
      split at h
      · simp at h
      split at h
      · simp at h
      · exact h

theorem cgiHandler_step (process : Process W) (client : Client)
    (body sn : Str) :
    ScriptStep process client (cgiHandler process client body sn).1
      (cgiHandler process client body sn).2 := by
  obtain ⟨world, hprocess⟩ := (cgiHandler_run process client body sn).process
  refine ⟨cgiHandler_served process client body sn, fun fd => ?_, ?_,
    fun hcreated => ?_⟩
  · refine @filesOf_cgi _ _ _ client.clientId sn body ?_ fd
    rw [hprocess]
  · rw [hprocess]
  · unfold cgiHandler at hcreated
    simp only at hcreated
    split at hcreated
    · exact execScript_status _ _ _ hcreated
    split at hcreated
    · exact execScript_status _ _ _ hcreated
    · exact hcreated

omit [Os W] in
theorem chunkedForCgiLoop_step {fuel : Nat} {process' : Process W}
    {client' : Client} {tmp : Str}
    (h : chunkedForCgiLoop fuel process client =
      .ok (process', client', tmp)) :
    ScriptStep process client process' client' := by
  have hserved := chunkedForCgiLoop_served h
  induction fuel generalizing process with
  | zero => cases h
  | succ fuel ih =>
      rw [chunkedForCgiLoop] at h
      split at h
      · obtain ⟨rfl, hrest⟩ := Prod.mk.inj (Except.ok.inj h)
        obtain ⟨rfl, -⟩ := Prod.mk.inj hrest
        exact .refl process client
      obtain ⟨line, -, hsized⟩ := bind_ok h
      simp only at hsized
      split at hsized
      · obtain ⟨rfl, hrest⟩ := Prod.mk.inj (Except.ok.inj hsized)
        obtain ⟨rfl, -⟩ := Prod.mk.inj hrest
        exact ⟨hserved, fun _ => rfl, rfl, id⟩
      obtain ⟨data, -, hshort⟩ := bind_ok hsized
      split at hshort
      · obtain ⟨rfl, hrest⟩ := Prod.mk.inj (Except.ok.inj hshort)
        obtain ⟨rfl, -⟩ := Prod.mk.inj hrest
        exact .refl process client
      obtain ⟨request, -, hdata⟩ := bind_ok hshort
      obtain ⟨chunk, -, hrest⟩ := bind_ok hdata
      obtain ⟨left, -, hloop⟩ := bind_ok hrest
      have hnext := ih hloop (chunkedForCgiLoop_served hloop)
      exact ⟨hserved, hnext.files, hnext.part, hnext.status⟩

theorem runOnBody_step (slot : BodySlot) (process : Process W)
    (client : Client) (path : Str) :
    ScriptStep process client (runOnBody slot process client path).1
      (runOnBody slot process client path).2 := by
  have hstep := cgiHandler_step process client (process.getBody slot) path
  have hfinal : ScriptStep process client
      ((cgiHandler process client (process.getBody slot) path).1.setBody slot
        []) (cgiHandler process client (process.getBody slot) path).2 := by
    refine ⟨hstep.toServed.of_finish (Process.setBody_effects ..),
      fun fd => ?_, ?_, hstep.status⟩
    · rw [← hstep.files fd]
      cases slot <;> rfl
    · rw [← hstep.part]
      cases slot <;> rfl
  exact hfinal

theorem cgiPost_step {slot : BodySlot} {path : Str} {process' : Process W}
    {client' : Client}
    (h : cgiPost slot process client path = .ok (process', client')) :
    ScriptStep process client process' client' := by
  have hset : ∀ (before : Process W) (asked : Client) (body : Str),
      ScriptStep before asked (before.setBody slot body) asked := by
    intro before asked body
    refine ⟨.of_effects asked (Process.setBody_effects ..), fun fd => ?_, ?_,
      id⟩ <;> cases slot <;> rfl
  have hran (stored : Process W) (asked : Client) {ran : Process W}
      {answered : Client}
      (hrun : runOnBody slot stored asked path = (ran, answered)) :
      ScriptStep stored asked ran answered := by
    have hstep := runOnBody_step slot stored asked path
    rwa [hrun] at hstep
  rcases cgiPost_cases h with ⟨taken, client₁, tmp, htaken, hnext⟩ | hnext
  · have hstart : ScriptStep process client { process with
        cgiChunk := { process.cgiChunk with
          request := process.cgiChunk.request ++ client.request.sRequest } }
          client :=
      ⟨.of_effects client rfl, fun _ => rfl, rfl, id⟩
    have hread := hstart.trans (chunkedForCgiLoop_step htaken)
    rcases hnext with ⟨-, hrun⟩ | ⟨-, rfl, rfl⟩
    · exact (hread.trans (hset ..)).trans (hran _ _ hrun)
    · exact hread.trans (hset ..)
  · rcases hnext with ⟨ran, answered, hrun, rfl, rfl⟩ | ⟨rfl, rfl⟩
    · exact ((hset process client _).trans (hran _ _ hrun)).trans
        ⟨.setAllRecv .., fun _ => rfl, rfl, id⟩
    · exact hset ..

/-- A connection whose later buffers are taken for those of a script. -/
structure ForScript (client : Client) (ex : Str) : Prop where
  method : client.request.method = "POST".toList
  index : client.request.index = true
  keepAlive : client.keepAlive = false
  extension : scriptExtension? client.request.path = some ex

theorem ForScript.receive {ex bytes : Str} {process' : Process W}
    {client' : Client} (h : ForScript client ex)
    (hcall : receive process client bytes = .ok (process', client')) :
    ForScript client' ex ∧ client'.clientId = client.clientId ∧
      (∀ fd, process'.filesOf fd = process.filesOf fd) ∧
      (client'.response.responseStatus = 201 →
        client.response.responseStatus = 201) := by
  rcases receive_cases hcall with
    ⟨-, rfl, rfl⟩ | ⟨-, parsed, hparsed, hdispatch⟩
  · exact ⟨h, rfl, fun _ => rfl, id⟩
  rcases parseOnce_cases hparsed with ⟨hfresh, -⟩ | ⟨-, rfl⟩
  · have hindex := h.index
    rw [show client.request.index = false from hfresh] at hindex
    cases hindex
  -- from here on the request is that of the head
  have hserved := dispatchRequest_served hdispatch
  obtain ⟨file, sRequest, hrequest⟩ := hserved.request
  refine ⟨⟨?_, ?_, hserved.keepAlive.trans h.keepAlive, ?_⟩, hserved.clientId,
    ?_⟩
  · rw [hrequest]
    exact h.method
  · rw [hrequest]
    exact h.index
  · rw [hrequest]
    exact h.extension
  unfold dispatchRequest at hdispatch
  split at hdispatch
  · obtain ⟨rfl, rfl⟩ := Prod.mk.inj (Except.ok.inj hdispatch)
    exact ⟨fun _ => rfl, id⟩
  obtain ⟨⟨process₁, client₁, isCgi⟩, hcgi, hnext⟩ := bind_ok hdispatch
  unfold checkIfHaveCgi cgiServer at hcgi
  simp only [show scriptExtension?
      (client.setSRequest bytes).forgetLocation.request.path = some ex
      from h.extension,
    show (client.setSRequest bytes).forgetLocation.serverClientObj.selected =
      none from rfl] at hcgi
  rw [if_pos (show (client.setSRequest bytes).forgetLocation.request.method =
    "POST".toList from h.method)] at hcgi
  obtain ⟨⟨process₂, client₂⟩, hpost, hmarked⟩ := bind_ok hcgi
  have hstep := cgiPost_step hpost
  obtain ⟨rfl, hrest⟩ := Prod.mk.inj (Except.ok.inj hmarked)
  obtain ⟨rfl, rfl⟩ := Prod.mk.inj hrest
  rw [markAlive_of_not_alive (hstep.keepAlive.trans h.keepAlive)] at hnext
  simp only [if_true] at hnext
  obtain ⟨rfl, rfl⟩ := Prod.mk.inj (Except.ok.inj hnext)
  exact ⟨hstep.files, hstep.status⟩

theorem ForScript.feed {ex : Str} {buffers : List Str}
    {process' : Process W} {client' : Client} (h : ForScript client ex)
    (hfed : feed process client buffers = .ok (process', client')) :
    (∀ fd, process'.filesOf fd = process.filesOf fd) ∧
      (client'.response.responseStatus = 201 →
        client.response.responseStatus = 201) := by
  induction buffers generalizing process client with
  | nil =>
      obtain ⟨rfl, rfl⟩ := Prod.mk.inj (Except.ok.inj hfed)
      exact ⟨fun _ => rfl, id⟩
  | cons bytes buffers ih =>
      obtain ⟨process₁, client₁, hcall, hrest⟩ := feed_cons_ok hfed
      obtain ⟨hnext, -, hfiles, hstatus⟩ := h.receive hcall
      obtain ⟨hfiles', hstatus'⟩ := ih hnext hrest
      exact ⟨fun fd => (hfiles' fd).trans (hfiles fd), hstatus ∘ hstatus'⟩

end Scripts

/-! `boundary` is handed the coded text, and finds no delimiter at its start. -/

section Parts

variable {W : Type} [Os W] {process : Process W} {client : Client}

omit [Os W] in
theorem boundaryLine_unread {started : Option (Process W)}
    (hfirst : process.part.buffer.head? ≠ some '-')
    (h : boundaryLine process = .ok started) : started = none := by
  unfold boundaryLine at h
  simp only at h
  split at h
  · exact (Except.ok.inj h).symm
  · rename_i firstLineEnd _
    obtain ⟨firstLine, hline, hnext⟩ := bind_ok h
    have hbegins : firstLine <+: process.part.buffer := by
      unfold firstLineOf at hline
      rw [substr_zero] at hline
      simp only [bind, Except.bind] at hline
      split at hline
      · rw [substr_zero] at hline
        rw [← Except.ok.inj hline]
        exact (List.take_prefix _ _).trans (List.take_prefix _ _)
      · rw [← Except.ok.inj hline]
        exact List.take_prefix _ _
    split at hnext
    · rename_i hdashes
      obtain ⟨more, hmore⟩ := hbegins
      have hstart : "--".toList <+: process.part.buffer := by
        rw [← hmore, ← hdashes.2]
        exact (List.take_prefix _ _).trans (List.prefix_append _ _)
      obtain ⟨rest, hrest⟩ := hstart
      exact absurd (by rw [← hrest]; rfl) hfirst
    · exact (Except.ok.inj hnext).symm

theorem boundary_unread {process' : Process W} {client' : Client}
    (hcount : process.part.callCount = 0)
    (hfirst : (process.part.buffer ++ client.request.sRequest).head? ≠
      some '-')
    (h : boundary process client = .ok (process', client')) :
    process' = process.setBuffer
        (process.part.buffer ++ client.request.sRequest) ∧
      client' = client := by
  have hstart : startBoundary (process.setBuffer
      (process.part.buffer ++ client.request.sRequest)) =
        boundaryLine (process.setBuffer
          (process.part.buffer ++ client.request.sRequest)) :=
    if_pos hcount
  unfold boundary at h
  simp only [hstart] at h
  obtain ⟨started, hline, hnext⟩ := bind_ok h
  obtain rfl := boundaryLine_unread (by exact hfirst) hline
  obtain ⟨rfl, rfl⟩ := Prod.mk.inj (Except.ok.inj hnext)
  exact ⟨rfl, rfl⟩

/-- A `POST` whose body is taken for parts, and comes in chunks. -/
structure PartsPost (client : Client) : Prop where
  method : client.request.method = "POST".toList
  index : client.request.index = true
  coding : client.request.getMapValues "Transfer-Encoding".toList =
    "chunked".toList
  multipart : (search? "boundary=".toList
    (client.request.getMapValues "Content-Type".toList)).isSome

/-- What the handlers leave of a call that reaches `boundary`: the answer is
an error, or the text waits. -/
structure PartsCall (process : Process W) (client : Client)
    (process' : Process W) (client' : Client) : Prop
    extends Served process client process' client' where
  files : ∀ fd, process'.filesOf fd = process.filesOf fd
  waits : client'.response.readyToSend = true ∨
    process' = process.setBuffer
      (process.part.buffer ++ client.request.sRequest) ∧ client' = client

theorem PartsPost.postRequest (h : PartsPost client)
    (hopen : client.allRecv = false)
    (hcount : process.part.callCount = 0)
    (hfirst : (process.part.buffer ++ client.request.sRequest).head? ≠
      some '-') {process' : Process W} {client' : Client}
    (hcall : postRequest process client = .ok (process', client')) :
    PartsCall process client process' client' := by
  have hserved := postRequest_served hcall
  unfold Webserv.postRequest at hcall
  simp only at hcall
  split at hcall
  · rename_i hrefused
    obtain ⟨rfl, rfl⟩ := Prod.mk.inj (Except.ok.inj hcall)
    obtain ⟨status, hanswer⟩ := checkUri_refused hrefused
    exact ⟨hserved, fun _ => rfl, .inl (by rw [hanswer]; simp)⟩
  · rename_i haccepted
    rw [checkUri_directory (by simpa using haccepted)] at hcall
    obtain ⟨⟨process₁, client₁⟩, hbody, hanswer⟩ := bind_ok hcall
    unfold takeBody at hbody
    simp only at hbody
    rw [if_pos ⟨h.multipart, by rw [h.coding]; simp⟩] at hbody
    obtain ⟨hprocess, hclient⟩ := boundary_unread hcount hfirst hbody
    obtain ⟨rfl, rfl⟩ := Prod.mk.inj (Except.ok.inj hanswer)
    have hquiet : answerCreated process₁ client₁ = client :=
      (congrArg _ hclient).trans (if_neg (by simp [hopen]))
    refine ⟨hserved, fun _ => ?_, .inr ⟨hprocess, hquiet⟩⟩
    rw [hprocess]
    rfl

/-- Between two buffers of such a body: the text that waits is a beginning of
what has arrived. -/
structure PartsUnread (process : Process W) (client : Client) (wire : Str) :
    Prop extends PartsPost client where
  count : process.part.callCount = 0
  buffer : process.part.buffer <+: wire
  notScript : scriptExtension? client.request.path = none

theorem head?_of_front {text wire : Str} (h : text <+: wire) {c : Char}
    (hfirst : wire.head? ≠ some c) : text.head? ≠ some c := by
  obtain ⟨rest, rfl⟩ := h
  cases text with
  | nil => simp
  | cons first more => simpa using hfirst

theorem PartsUnread.receive {wire bytes : Str}
    (h : PartsUnread process client wire)
    (hwire : process.part.buffer ++ bytes <+: wire)
    (hfirst : wire.head? ≠ some '-') {process' : Process W}
    {client' : Client}
    (hcall : receive process client bytes = .ok (process', client')) :
    (∀ fd, process'.filesOf fd = process.filesOf fd) ∧
      (client'.allRecv = true ∨ client'.response.readyToSend = true ∨
        PartsUnread process' client' wire ∧
          process'.part.buffer = process.part.buffer ++ bytes) := by
  rcases receive_cases hcall with
    ⟨hall, rfl, rfl⟩ | ⟨hopen, parsed, hparsed, hdispatch⟩
  · exact ⟨fun _ => rfl, .inl hall⟩
  rcases parseOnce_cases hparsed with ⟨hfresh, -⟩ | ⟨-, rfl⟩
  · have hindex := h.index
    rw [show client.request.index = false from hfresh] at hindex
    cases hindex
  let waiting := (client.setSRequest bytes).forgetLocation
  have hpost : PartsPost waiting := ⟨h.method, h.index, h.coding, h.multipart⟩
  by_cases hready : client.response.readyToSend = true
  · rw [dispatchRequest_of_ready (by exact hready)] at hdispatch
    obtain ⟨rfl, rfl⟩ := Prod.mk.inj (Except.ok.inj hdispatch)
    exact ⟨fun _ => rfl, .inl rfl⟩
  have hfile : checkIfHaveCgi process waiting =
      .ok (process, waiting, false) := by
    unfold checkIfHaveCgi
    simp only [show waiting.request.path = client.request.path from rfl,
      h.notScript]
  have hunanswered : waiting.response.readyToSend = false :=
    Bool.eq_false_iff.mpr hready
  rw [dispatchRequest_post hunanswered hfile hpost.method] at hdispatch
  have hparts := hpost.postRequest (show waiting.allRecv = false from hopen)
    h.count (head?_of_front hwire hfirst) hdispatch
  refine ⟨hparts.files, ?_⟩
  rcases hparts.waits with hanswered | ⟨rfl, rfl⟩
  · exact .inr (.inl hanswered)
  · exact .inr (.inr ⟨⟨hpost, h.count, hwire, h.notScript⟩, rfl⟩)

theorem receive_index {bytes : Str} {process' : Process W} {client' : Client}
    (hindex : client.request.index = true)
    (hcall : receive process client bytes = .ok (process', client')) :
    client'.request.index = true := by
  obtain ⟨file, sRequest, hrequest⟩ := receive_request hindex hcall
  rw [hrequest]
  exact hindex

theorem receive_clientId {bytes : Str} {process' : Process W}
    {client' : Client}
    (hcall : receive process client bytes = .ok (process', client')) :
    client'.clientId = client.clientId := by
  unfold Webserv.receive at hcall
  split at hcall
  · obtain ⟨-, rfl⟩ := Prod.mk.inj (Except.ok.inj hcall)
    rfl
  · exact (checkRequest_kept hcall).clientId

theorem receive_of_ready {bytes : Str} {process' : Process W}
    {client' : Client} (hindex : client.request.index = true)
    (hready : client.response.readyToSend = true)
    (hcall : receive process client bytes = .ok (process', client')) :
    process' = process ∧ client'.allRecv = true := by
  rcases receive_cases hcall with
    ⟨hall, rfl, rfl⟩ | ⟨-, parsed, hparsed, hdispatch⟩
  · exact ⟨rfl, hall⟩
  rcases parseOnce_cases hparsed with ⟨hfresh, -⟩ | ⟨-, rfl⟩
  · rw [show client.request.index = false from hfresh] at hindex
    cases hindex
  rw [dispatchRequest_of_ready (by exact hready)] at hdispatch
  obtain ⟨rfl, rfl⟩ := Prod.mk.inj (Except.ok.inj hdispatch)
  exact ⟨rfl, rfl⟩

theorem feed_of_ready {buffers : List Str} {process' : Process W}
    {client' : Client} (hindex : client.request.index = true)
    (hready : client.response.readyToSend = true)
    (hfed : feed process client buffers = .ok (process', client')) :
    process' = process := by
  cases buffers with
  | nil =>
      obtain ⟨rfl, -⟩ := Prod.mk.inj (Except.ok.inj hfed)
      rfl
  | cons bytes buffers =>
      obtain ⟨process₁, client₁, hcall, hrest⟩ := feed_cons_ok hfed
      obtain ⟨rfl, hall⟩ := receive_of_ready hindex hready hcall
      rw [feed_of_allRecv hall] at hrest
      obtain ⟨rfl, -⟩ := Prod.mk.inj (Except.ok.inj hrest)
      rfl

theorem PartsUnread.feed {wire : Str} {buffers : List Str}
    (h : PartsUnread process client wire)
    (hwire : process.part.buffer ++ buffers.flatten <+: wire)
    (hfirst : wire.head? ≠ some '-') {process' : Process W}
    {client' : Client}
    (hfed : feed process client buffers = .ok (process', client')) (fd : Int) :
    process'.filesOf fd = process.filesOf fd := by
  induction buffers generalizing process client with
  | nil =>
      obtain ⟨rfl, -⟩ := Prod.mk.inj (Except.ok.inj hfed)
      rfl
  | cons bytes buffers ih =>
      rw [List.flatten_cons, ← List.append_assoc] at hwire
      obtain ⟨process₁, client₁, hcall, hrest⟩ := feed_cons_ok hfed
      obtain ⟨hfiles, hnext⟩ :=
        h.receive ((List.prefix_append _ _).trans hwire) hfirst hcall
      rw [← hfiles fd]
      have hindex : client₁.request.index = true := receive_index h.index hcall
      rcases hnext with hall | hready | ⟨hunread, hbuffer⟩
      · rw [feed_of_allRecv hall] at hrest
        obtain ⟨rfl, -⟩ := Prod.mk.inj (Except.ok.inj hrest)
        rfl
      · rw [feed_of_ready hindex hready hrest]
      · exact ih hunread (by rw [hbuffer]; exact hwire) hrest

theorem PartsPost.feed {head wire first : Str} {rest : List Str}
    {parsed : Client} (h : BodyRequest process client head parsed)
    (hpost : PartsPost parsed) (hcount : process.part.callCount = 0)
    (hbuffer : process.part.buffer = [])
    (hwire : first ++ rest.flatten <+: wire)
    (hfirst : wire.head? ≠ some '-') {process' : Process W}
    {client' : Client}
    (hfed : Webserv.feed process client ((head ++ first) :: rest) =
      .ok (process', client')) (fd : Int) :
    process'.filesOf fd = process.filesOf fd := by
  have hfresh := h.fresh
  obtain ⟨process₁, client₁, hcall, hrest⟩ := feed_cons_ok hfed
  rw [h.receive_post] at hcall
  have hwaiting : PartsPost (parsed.setSRequest first) :=
    ⟨hpost.method, hpost.index, hpost.coding, hpost.multipart⟩
  have hparts := hwaiting.postRequest hfresh.open_ hcount
    (by
      rw [hbuffer]
      exact head?_of_front ((List.prefix_append _ _).trans hwire) hfirst)
    hcall
  obtain ⟨file, sRequest, hrequest⟩ := hparts.request
  have hindex : client₁.request.index = true := by
    rw [hrequest]
    exact hpost.index
  rw [← hparts.files fd]
  rcases hparts.waits with hready | ⟨rfl, rfl⟩
  · rw [feed_of_ready hindex hready hrest]
  cases hscript : scriptExtension? parsed.request.path with
  | some ex =>
      have hlater : ForScript (parsed.setSRequest first) ex :=
        ⟨hpost.method, hpost.index, hfresh.keepAlive, hscript⟩
      exact (hlater.feed hrest).1 fd
  | none =>
      have hunread : PartsUnread (process.setBuffer (process.part.buffer ++
          (parsed.setSRequest first).request.sRequest))
          (parsed.setSRequest first) wire := by
        refine ⟨hwaiting, hcount, ?_, hscript⟩
        rw [hbuffer]
        exact (List.prefix_append _ _).trans hwire
      refine hunread.feed ?_ hfirst hrest fd
      rw [hbuffer]
      exact hwire

end Parts

/-! Without the location of the request, a file that is opened only now goes to
the default directory. -/

def createdPaths (acts : List Act) : List Str :=
  acts.filterMap fun act =>
    match act with
    | .openUpload path true => some path
    | .openPart path true => some path
    | _ => none

theorem map_path_appendLast (bytes : Str) (files : List OutFile) :
    (appendLast bytes files).map OutFile.path = files.map OutFile.path := by
  induction files with
  | nil => rfl
  | cons file files ih =>
      cases files with
      | nil => rfl
      | cons next rest =>
          rw [appendLast, List.map_cons, ih]
          · rfl
          · exact List.cons_ne_nil _ _

theorem map_path_uploadFiles (acts : List Act) :
    (uploadFiles acts).map OutFile.path = createdPaths acts := by
  induction acts using List.reverseRecOn with
  | nil => rfl
  | append_singleton acts act ih =>
      have hcreated : createdPaths (acts ++ [act]) =
          createdPaths acts ++ createdPaths [act] :=
        List.filterMap_append ..
      rw [hcreated, ← ih]
      unfold uploadFiles
      rw [List.foldl_append, List.foldl_cons, List.foldl_nil]
      cases act with
      | openUpload path opened => cases opened <;> simp [createdPaths]
      | openPart path opened => cases opened <;> simp [createdPaths]
      | writeUpload bytes => simp [createdPaths, map_path_appendLast]
      | writePart bytes => simp [createdPaths, map_path_appendLast]
      | remove path => simp [createdPaths]
      | cgi script body => simp [createdPaths]

theorem mem_openedPaths_of_created {acts : List Act} {path : Str}
    (h : path ∈ createdPaths acts) : path ∈ openedPaths acts := by
  obtain ⟨act, hact, hpath⟩ := List.mem_filterMap.mp h
  refine List.mem_filterMap.mpr ⟨act, hact, ?_⟩
  revert hpath
  cases act with
  | openUpload path opened => cases opened <;> simp
  | openPart path opened => cases opened <;> simp
  | writeUpload bytes => simp
  | writePart bytes => simp
  | remove path => simp
  | cgi script body => simp

section Places

variable {W : Type} {process : Process W} {client : Client}

/-- For one connection, files are opened under generated names in one
directory only. -/
def Places (process process' : Process W) (id : Int)
    (directory extension : Str) : Prop :=
  ∃ acts : List Act,
    process'.effects = process.effects ++ acts.map (Effect.mk id) ∧
      ∀ path ∈ openedPaths acts, ∃ i,
        path = generatedPath directory extension i

theorem Places.of_effects {process' : Process W} {id : Int}
    {directory extension : Str}
    (h : process'.effects = process.effects) :
    Places process process' id directory extension :=
  ⟨[], by simp [h], by simp [openedPaths]⟩

theorem Places.trans {first second third : Process W} {id : Int}
    {directory extension : Str}
    (h : Places first second id directory extension)
    (h' : Places second third id directory extension) :
    Places first third id directory extension := by
  obtain ⟨acts, heffects, hplaced⟩ := h
  obtain ⟨acts', heffects', hplaced'⟩ := h'
  refine ⟨acts ++ acts', ?_, fun path hpath => ?_⟩
  · rw [heffects', heffects, List.map_append, List.append_assoc]
  · rw [openedPaths, List.filterMap_append, List.mem_append] at hpath
    exact hpath.elim (hplaced path) (hplaced' path)

theorem Places.filesOf {process' : Process W} {id : Int}
    {directory extension : Str}
    (h : Places process process' id directory extension)
    {files : List OutFile} {file : OutFile}
    (hfiles : process.filesOf id = files)
    (hfiles' : process'.filesOf id = files ++ [file]) :
    ∃ i, file.path = generatedPath directory extension i := by
  obtain ⟨acts, heffects, hplaced⟩ := h
  have hacts := Process.actsOf_of_effects heffects id
  rw [if_pos rfl] at hacts
  have hpaths := congrArg (List.map OutFile.path) hfiles'
  rw [← hfiles, List.map_append, Process.filesOf, Process.filesOf,
    map_path_uploadFiles, map_path_uploadFiles, hacts] at hpaths
  have hcreated : createdPaths (process.actsOf id ++ acts) =
      createdPaths (process.actsOf id) ++ createdPaths acts :=
    List.filterMap_append ..
  rw [hcreated] at hpaths
  have hlast : createdPaths acts = [file.path] :=
    List.append_cancel_left hpaths
  apply hplaced
  apply mem_openedPaths_of_created
  rw [hlast]
  exact List.mem_singleton_self _

variable [Os W]

theorem hanldePostRequest_places {process' : Process W} {client' : Client}
    (h : hanldePostRequest process client = .ok (process', client')) :
    Places process process' client.clientId
      (uploadDirectory client.serverClientObj)
      (uploadExtension client.request) := by
  obtain ⟨acts, heffects, -⟩ := (hanldePostRequest_served h).effects
  have hopens : ∀ paths, Opens process process' paths →
      openedPaths acts = paths := by
    intro paths hpaths
    unfold Opens Process.acts at hpaths
    rw [heffects, List.map_append, List.map_map, openedPaths,
      List.filterMap_append] at hpaths
    have hnew := List.append_cancel_left hpaths
    rw [← hnew, openedPaths]
    simp [Function.comp_def]
  refine ⟨acts, heffects, fun path hpath => ?_⟩
  rcases hanldePostRequest_opens h with ⟨-, hne, index, hone⟩ | ⟨-, hnone⟩
  · rw [hopens _ hone, List.mem_singleton] at hpath
    rw [((getFileName_served process process.world client).2 hne).2] at hpath
    refine ⟨index, ?_⟩
    rw [hpath, generatedPath, partPath]
    simp
  · rw [hopens _ hnone] at hpath
    cases hpath

theorem chunkedLoop_places {fuel : Nat} {process' : Process W}
    {client' : Client}
    (h : chunkedLoop fuel process client = .ok (process', client')) :
    Places process process' client.clientId
      (uploadDirectory client.serverClientObj)
      (uploadExtension client.request) := by
  induction fuel generalizing process client with
  | zero => cases h
  | succ fuel ih =>
      rw [chunkedLoop] at h
      split at h
      · obtain ⟨rfl, -⟩ := Prod.mk.inj (Except.ok.inj h)
        exact .of_effects rfl
      obtain ⟨line, -, hsized⟩ := bind_ok h
      obtain ⟨tmp, -, hshort⟩ := bind_ok hsized
      split at hshort
      · obtain ⟨rfl, -⟩ := Prod.mk.inj (Except.ok.inj hshort)
        exact .of_effects rfl
      split at hshort
      · obtain ⟨rfl, -⟩ := Prod.mk.inj (Except.ok.inj hshort)
        exact .of_effects rfl
      obtain ⟨request, -, hdata⟩ := bind_ok hshort
      obtain ⟨chunkData, -, hposted⟩ := bind_ok hdata
      obtain ⟨⟨process₁, client₁⟩, hpost, hnext⟩ := bind_ok hposted
      obtain ⟨left, -, hloop⟩ := bind_ok hnext
      have hserved := hanldePostRequest_served hpost
      obtain ⟨file, sRequest, hrequest⟩ := hserved.request
      have hfirst := hanldePostRequest_places hpost
      have hrest := ih hloop
      have hextension : uploadExtension client₁.request =
          uploadExtension client.request := by
        rw [hrequest]
        rfl
      rw [hserved.clientId, hserved.block, hextension] at hrest
      exact hfirst.trans hrest

/-- A chunked `POST` without a location, to a target that does not look like a
script. -/
structure Astray (client : Client) : Prop extends ChunkedPost client where
  index : client.request.index = true
  notScript : scriptExtension? client.request.path = none

theorem Astray.receive (h : Astray client) {bytes : Str}
    {process' : Process W} {client' : Client}
    (hcall : receive process client bytes = .ok (process', client')) :
    Places process process' client.clientId "./upload".toList
      (uploadExtension client.request) := by
  rcases receive_cases hcall with
    ⟨hall, rfl, rfl⟩ | ⟨hopen, -, -, -⟩
  · exact .of_effects rfl
  by_cases hready : client.response.readyToSend = true
  · obtain ⟨rfl, -⟩ := receive_of_ready h.index hready hcall
    exact .of_effects rfl
  let waiting := (client.setSRequest bytes).forgetLocation
  have hwaiting : ChunkedPost waiting := ⟨h.method, h.coding, h.single⟩
  rw [Waiting.receive_post ⟨h.method, h.index, hopen,
    Bool.eq_false_iff.mpr hready⟩ h.notScript] at hcall
  unfold Webserv.postRequest at hcall
  simp only at hcall
  split at hcall
  · obtain ⟨rfl, -⟩ := Prod.mk.inj (Except.ok.inj hcall)
    exact .of_effects rfl
  · rename_i haccepted
    rw [checkUri_directory (by simpa using haccepted),
      hwaiting.takeBody] at hcall
    obtain ⟨⟨process₁, client₁⟩, hbody, hanswer⟩ := bind_ok hcall
    obtain ⟨rfl, -⟩ := Prod.mk.inj (Except.ok.inj hanswer)
    unfold chunked at hbody
    have hplaces := chunkedLoop_places hbody
    exact Places.trans (.of_effects rfl) hplaces

theorem Astray.feed (h : Astray client) {buffers : List Str}
    {process' : Process W} {client' : Client}
    (hfed : feed process client buffers = .ok (process', client')) :
    Places process process' client.clientId "./upload".toList
      (uploadExtension client.request) := by
  induction buffers generalizing process client with
  | nil =>
      obtain ⟨rfl, -⟩ := Prod.mk.inj (Except.ok.inj hfed)
      exact .of_effects rfl
  | cons bytes buffers ih =>
      obtain ⟨process₁, client₁, hcall, hrest⟩ := feed_cons_ok hfed
      have hfirst := h.receive hcall
      obtain ⟨file, sRequest, hrequest⟩ := receive_request h.index hcall
      have hid := receive_clientId hcall
      have hnext : Astray client₁ := by
        refine ⟨⟨?_, ?_, ?_⟩, ?_, ?_⟩ <;> rw [hrequest]
        · exact h.method
        · exact h.coding
        · exact h.single
        · exact h.index
        · exact h.notScript
      have hlater := ih hnext hrest
      have hextension : uploadExtension client₁.request =
          uploadExtension client.request := by
        rw [hrequest]
        rfl
      rw [hid, hextension] at hlater
      exact hfirst.trans hlater

end Places

theorem generatedPath_directory {directory directory' extension : Str}
    {i j : Nat} (hnul : '\x00' ∉ directory) (hnul' : '\x00' ∉ directory')
    (h : generatedPath directory extension i =
      generatedPath directory' extension j) : directory = directory' := by
  have hpath : ∀ (dirname : Str) (n : Nat), '\x00' ∉ dirname →
      generatedPath dirname extension n =
        dirname ++ "/file".toList ++ decimal n ++
          (".".toList ++ cStr extension) := by
    intro dirname n hplain
    have hdigits : '\x00' ∉ decimal n := fun hmem =>
      absurd (isDigit_of_mem_decimal hmem) (by decide)
    have hfront : '\x00' ∉ dirname ++ "/file".toList ++ decimal n ++
        ".".toList := by
      simp [hplain, hdigits]
    unfold generatedPath partPath generatedName
    rw [← List.append_assoc _ ".".toList, ← cStr_append hfront]
    simp
  rw [hpath directory i hnul, hpath directory' j hnul'] at h
  have hdigits := congrArg List.reverse (List.append_cancel_right h)
  simp only [List.reverse_append] at hdigits
  -- the digits at the end are those of the number
  have hnumber : ∀ (dirname : Str) (n : Nat),
      ((decimal n).reverse ++ ("/file".toList.reverse ++
        dirname.reverse)).takeWhile Char.isDigit = (decimal n).reverse := by
    intro dirname n
    rw [List.takeWhile_append_of_pos fun c hc =>
      isDigit_of_mem_decimal (List.mem_reverse.mp hc)]
    exact List.append_nil _
  have hsame : (decimal i).reverse = (decimal j).reverse := by
    rw [← hnumber directory i, hdigits, hnumber]
  rw [hsame] at hdigits
  have hnames := List.append_cancel_left hdigits
  exact List.reverse_injective (List.append_cancel_left hnames)

end Webserv
