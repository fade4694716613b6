import Webserv.ScriptStatics

namespace Webserv

open Cxx

/-! The statics of the body handlers over the runs of the server. -/

section Buffers

variable {W : Type} [Os W] {process process' : Process W}
  {client client' : Client}

/-- The condition on a buffer of a `POST` that is not answered yet. -/
def ResetsStatics (process : Process W) (client : Client) : Prop :=
  match scriptEntries client with
  | some (slot, entries) => ResetsScript slot entries process client
  | none =>
      if (checkUri process.world client).2 = false then process.Idle
      else ResetsBody process client

theorem answerCreated_allRecv (process : Process W) (client : Client) :
    (answerCreated process client).allRecv = client.allRecv := by
  unfold answerCreated
  split
  · rename_i hall
    rw [setResponseError_allRecv, hall.1]
  · rfl

theorem dispatchRequest_idle (hmethod : client.request.method = "POST".toList)
    (hready : client.response.readyToSend = false)
    (hopen : client.allRecv = false)
    (hbut : scriptEntries client = none →
      process.IdleBut (bodyKind client))
    (hclean : ResetsStatics process client)
    (h : dispatchRequest process client = .ok (process', client')) :
    (client'.allRecv = true → process'.Idle) ∧
      (scriptEntries client = none →
        process'.IdleBut (bodyKind client)) := by
  unfold dispatchRequest at h
  rw [if_neg (by simp [hready])] at h
  obtain ⟨⟨taken, client₁, isCgi⟩, hcgi, h⟩ := bind_ok h
  have hentries := checkIfHaveCgi_entries hmethod hcgi
  unfold ResetsStatics at hclean
  cases hscript : scriptEntries client with
  | some entry =>
      obtain ⟨slot, entries⟩ := entry
      rw [hscript] at hentries hclean
      obtain ⟨htaken, rfl⟩ := hentries
      obtain ⟨rfl, rfl⟩ := Prod.mk.inj (Except.ok.inj h)
      exact ⟨htaken.idle hclean, fun hnone => by cases hnone⟩
  | none =>
      rw [hscript] at hentries hclean
      obtain ⟨rfl, rfl, rfl⟩ := hentries
      have hbut := hbut hscript
      have hpost : postRequest taken client₁ = .ok (process', client') := by
        simp only [Bool.false_eq_true, if_false, hready] at h
        unfold dispatchMethod at h
        rw [if_neg (by rw [hmethod]; decide), if_pos hmethod] at h
        exact h
      unfold postRequest at hpost
      simp only at hpost hclean
      split at hpost
      · rename_i hrefused
        obtain ⟨rfl, rfl⟩ := Prod.mk.inj (Except.ok.inj hpost)
        rw [if_pos hrefused] at hclean
        exact ⟨fun _ => hclean, fun _ => hbut⟩
      · rename_i hdirectory
        rw [if_neg hdirectory] at hclean
        rw [checkUri_directory (by simpa using hdirectory)] at hpost
        obtain ⟨⟨posted, client₂⟩, htake, hpost⟩ := bind_ok hpost
        obtain ⟨rfl, rfl⟩ := Prod.mk.inj (Except.ok.inj hpost)
        obtain ⟨hidle, hlater⟩ := takeBody_idle hopen hbut hclean htake
        rw [answerCreated_allRecv]
        exact ⟨hidle, fun _ => hlater⟩

/-! No other request changes the statics. -/

def KeepsStatics (process process' : Process W) : Prop :=
  ∃ world effects,
    process' = { process with world := world, effects := effects }

omit [Os W] in
theorem KeepsStatics.refl (process : Process W) :
    KeepsStatics process process :=
  ⟨_, _, rfl⟩

omit [Os W] in
theorem KeepsStatics.trans {process'' : Process W}
    (hfirst : KeepsStatics process process')
    (hsecond : KeepsStatics process' process'') :
    KeepsStatics process process'' := by
  obtain ⟨_, _, rfl⟩ := hfirst
  obtain ⟨_, _, rfl⟩ := hsecond
  exact ⟨_, _, rfl⟩

omit [Os W] in
theorem KeepsStatics.idle (h : KeepsStatics process process')
    (hidle : process.Idle) : process'.Idle := by
  obtain ⟨_, _, rfl⟩ := h
  exact ⟨hidle.post, hidle.chunkRequest, hidle.part, hidle.cgiChunk,
    hidle.bodyCgi⟩

omit [Os W] in
theorem KeepsStatics.idleBut {kind : BodyKind}
    (h : KeepsStatics process process') (hbut : process.IdleBut kind) :
    process'.IdleBut kind := by
  obtain ⟨_, _, rfl⟩ := h
  exact ⟨hbut.first, hbut.file, hbut.post, hbut.chunkRequest, hbut.part,
    hbut.cgiChunk, hbut.bodyCgi⟩

theorem cgiHandler_keeps (process : Process W) (client : Client)
    (body sn : Str) :
    KeepsStatics process (cgiHandler process client body sn).1 := by
  obtain ⟨world, hprocess⟩ := (cgiHandler_run process client body sn).process
  exact ⟨world, _, hprocess⟩

theorem cgiExtensions_keeps {ex path : Str} {extensions : List Str}
    {bol bol' : Bool} (hmethod : client.request.method ≠ "POST".toList)
    (h : cgiExtensions ex path extensions process client bol =
      .ok (process', client', bol')) :
    KeepsStatics process process' := by
  induction extensions generalizing process client bol with
  | nil =>
      obtain ⟨rfl, -⟩ := Prod.mk.inj (Except.ok.inj h)
      exact .refl process
  | cons extension rest ih =>
      rw [cgiExtensions] at h
      by_cases hmatch : extension = ex
      · rw [if_pos hmatch, if_neg hmethod] at h
        split at h
        · have hserved := (markAlive_served _ _).after
            (cgiHandler_served process (client.setAllRecv true) [] path)
          obtain ⟨file, sRequest, hrequest⟩ := hserved.request
          have hmethod' : (markAlive (cgiHandler process
              (client.setAllRecv true) [] path).2).request.method ≠
                "POST".toList := by
            rw [hrequest]
            exact hmethod
          exact (cgiHandler_keeps ..).trans (ih hmethod' h)
        · obtain ⟨rfl, -⟩ := Prod.mk.inj (Except.ok.inj h)
          exact .refl process
      · rw [if_neg hmatch] at h
        exact ih hmethod h

theorem checkIfHaveCgi_keeps {bol : Bool}
    (hmethod : client.request.method ≠ "POST".toList)
    (h : checkIfHaveCgi process client = .ok (process', client', bol)) :
    KeepsStatics process process' := by
  unfold checkIfHaveCgi at h
  simp only at h
  split at h
  · obtain ⟨rfl, -⟩ := Prod.mk.inj (Except.ok.inj h)
    exact .refl process
  split at h
  · exact cgiExtensions_keeps hmethod h
  · unfold cgiServer at h
    rw [if_neg hmethod] at h
    split at h
    · obtain ⟨rfl, -⟩ := Prod.mk.inj (Except.ok.inj h)
      exact cgiHandler_keeps ..
    · obtain ⟨rfl, -⟩ := Prod.mk.inj (Except.ok.inj h)
      exact .refl process

theorem dispatchRequest_keeps
    (hmethod : client.request.method ≠ "POST".toList)
    (h : dispatchRequest process client = .ok (process', client')) :
    KeepsStatics process process' := by
  unfold dispatchRequest at h
  split at h
  · obtain ⟨rfl, -⟩ := Prod.mk.inj (Except.ok.inj h)
    exact .refl process
  obtain ⟨⟨taken, client₁, isCgi⟩, hcgi, h⟩ := bind_ok h
  have htaken := checkIfHaveCgi_keeps hmethod hcgi
  obtain ⟨file, sRequest, hrequest⟩ := (checkIfHaveCgi_served hcgi).request
  have hmethod₁ : client₁.request.method ≠ "POST".toList := by
    rw [hrequest]
    exact hmethod
  refine htaken.trans ?_
  simp only at h
  split at h
  · obtain ⟨rfl, -⟩ := Prod.mk.inj (Except.ok.inj h)
    exact .refl taken
  split at h
  · obtain ⟨rfl, -⟩ := Prod.mk.inj (Except.ok.inj h)
    exact .refl taken
  unfold dispatchMethod at h
  split at h
  · obtain ⟨answered, -, h⟩ := bind_ok h
    obtain ⟨rfl, -⟩ := Prod.mk.inj (Except.ok.inj h)
    exact .refl taken
  split at h
  · obtain ⟨rfl, -⟩ := Prod.mk.inj (Except.ok.inj h)
    exact ⟨_, _, rfl⟩
  · obtain ⟨rfl, -⟩ := Prod.mk.inj (Except.ok.inj h)
    exact .refl taken

end Buffers

/-- A `POST` that has not been received as a whole. -/
def Client.Posting (client : Client) : Prop :=
  client.request.index = true ∧ client.request.method = "POST".toList ∧
    client.allRecv = false

instance (client : Client) : Decidable client.Posting :=
  inferInstanceAs (Decidable (_ ∧ _))

theorem resetsBody_plain {W : Type} [Os W] {process : Process W}
    {client : Client} (hkind : bodyKind client = .plain)
    (hthere : process.post.first ≠ 0 →
      client.request.file.isOpen = true) : ResetsBody process client := by
  intro hparts
  unfold bodyRead
  rw [hkind, if_neg (by decide)]
  refine ⟨fun _ _ => rfl, fun hlater _ => hthere hlater, ?_, ?_, ?_⟩
  · intro _ hpieces
    exact absurd rfl hpieces
  · intro _ _ stream _
    split <;> rfl
  · intro hpieces
    cases hpieces

theorem parsed_of_posting {W : Type} [Os W] {world : W}
    {client parsed : Client} {bytes : Str} (hposting : client.Posting)
    (hparsed : parseOnce world (client.setSRequest bytes).forgetLocation =
      .ok parsed) :
    parsed = (client.setSRequest bytes).forgetLocation := by
  cases parseOnce_cases hparsed with
  | inl hfresh =>
      have hindex : client.request.index = false := hfresh.1
      rw [hposting.1] at hindex
      cases hindex
  | inr hkept => exact hkept.2

theorem scriptExtension?_of_entries {client : Client}
    (h : scriptEntries client = none)
    (hselected : client.serverClientObj.selected = none) :
    scriptExtension? client.request.path = none := by
  unfold scriptEntries at h
  split at h
  · assumption
  · rw [hselected] at h
    cases h

namespace Session

variable {W : Type} [Os W]

/-- No client's `POST` is begun while another client's is in progress. -/
def OnePost (session : Session W) : Event → Prop
  | .receive fd bytes => ∀ client parsed other owner,
      session.clients fd = some client → client.allRecv = false →
      parseOnce session.process.world
        (client.setSRequest bytes).forgetLocation = .ok parsed →
      parsed.request.method = "POST".toList →
      parsed.response.readyToSend = false →
      session.clients other = some owner → owner.Posting → other = fd
  | _ => True

/-- The condition on one event: a `POST` that ends with it is one whose
statics are reset. -/
def EndsIdle (session : Session W) : Event → Prop
  | .connect fd _ => ∀ client, session.clients fd = some client →
      client.Posting → session.process.Idle
  | .close fd => ∀ client, session.clients fd = some client →
      client.Posting → session.process.Idle
  | .receive fd bytes => ∀ client parsed,
      session.clients fd = some client → client.allRecv = false →
      parseOnce session.process.world
        (client.setSRequest bytes).forgetLocation = .ok parsed →
      parsed.request.method = "POST".toList →
      if parsed.response.readyToSend then
        client.Posting → session.process.Idle
      else ResetsStatics session.process parsed

/-- The invariant: at most one `POST` is in progress, and what it leaves
alone is idle; between two of them everything is. -/
structure IdleBetween (session : Session W) : Prop where
  idle : (∀ fd client, session.clients fd = some client →
    ¬client.Posting) → session.process.Idle
  only : ∀ fd fd' client client', session.clients fd = some client →
    session.clients fd' = some client' → client.Posting → client'.Posting →
      fd = fd'
  body : ∀ fd client, session.clients fd = some client → client.Posting →
    scriptExtension? client.request.path = none →
      session.process.IdleBut (bodyKind client)

omit [Os W] in
theorem IdleBetween.replace {session : Session W} {fd : Int}
    {changed : Option Client} {process' : Process W}
    (h : IdleBetween session)
    (hkeeps : KeepsStatics session.process process')
    (hchanged : ∀ client, changed = some client → ¬client.Posting)
    (hended : ∀ client, session.clients fd = some client → client.Posting →
      process'.Idle) :
    IdleBetween { process := process'
                  clients := Function.update session.clients fd changed } := by
  -- the clients in progress are those of the state before
  have hbefore : ∀ other client,
      Function.update session.clients fd changed other = some client →
      client.Posting → session.clients other = some client := by
    intro other client hclient hposting
    by_cases hfd : other = fd
    · subst hfd
      exact absurd hposting (hchanged client (by simpa using hclient))
    · simpa [hfd] using hclient
  refine ⟨fun hnone => ?_, ?_, ?_⟩
  · by_cases hposting : ∃ client, session.clients fd = some client ∧
        client.Posting
    · obtain ⟨client, hclient, hposting⟩ := hposting
      exact hended client hclient hposting
    · refine hkeeps.idle (h.idle fun other client hclient hother => ?_)
      by_cases hfd : other = fd
      · subst hfd
        exact hposting ⟨client, hclient, hother⟩
      · exact hnone other client (by simpa [hfd] using hclient) hother
  · intro other other' client client' hclient hclient' hposting hposting'
    exact h.only other other' client client'
      (hbefore other client hclient hposting)
      (hbefore other' client' hclient' hposting') hposting hposting'
  · intro other client hclient hposting hscript
    exact hkeeps.idleBut
      (h.body other client (hbefore other client hclient hposting) hposting
        hscript)

omit [Os W] in
theorem update_same {session : Session W} {fd : Int} {client : Client}
    (h : session.clients fd = some client) :
    Function.update session.clients fd (some client) = session.clients := by
  rw [← h, Function.update_eq_self]

theorem IdleBetween.handled {session : Session W} {fd : Int} {bytes : Str}
    {client parsed client' : Client} {process' : Process W}
    (h : IdleBetween session) (hone : OnePost session (.receive fd bytes))
    (hclient : session.clients fd = some client)
    (hopen : client.allRecv = false)
    (hparsed : parseOnce session.process.world
      (client.setSRequest bytes).forgetLocation = .ok parsed)
    (hmethod : parsed.request.method = "POST".toList)
    (hready : parsed.response.readyToSend = false)
    (hclean : ResetsStatics session.process parsed)
    (hdispatch : dispatchRequest session.process parsed =
      .ok (process', client')) :
    IdleBetween { process := process'
                  clients :=
                    Function.update session.clients fd (some client') } := by
  -- any other `POST` in progress is excluded
  have hother : ∀ other owner, session.clients other = some owner →
      owner.Posting → other = fd := fun other owner howner hposting =>
    hone client parsed other owner hclient hopen hparsed hmethod hready howner
      hposting
  obtain ⟨hindex, hall⟩ := parseOnce_open hparsed hready
  have hopen' : parsed.allRecv = false := hall.trans hopen
  have hbut : scriptEntries parsed = none →
      session.process.IdleBut (bodyKind parsed) := by
    intro hscript
    by_cases hposting : client.Posting
    · obtain rfl := parsed_of_posting hposting hparsed
      have hfree := scriptExtension?_of_entries hscript rfl
      exact h.body fd client hclient hposting hfree
    · refine (h.idle fun other owner howner hagain => ?_).but _
      obtain rfl := hother other owner howner hagain
      obtain rfl := Option.some.inj (hclient.symm.trans howner)
      exact hposting hagain
  obtain ⟨hidle, hlater⟩ := dispatchRequest_idle hmethod hready hopen' hbut
    hclean hdispatch
  obtain ⟨file, sRequest, hrequest⟩ := (dispatchRequest_served hdispatch).request
  have honly : ∀ other owner,
      Function.update session.clients fd (some client') other = some owner →
      owner.Posting → other = fd ∧ owner = client' := by
    intro other owner howner hposting
    by_cases hfd : other = fd
    · subst hfd
      exact ⟨rfl, (by simpa using howner.symm)⟩
    · exact absurd (hother other owner (by simpa [hfd] using howner) hposting)
        hfd
  refine ⟨fun hnone => ?_, ?_, ?_⟩
  · apply hidle
    by_contra hmore
    refine hnone fd client' (by simp) ⟨?_, ?_, by simpa using hmore⟩
    · rw [hrequest]
      exact hindex
    · rw [hrequest]
      exact hmethod
  · intro other other' owner owner' howner howner' hposting hposting'
    exact (honly other owner howner hposting).1.trans
      (honly other' owner' howner' hposting').1.symm
  · intro other owner howner hposting hscript
    obtain ⟨rfl, rfl⟩ := honly other owner howner hposting
    have hpath : owner.request.path = parsed.request.path := by rw [hrequest]
    have hkind : bodyKind owner = bodyKind parsed := by
      unfold bodyKind
      rw [hrequest]
      rfl
    rw [hpath] at hscript
    rw [hkind]
    exact hlater (scriptEntries_of_extension hscript)

theorem step_idleBetween {session next : Session W} {event : Event}
    (hinvariant : IdleBetween session)
    (hcondition : OnePost session event ∧ EndsIdle session event)
    (h : step session event = .ok next) : IdleBetween next := by
  obtain ⟨hone, hends⟩ := hcondition
  cases event with
  | connect fd block =>
      obtain rfl := Except.ok.inj h
      refine hinvariant.replace (.refl _) ?_ hends
      rintro client ⟨⟩ hposting
      exact Bool.false_ne_true hposting.1
  | close fd =>
      obtain rfl := Except.ok.inj h
      exact hinvariant.replace (.refl _) (by simp) hends
  | receive fd bytes =>
      rw [step] at h
      split at h
      · obtain rfl := Except.ok.inj h
        exact hinvariant
      rename_i client hclient
      split at h
      · cases h
      rename_i process' client' hhandled
      obtain rfl := Except.ok.inj h
      rcases receive_cases hhandled with
        ⟨-, rfl, rfl⟩ | ⟨hopen, parsed, hparsed, hdispatch⟩
      · rw [update_same hclient]
        exact hinvariant
      have hends := hends client parsed hclient hopen hparsed
      by_cases hmethod : parsed.request.method = "POST".toList
      · have hends := hends hmethod
        split at hends
        · rename_i hready
          rw [dispatchRequest_of_ready hready] at hdispatch
          obtain ⟨rfl, rfl⟩ := Prod.mk.inj (Except.ok.inj hdispatch)
          refine hinvariant.replace (.refl _) ?_ ?_
          · rintro owner ⟨⟩ hposting
            exact Bool.false_ne_true hposting.2.2.symm
          · intro owner howner hposting
            obtain rfl := Option.some.inj (hclient.symm.trans howner)
            exact hends hposting
        · rename_i hready
          exact hinvariant.handled hone hclient hopen hparsed hmethod
            (by simpa using hready) hends hdispatch
      · refine hinvariant.replace (dispatchRequest_keeps hmethod hdispatch)
          ?_ ?_
        · rintro owner ⟨⟩ hposting
          obtain ⟨file, sRequest, hrequest⟩ :=
            (dispatchRequest_served hdispatch).request
          refine hmethod ?_
          have hposted := hposting.2.1
          rw [hrequest] at hposted
          exact hposted
        · intro owner howner hposting
          obtain rfl := Option.some.inj (hclient.symm.trans howner)
          obtain rfl := parsed_of_posting hposting hparsed
          exact absurd hposting.2.1 hmethod

/-- In a run in which every `POST` ends with its statics reset, they are at
their initial values whenever none is in progress. -/
theorem run_idle {world : W} {final : Session W} {events : List Event}
    (hone : Machine.Meets step OnePost (initial world) events)
    (hends : Machine.Meets step EndsIdle (initial world) events)
    (hrun : Machine.run step (initial world) events = .ok final)
    (hnone : ∀ fd client, final.clients fd = some client →
      ¬client.Posting) :
    final.process.Idle := by
  have hstart : IdleBetween (initial world) := by
    refine ⟨fun _ => ⟨rfl, rfl, ⟨rfl, rfl, rfl, rfl, rfl⟩, rfl, rfl⟩, ?_, ?_⟩
    · intro fd fd' client client' hclient
      cases hclient
    · intro fd client hclient
      cases hclient
  exact (Machine.run_invariant
    (fun _ _ _ hinvariant hcondition =>
      step_idleBetween hinvariant hcondition)
    hstart (hone.and hends) hrun).idle hnone

/-! With one connection there is one `POST` at most. -/

def Event.fd : Event → Int
  | .connect fd _ => fd
  | .receive fd _ => fd
  | .close fd => fd

theorem step_clients {session next : Session W} {event : Event}
    (h : step session event = .ok next) {other : Int}
    (hother : other ≠ event.fd) :
    next.clients other = session.clients other := by
  cases event with
  | connect fd block =>
      obtain rfl := Except.ok.inj h
      exact Function.update_of_ne hother _ _
  | close fd =>
      obtain rfl := Except.ok.inj h
      exact Function.update_of_ne hother _ _
  | receive fd bytes =>
      rw [step] at h
      split at h
      · obtain rfl := Except.ok.inj h
        rfl
      split at h
      · cases h
      obtain rfl := Except.ok.inj h
      exact Function.update_of_ne hother _ _

def Single (fd : Int) (session : Session W) : Prop :=
  ∀ other, other ≠ fd → session.clients other = none

theorem Single.step {fd : Int} {session next : Session W} {event : Event}
    (hsingle : Single fd session) (hfd : event.fd = fd)
    (h : step session event = .ok next) : Single fd next := by
  intro other hother
  rw [step_clients h (by rw [hfd]; exact hother)]
  exact hsingle other hother

theorem Single.meets {fd : Int} {session : Session W} {events : List Event}
    (hsingle : Single fd session)
    (hevents : ∀ event ∈ events, event.fd = fd) :
    Machine.Meets Session.step OnePost session events := by
  induction events generalizing session with
  | nil => trivial
  | cons event rest ih =>
      have hfd := hevents event List.mem_cons_self
      refine ⟨?_, fun next hnext => ih (hsingle.step hfd hnext)
        fun later hlater => hevents later (List.mem_cons_of_mem _ hlater)⟩
      cases event with
      | connect fd block => trivial
      | close fd => trivial
      | receive fd' bytes =>
          intro client parsed other owner _ _ _ _ _ howner _
          by_contra hother
          obtain rfl : fd' = fd := hfd
          rw [hsingle other hother] at howner
          cases howner

theorem Single.run {fd : Int} {session final : Session W}
    {events : List Event} (hsingle : Single fd session)
    (hevents : ∀ event ∈ events, event.fd = fd)
    (hrun : Machine.run Session.step session events = .ok final) :
    Single fd final := by
  induction events generalizing session with
  | nil =>
      obtain rfl := Except.ok.inj hrun
      exact hsingle
  | cons event rest ih =>
      obtain ⟨next, hnext, hrest⟩ := Machine.run_cons_ok hrun
      exact ih (hsingle.step (hevents event List.mem_cons_self) hnext)
        (fun later hlater => hevents later (List.mem_cons_of_mem _ hlater))
        hrest

/-! A body of two bytes. -/

def idleBlock : ServerBlock := { clientBodySize := 2 }

def twoByteHead : Str :=
  "POST / HTTP/1.1\r\nHost: h\r\nContent-Length: 2\r\n\r\n".toList

/-- A plain body is taken, with its file open behind the first buffer. -/
def takesPlain (session : Session Disk) (fd : Int) (bytes : Str) : Bool :=
  match session.clients fd with
  | none => false
  | some client =>
      match parseOnce session.process.world
        (client.setSRequest bytes).forgetLocation with
      | .error _ => false
      | .ok parsed =>
          decide (parsed.response.readyToSend = false ∧
            scriptEntries parsed = none ∧
            (checkUri session.process.world parsed).2 = true ∧
            bodyKind parsed = .plain ∧
            (session.process.post.first ≠ 0 →
              parsed.request.file.isOpen = true))

theorem endsIdle_of_takesPlain {session : Session Disk} {fd : Int}
    {bytes : Str} (h : takesPlain session fd bytes = true) :
    EndsIdle session (.receive fd bytes) := by
  intro client parsed hclient _ hparsed _
  unfold takesPlain at h
  rw [hclient] at h
  simp only [hparsed] at h
  obtain ⟨hready, hscript, huri, hkind, hthere⟩ := of_decide_eq_true h
  rw [if_neg (by simp [hready])]
  unfold ResetsStatics
  rw [hscript]
  simp only
  rw [if_neg (by simp [huri])]
  exact resetsBody_plain hkind hthere

def twoBuffers : List Event :=
  [.connect 5 idleBlock, .receive 5 (twoByteHead ++ "a".toList),
    .receive 5 "b".toList]

theorem run_idle_twoBuffers :
    ∃ final, Machine.run step (initial bodyDisk) twoBuffers = .ok final ∧
      final.process.Idle := by
  have hsingle : Single 5 (initial bodyDisk) := fun _ _ => rfl
  have hevents : ∀ event ∈ twoBuffers, event.fd = 5 := by decide
  have hends : Machine.Meets step EndsIdle (initial bodyDisk) twoBuffers := by
    have hfirst : takesPlain ((initial bodyDisk).setClient 5
        (Client.connect 5 idleBlock)) 5 (twoByteHead ++ "a".toList) =
          true := by decide +kernel
    have hsecond : (step ((initial bodyDisk).setClient 5
        (Client.connect 5 idleBlock)) (.receive 5 (twoByteHead ++
          "a".toList))).toOption.map (takesPlain · 5 "b".toList) =
            some true := by decide +kernel
    refine ⟨fun client hclient => (by cases hclient), ?_⟩
    intro connected hconnected
    obtain rfl := Except.ok.inj hconnected
    refine ⟨endsIdle_of_takesPlain hfirst, ?_⟩
    intro begun hbegun
    rw [hbegun] at hsecond
    exact ⟨endsIdle_of_takesPlain (Option.some.inj hsecond),
      fun _ _ => trivial⟩
  have hanswered : (Machine.run step (initial bodyDisk)
      twoBuffers).toOption.map (fun final =>
        (final.clients 5).all (fun client => !decide client.Posting)) =
      some true := by decide +kernel
  cases hrun : Machine.run step (initial bodyDisk) twoBuffers with
  | error fault =>
      rw [hrun] at hanswered
      cases hanswered
  | ok final =>
      rw [hrun] at hanswered
      have hdone : (final.clients 5).all (fun client =>
          !decide client.Posting) = true := Option.some.inj hanswered
      refine ⟨final, rfl, run_idle (hsingle.meets hevents) hends hrun ?_⟩
      intro fd client hclient
      by_cases hfd : fd = 5
      · subst hfd
        rw [hclient] at hdone
        simpa using hdone
      · rw [hsingle.run hevents hrun fd hfd] at hclient
        cases hclient

def halfBody : List Event :=
  [.connect 5 idleBlock, .receive 5 (twoByteHead ++ "a".toList), .close 5]

theorem run_idle_fails_disconnect :
    ∃ final, Machine.Meets step OnePost (initial bodyDisk) halfBody ∧
      Machine.run step (initial bodyDisk) halfBody = .ok final ∧
      (∀ fd, final.clients fd = none) ∧ ¬final.process.Idle := by
  have hsingle : Single 5 (initial bodyDisk) := fun _ _ => rfl
  have hevents : ∀ event ∈ halfBody, event.fd = 5 := by decide
  have hran : (Machine.run step (initial bodyDisk)
      halfBody).toOption.map (fun final =>
        ((final.clients 5).isNone, decide final.process.Idle)) =
      some (true, false) := by decide +kernel
  cases hrun : Machine.run step (initial bodyDisk) halfBody with
  | error fault =>
      rw [hrun] at hran
      cases hran
  | ok final =>
      rw [hrun] at hran
      obtain ⟨hclosed, hidle⟩ := Prod.mk.inj (Option.some.inj hran)
      refine ⟨final, hsingle.meets hevents, rfl, fun fd => ?_,
        of_decide_eq_false hidle⟩
      by_cases hfd : fd = 5
      · subst hfd
        exact Option.isNone_iff_eq_none.mp hclosed
      · exact hsingle.run hevents hrun fd hfd

end Session

end Webserv
