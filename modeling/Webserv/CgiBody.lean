import Webserv.Buffers
import Webserv.Disk

namespace Webserv

open Cxx

/-! The body of a `POST` to a script, as it reaches `cgi_handler`. -/

def actsSince {W : Type} (process process' : Process W) : List Act :=
  (process'.effects.drop process.effects.length).map Effect.act

/-- The bodies handed to `cgi_handler`. -/
def cgiBodies (acts : List Act) : List Str :=
  acts.filterMap fun act =>
    match act with
    | .cgi _ body => some body
    | _ => none

section Calls

variable {W : Type} [Os W]

def bodiesByCall (process : Process W) (client : Client) :
    List Str → Except Fault (List (List Str))
  | [] => .ok []
  | bytes :: rest => do
      let (process', client') ← receive process client bytes
      let later ← bodiesByCall process' client' rest
      return cgiBodies (actsSince process process') :: later

/-- The first `n` bytes once, at the call that delivers the last of them. -/
def expectedBodies (n : Nat) (bytes : Str) :
    Nat → List Str → List (List Str)
  | _, [] => []
  | seen, buffer :: rest =>
      (if seen < n ∧ n ≤ seen + buffer.length then [bytes.take n] else []) ::
        expectedBodies n bytes (seen + buffer.length) rest

/-- What a script is run on in one call, with the text left over: the buffer
is put behind the text once for each matching entry. -/
def entryBodies (n : Nat) (buffer : Str) : Nat → Str → List Str
  | 0, _ => []
  | entries + 1, text =>
      if (text ++ buffer).length = n then
        (text ++ buffer) :: entryBodies n buffer entries []
      else entryBodies n buffer entries (text ++ buffer)

/-- What scripts are run on in the calls without a location. -/
def laterBodies (n : Nat) : Str → List Str → List (List Str)
  | _, [] => []
  | text, buffer :: rest =>
      if (text ++ buffer).length = n then
        [text ++ buffer] :: rest.map fun _ => []
      else [] :: laterBodies n (text ++ buffer) rest

def allBodies (n entries : Nat) (slots : BodyCgi) (first : Str)
    (rest : List Str) : List (List Str) :=
  let bodies := entryBodies n first entries slots.location
  bodies ::
    if bodies = [] then laterBodies n slots.server rest
    else rest.map fun _ => []

variable {process process' : Process W} {client client' : Client}

/-- A call of `cgi_handler`: one more act, and nothing of the request lost. -/
structure ScriptRun (process : Process W) (client : Client)
    (path body : Str) (process' : Process W) (client' : Client) : Prop where
  process : ∃ world, process' = { process with
    world := world
    effects := process.effects ++ [⟨client.clientId, .cgi path body⟩] }
  request : client'.request = client.request
  block : client'.serverClientObj = client.serverClientObj
  clientId : client'.clientId = client.clientId
  keepAlive : client'.keepAlive = client.keepAlive

theorem execScript_frame (process : Process W) (client : Client)
    (script : Script) :
    (∃ world, (execScript process client script).1 =
      { process with world := world }) ∧
    (execScript process client script).2.request = client.request := by
  unfold execScript
  generalize Os.run process.world script = ran
  obtain ⟨world, outcome⟩ := ran
  cases outcome with
  | notStarted => exact ⟨⟨world, rfl⟩, rfl⟩
  | timedOut => exact ⟨⟨world, rfl⟩, setResponseError_request ..⟩
  | signaled => exact ⟨⟨world, rfl⟩, setResponseError_request ..⟩
  | exited code content =>
      simp only
      split
      · exact ⟨⟨world, rfl⟩, setResponseError_request ..⟩
      split
      · exact ⟨⟨world, rfl⟩, setResponseError_request ..⟩
      split
      · exact ⟨⟨world, rfl⟩, setResponseError_request ..⟩
      split
      · exact ⟨⟨world, rfl⟩, setResponseError_request ..⟩
      · exact ⟨⟨world, rfl⟩, rfl⟩

theorem cgiHandler_run (process : Process W) (client : Client)
    (body sn : Str) :
    ScriptRun process client sn body (cgiHandler process client body sn).1
      (cgiHandler process client body sn).2 := by
  have hserved := cgiHandler_served process client body sn
  refine ⟨?_, ?_, hserved.block, hserved.clientId, hserved.keepAlive⟩
  · unfold cgiHandler
    simp only
    split
    · obtain ⟨⟨world, heq⟩, -⟩ := execScript_frame (process.log client
        (.cgi sn body)) client _
      exact ⟨world, heq⟩
    split
    · obtain ⟨⟨world, heq⟩, -⟩ := execScript_frame (process.log client
        (.cgi sn body)) client _
      exact ⟨world, heq⟩
    · exact ⟨process.world, rfl⟩
  · unfold cgiHandler
    simp only
    split
    · exact (execScript_frame ..).2
    split
    · exact (execScript_frame ..).2
    · rfl

/-- A body that is neither chunked nor for a connection that is kept. -/
structure PlainBody (client : Client) : Prop where
  method : client.request.method = "POST".toList
  coding : client.request.getMapValues "Transfer-Encoding".toList ≠
    "chunked".toList
  keepAlive : client.keepAlive = false

theorem PlainBody.of_request (h : PlainBody client)
    (hrequest : client'.request = client.request)
    (halive : client'.keepAlive = client.keepAlive) : PlainBody client' where
  method := by
    rw [hrequest]
    exact h.method
  coding := by
    rw [hrequest]
    exact h.coding
  keepAlive := halive.trans h.keepAlive

omit [Os W] in
theorem markAlive_of_not_alive (halive : client.keepAlive = false) :
    markAlive client = client := by
  unfold markAlive
  rw [if_neg (by simp [halive])]

omit [Os W] in
@[simp] theorem Process.getBody_setBody (process : Process W)
    (slot : BodySlot) (body : Str) :
    (process.setBody slot body).getBody slot = body := by
  cases slot <;> rfl

theorem cgiPost_wait (h : PlainBody client) (slot : BodySlot) (path : Str)
    (hlength : (process.getBody slot ++ client.request.sRequest).length ≠
      client.request.contentLength) :
    cgiPost slot process client path = .ok (process.setBody slot
      (process.getBody slot ++ client.request.sRequest), client) := by
  unfold cgiPost
  rw [if_neg h.coding]
  simp only [Process.getBody_setBody]
  rw [if_neg (Ne.symm hlength)]

theorem cgiPost_run (h : PlainBody client) (slot : BodySlot) (path : Str)
    (hlength : (process.getBody slot ++ client.request.sRequest).length =
      client.request.contentLength) :
    ∃ ran client', cgiPost slot process client path =
        .ok (ran.setBody slot [], client'.setAllRecv true) ∧
      ScriptRun (process.setBody slot
          (process.getBody slot ++ client.request.sRequest)) client path
        (process.getBody slot ++ client.request.sRequest) ran client' := by
  have hrun := cgiHandler_run (process.setBody slot
    (process.getBody slot ++ client.request.sRequest)) client
    (process.getBody slot ++ client.request.sRequest) path
  refine ⟨_, _, ?_, hrun⟩
  unfold cgiPost
  rw [if_neg h.coding]
  simp only [Process.getBody_setBody]
  rw [if_pos hlength.symm]
  simp only [runOnBody, Process.getBody_setBody]

omit [Os W] in
theorem actsSince_of_effects {effects : List Effect}
    (h : process'.effects = process.effects ++ effects) :
    actsSince process process' = effects.map Effect.act := by
  rw [actsSince, h, List.drop_left]

/-- Between two states of the process scripts have been run on some bodies. -/
def RanOn (process process' : Process W) (bodies : List Str) : Prop :=
  ∃ effects, process'.effects = process.effects ++ effects ∧
    cgiBodies (effects.map Effect.act) = bodies

omit [Os W] in
theorem RanOn.of_effects (h : process'.effects = process.effects) :
    RanOn process process' [] :=
  ⟨[], by rw [h, List.append_nil], rfl⟩

omit [Os W] in
theorem RanOn.trans {process'' : Process W} {bodies more : List Str}
    (hfirst : RanOn process process' bodies)
    (hsecond : RanOn process' process'' more) :
    RanOn process process'' (bodies ++ more) := by
  obtain ⟨effects, heffects, rfl⟩ := hfirst
  obtain ⟨effects', heffects', rfl⟩ := hsecond
  refine ⟨effects ++ effects', ?_, ?_⟩
  · rw [heffects', heffects, List.append_assoc]
  · rw [List.map_append, cgiBodies, List.filterMap_append]
    rfl

omit [Os W] in
theorem RanOn.cgiBodies_eq {bodies : List Str}
    (h : RanOn process process' bodies) :
    cgiBodies (actsSince process process') = bodies := by
  obtain ⟨effects, heffects, rfl⟩ := h
  rw [actsSince_of_effects heffects]

omit [Os W] in
theorem ScriptRun.ranOn {path body : Str} {ran : Process W}
    (h : ScriptRun process client path body ran client')
    (slot : BodySlot) {before : Process W}
    (hbefore : process.effects = before.effects) :
    RanOn before (ran.setBody slot []) [body] := by
  obtain ⟨world, rfl⟩ := h.process
  refine ⟨[⟨client.clientId, .cgi path body⟩], ?_, rfl⟩
  rw [Process.setBody_effects, ← hbefore]

/-- The loop over the extensions: one entry of the list that matches puts the
buffer behind the text once more. -/
theorem cgiExtensions_bodies (ex path : Str) (extensions : List Str)
    (process : Process W) {client : Client} (h : PlainBody client)
    (bol : Bool) :
    ∃ process' client' bol',
      cgiExtensions ex path extensions process client bol =
        .ok (process', client', bol') ∧
      RanOn process process' (entryBodies client.request.contentLength
        client.request.sRequest (extensions.count ex)
        process.bodyCgi.location) ∧
      process'.bodyCgi.server = process.bodyCgi.server ∧
      (if entryBodies client.request.contentLength client.request.sRequest
          (extensions.count ex) process.bodyCgi.location = [] then
        client' = client
      else client'.allRecv = true) ∧
      (bol = true ∨ extensions.count ex ≠ 0 → bol' = true) := by
  induction extensions generalizing process client bol with
  | nil =>
      exact ⟨process, client, bol, rfl, .of_effects rfl, rfl, rfl,
        fun hbol => hbol.resolve_right (by simp)⟩
  | cons extension rest ih =>
      by_cases hmatch : extension = ex
      · subst hmatch
        rw [cgiExtensions, if_pos rfl, if_pos h.method, List.count_cons_self,
          entryBodies]
        by_cases hlength : (process.getBody .location ++
            client.request.sRequest).length = client.request.contentLength
        · obtain ⟨ran, client₁, hpost, hrun⟩ :=
            cgiPost_run h .location path hlength
          have hplain : PlainBody (client₁.setAllRecv true) :=
            h.of_request hrun.request hrun.keepAlive
          have hserver : (ran.setBody .location []).bodyCgi.server =
              process.bodyCgi.server := by
            obtain ⟨world, rfl⟩ := hrun.process
            rfl
          obtain ⟨process', client', bol', htail, hran, hserver', -, hbol⟩ :=
            @ih (ran.setBody .location []) _ hplain true
          have hall : client'.allRecv = true :=
            (cgiExtensions_served htail).allRecv rfl
          refine ⟨process', client', bol', ?_, ?_, hserver'.trans hserver, ?_,
            fun _ => hbol (.inl rfl)⟩
          · rw [hpost]
            simp only [bind, Except.bind]
            rw [markAlive_of_not_alive hplain.keepAlive]
            exact htail
          · have hrequest : (client₁.setAllRecv true).request =
                client.request := hrun.request
            rw [hrequest] at hran
            have hfirst : RanOn process (ran.setBody .location [])
                [process.getBody .location ++ client.request.sRequest] :=
              hrun.ranOn .location (Process.setBody_effects ..)
            change RanOn process process'
              (if (process.getBody .location ++
                client.request.sRequest).length = _ then _ else _)
            rw [if_pos hlength]
            exact hfirst.trans hran
          · change (if (if (process.getBody .location ++
              client.request.sRequest).length = _ then _ else _) = [] then _
                else _)
            rw [if_pos hlength, if_neg (by simp)]
            exact hall
        · obtain ⟨process', client', bol', htail, hran, hserver', hkept,
              hbol⟩ := @ih (process.setBody .location
            (process.getBody .location ++ client.request.sRequest)) _ h true
          refine ⟨process', client', bol', ?_, ?_, hserver', ?_,
            fun _ => hbol (.inl rfl)⟩
          · rw [cgiPost_wait h .location path hlength]
            simp only [bind, Except.bind]
            rw [markAlive_of_not_alive h.keepAlive]
            exact htail
          · have hfirst : RanOn process (process.setBody .location
                (process.getBody .location ++ client.request.sRequest)) [] :=
              .of_effects (Process.setBody_effects ..)
            change RanOn process process'
              (if (process.getBody .location ++
                client.request.sRequest).length = _ then _ else _)
            rw [if_neg hlength]
            exact hfirst.trans hran
          · change (if (if (process.getBody .location ++
              client.request.sRequest).length = _ then _ else _) = [] then _
                else _)
            rw [if_neg hlength]
            exact hkept
      · rw [cgiExtensions, if_neg hmatch, List.count_cons_of_ne hmatch]
        exact ih process h bol

theorem bodiesByCall_cons {bytes : Str} {bodies : List Str}
    {later : List (List Str)} {rest : List Str}
    (hcall : receive process client bytes = .ok (process', client'))
    (hran : RanOn process process' bodies)
    (hrest : bodiesByCall process' client' rest = .ok later) :
    bodiesByCall process client (bytes :: rest) = .ok (bodies :: later) := by
  rw [bodiesByCall, hcall]
  simp only [bind, Except.bind]
  rw [hrest, hran.cgiBodies_eq]
  rfl

theorem bodiesByCall_of_allRecv (hall : client.allRecv = true)
    (rest : List Str) :
    bodiesByCall process client rest = .ok (rest.map fun _ => []) := by
  induction rest with
  | nil => rfl
  | cons bytes rest ih =>
      have hcall : receive process client bytes = .ok (process, client) := by
        unfold receive
        rw [if_pos hall]
      exact bodiesByCall_cons hcall (.of_effects rfl) ih

/-- A client whose script waits for the rest of its body. -/
structure AwaitingBody (client : Client) (ex : Str) : Prop
    extends PlainBody client where
  index : client.request.index = true
  open_ : client.allRecv = false
  unanswered : client.response.readyToSend = false
  extension : scriptExtension? client.request.path = some ex

/-- No location is selected any more at the later buffers. -/
theorem receive_awaiting {ex : Str} (h : AwaitingBody client ex)
    (bytes : Str) :
    receive process client bytes = (do
      let (process, client) ← cgiPost .server process
        (client.setSRequest bytes).forgetLocation client.request.path
      return (process, markAlive client)) := by
  have hplain : PlainBody (client.setSRequest bytes).forgetLocation :=
    ⟨h.method, h.coding, h.keepAlive⟩
  have hready : (client.setSRequest bytes).forgetLocation.response.readyToSend
      = false := h.unanswered
  have hindex : (client.setSRequest bytes).forgetLocation.request.index =
      true := h.index
  have hextension : scriptExtension?
      (client.setSRequest bytes).forgetLocation.request.path = some ex :=
    h.extension
  have hnone : (client.setSRequest bytes).forgetLocation.serverClientObj.selected
      = none := rfl
  unfold receive checkRequest parseOnce
  rw [if_neg (by simp [h.open_]), if_neg (by simp [hindex])]
  simp only [bind, Except.bind]
  unfold dispatchRequest checkIfHaveCgi cgiServer
  rw [if_neg (by simp [hready])]
  simp only [hextension, hnone]
  rw [if_pos hplain.method]
  rw [show (client.setSRequest bytes).forgetLocation.request.path =
    client.request.path from rfl]
  cases cgiPost .server process (client.setSRequest bytes).forgetLocation
    client.request.path with
  | error fault => rfl
  | ok posted => rfl

theorem bodiesByCall_awaiting {ex : Str} (h : AwaitingBody client ex)
    (rest : List Str) :
    bodiesByCall process client rest = .ok (laterBodies
      client.request.contentLength process.bodyCgi.server rest) := by
  induction rest generalizing process client with
  | nil => rfl
  | cons bytes rest ih =>
      have hcall := @receive_awaiting W _ process client ex h bytes
      have hplain : PlainBody (client.setSRequest bytes).forgetLocation :=
        ⟨h.method, h.coding, h.keepAlive⟩
      rw [laterBodies]
      by_cases hlength : (process.bodyCgi.server ++ bytes).length =
          client.request.contentLength
      · rw [if_pos hlength]
        obtain ⟨ran, client₁, hpost, hrun⟩ :=
          cgiPost_run hplain .server client.request.path hlength
        have halive : (client₁.setAllRecv true).keepAlive = false :=
          hrun.keepAlive.trans h.keepAlive
        rw [hpost] at hcall
        simp only [bind, Except.bind] at hcall
        rw [markAlive_of_not_alive halive] at hcall
        have hran : RanOn process (ran.setBody .server [])
            [process.bodyCgi.server ++ bytes] :=
          hrun.ranOn .server (Process.setBody_effects ..)
        exact bodiesByCall_cons hcall hran (bodiesByCall_of_allRecv rfl rest)
      · rw [if_neg hlength]
        rw [cgiPost_wait hplain .server client.request.path hlength] at hcall
        simp only [bind, Except.bind] at hcall
        rw [markAlive_of_not_alive hplain.keepAlive] at hcall
        have hnext : AwaitingBody (client.setSRequest bytes).forgetLocation
            ex :=
          ⟨hplain, h.index, h.open_, h.unanswered, h.extension⟩
        exact bodiesByCall_cons hcall
          (.of_effects (Process.setBody_effects ..)) (ih hnext)

/-- A request whose head is accepted and goes to the scripts of a location. -/
structure ScriptRequest (process : Process W) (client : Client)
    (head : Str) (parsed : Client) (ex : Str) (route : RouteBlock) :
    Prop where
  complete : CompleteHead head
  request : client.request = {}
  open_ : client.allRecv = false
  parses : parseOnce process.world
    (client.setSRequest head).forgetLocation = .ok parsed
  accepted : parsed.response.readyToSend = false
  method : parsed.request.method = "POST".toList
  coding : parsed.request.getMapValues "Transfer-Encoding".toList ≠
    "chunked".toList
  extension : scriptExtension? parsed.request.path = some ex
  selected : parsed.serverClientObj.selected = some route
  listed : ex ∈ route.cgiExtension

section Delivery

variable {head ex : Str} {parsed : Client} {route : RouteBlock}

theorem ScriptRequest.awaiting
    (h : ScriptRequest process client head parsed ex route) (first : Str) :
    AwaitingBody (parsed.setSRequest first) ex := by
  have hparse := h.parses
  rw [parseOnce_fresh h.request] at hparse
  obtain ⟨parts, located, haccepted⟩ := parseRequest_accepted hparse h.accepted
  have halive : parsed.keepAlive = false := parseRequest_keepAlive hparse
  exact ⟨⟨h.method, h.coding, halive⟩,
    haccepted.index, haccepted.allRecv.trans h.open_, h.accepted,
    h.extension⟩

theorem ScriptRequest.receive_first
    (h : ScriptRequest process client head parsed ex route) (first : Str) :
    ∃ process' client',
      receive process client (head ++ first) = .ok (process', client') ∧
      RanOn process process' (entryBodies parsed.request.contentLength first
        (route.cgiExtension.count ex) process.bodyCgi.location) ∧
      process'.bodyCgi.server = process.bodyCgi.server ∧
      if entryBodies parsed.request.contentLength first
          (route.cgiExtension.count ex) process.bodyCgi.location = [] then
        client' = parsed.setSRequest first
      else client'.allRecv = true := by
  have hawaiting := h.awaiting first
  obtain ⟨process', client', bol', hloop, hran, hserver, hkept, hbol⟩ :=
    cgiExtensions_bodies ex parsed.request.path route.cgiExtension process
      hawaiting.toPlainBody false
  have htrue : bol' = true :=
    hbol (.inr (List.count_pos_iff.mpr h.listed).ne')
  refine ⟨process', client', ?_, hran, hserver, hkept⟩
  have hselected : (parsed.setSRequest first).serverClientObj.selected =
      some route := h.selected
  unfold receive checkRequest
  rw [if_neg (by simp [h.open_]),
    parseOnce_append h.request h.complete h.parses first]
  simp only [bind, Except.bind]
  unfold dispatchRequest checkIfHaveCgi
  rw [if_neg (by simp [hawaiting.unanswered])]
  simp only [hawaiting.extension, hselected]
  rw [show (parsed.setSRequest first).request.path = parsed.request.path
    from rfl, hloop, htrue]
  rfl

theorem ScriptRequest.bodiesByCall_eq
    (h : ScriptRequest process client head parsed ex route) (first : Str)
    (rest : List Str) :
    bodiesByCall process client ((head ++ first) :: rest) =
      .ok (allBodies parsed.request.contentLength
        (route.cgiExtension.count ex) process.bodyCgi first rest) := by
  obtain ⟨process', client', hcall, hran, hserver, hkept⟩ :=
    h.receive_first first
  unfold allBodies
  refine bodiesByCall_cons hcall hran ?_
  split at hkept
  · rename_i hnone
    rw [if_pos hnone, hkept, bodiesByCall_awaiting (h.awaiting first), hserver]
    rfl
  · rename_i hsome
    rw [if_neg hsome]
    exact bodiesByCall_of_allRecv hkept rest

/-! When that is what it should be. -/

omit [Os W] in
theorem expectedBodies_of_seen {n seen : Nat} (hseen : n ≤ seen) (bytes : Str)
    (rest : List Str) :
    expectedBodies n bytes seen rest = rest.map fun _ => [] := by
  induction rest generalizing seen with
  | nil => rfl
  | cons buffer rest ih =>
      rw [expectedBodies, if_neg (by omega), ih (by omega)]
      rfl

/-- One of the later buffers brings the last of the first `n` bytes, and with
it the text of the slot consists of these bytes. -/
def CompletesBody (n : Nat) (bytes text : Str) (seen : Nat)
    (rest : List Str) : Prop :=
  ∃ before buffer after, rest = before ++ buffer :: after ∧
    seen + before.flatten.length < n ∧
    n ≤ seen + before.flatten.length + buffer.length ∧
    text ++ before.flatten ++ buffer = bytes.take n

omit [Os W] in
theorem completesBody_cons {n seen : Nat} {bytes text buffer : Str}
    {rest : List Str} :
    CompletesBody n bytes text seen (buffer :: rest) ↔
      (seen < n ∧ n ≤ seen + buffer.length ∧
        text ++ buffer = bytes.take n) ∨
      CompletesBody n bytes (text ++ buffer) (seen + buffer.length) rest := by
  constructor
  · rintro ⟨before, last, after, hrest, hbefore, hlast, htext⟩
    cases before with
    | nil =>
        obtain ⟨rfl, rfl⟩ := List.cons.inj hrest
        exact .inl ⟨by simpa using hbefore, by simpa using hlast,
          by simpa using htext⟩
    | cons first before =>
        obtain ⟨rfl, rfl⟩ := List.cons.inj hrest
        simp only [List.flatten_cons, List.length_append] at hbefore hlast
        exact .inr ⟨before, last, after, rfl, by omega, by omega,
          by simpa using htext⟩
  · rintro (⟨hbefore, hlast, htext⟩ |
      ⟨before, last, after, rfl, hbefore, hlast, htext⟩)
    · exact ⟨[], buffer, rest, rfl, by simpa using hbefore,
        by simpa using hlast, by simpa using htext⟩
    · refine ⟨buffer :: before, last, after, rfl, ?_, ?_, by simpa using htext⟩
      · rw [List.flatten_cons, List.length_append]
        omega
      · rw [List.flatten_cons, List.length_append]
        omega

omit [Os W] in
theorem laterBodies_eq_expected_iff {n seen : Nat} {bytes text : Str}
    {rest : List Str} (hbytes : n ≤ bytes.length) (hseen : seen < n)
    (htotal : n ≤ seen + rest.flatten.length) :
    laterBodies n text rest = expectedBodies n bytes seen rest ↔
      CompletesBody n bytes text seen rest := by
  induction rest generalizing seen text with
  | nil =>
      simp only [List.flatten_nil, List.length_nil] at htotal
      omega
  | cons buffer rest ih =>
      rw [completesBody_cons, laterBodies, expectedBodies]
      have htake : (bytes.take n).length = n := by
        rw [List.length_take]
        omega
      by_cases hlast : n ≤ seen + buffer.length
      · -- this buffer brings the last byte
        have hnow : seen < n ∧ n ≤ seen + buffer.length := ⟨hseen, hlast⟩
        rw [if_pos hnow, expectedBodies_of_seen hlast]
        have hlater : ¬CompletesBody n bytes (text ++ buffer)
            (seen + buffer.length) rest := by
          rintro ⟨before, last, after, -, hbefore, -⟩
          omega
        constructor
        · intro heq
          split at heq
          · rename_i hlength
            have hhead := (List.cons.inj heq).1
            exact .inl ⟨hseen, hlast, (List.cons.inj hhead).1⟩
          · cases heq
        · intro hcompletes
          obtain ⟨-, -, htext⟩ := hcompletes.resolve_right hlater
          rw [htext, if_pos htake]
      · -- the last byte is still to come
        have hlater : ¬(seen < n ∧ n ≤ seen + buffer.length) :=
          fun hboth => hlast hboth.2
        rw [if_neg hlater]
        have hnow : ¬(seen < n ∧ n ≤ seen + buffer.length ∧
            text ++ buffer = bytes.take n) := fun hall => hlast hall.2.1
        rw [or_iff_right hnow]
        split
        · rename_i hlength
          refine iff_of_false (by simp) ?_
          rintro ⟨before, last, after, -, hbefore, hcomplete, htext⟩
          have hsame := congrArg List.length htext
          rw [htake, List.length_append, List.length_append] at hsame
          omega
        · rw [List.cons.injEq, and_iff_right rfl]
          apply ih (by omega)
          simp only [List.flatten_cons, List.length_append] at htotal
          omega

omit [Os W] in
theorem entryBodies_eq_nil_iff {n entries : Nat} {buffer text : Str} :
    entryBodies n buffer entries text = [] ↔
      ∀ i, i < entries → text.length + (i + 1) * buffer.length ≠ n := by
  induction entries generalizing text with
  | zero => simp [entryBodies]
  | succ entries ih =>
      rw [entryBodies]
      split
      · rename_i hlength
        rw [List.length_append] at hlength
        refine iff_of_false (by simp) fun hall => hall 0 (by omega) ?_
        omega
      · rename_i hlength
        rw [List.length_append] at hlength
        rw [ih]
        constructor
        · intro hall i hi
          cases i with
          | zero => simpa using hlength
          | succ i =>
              have hnext := hall i (by omega)
              rw [List.length_append] at hnext
              rw [Nat.add_mul (i + 1) 1]
              omega
        · intro hall i hi
          have hnext := hall (i + 1) (by omega)
          rw [Nat.add_mul (i + 1) 1] at hnext
          rw [List.length_append]
          omega

omit [Os W] in
/-- A buffer with all the bytes is handed on once if it holds nothing else,
stands behind nothing, and meets a single entry. -/
theorem entryBodies_eq_whole_iff {n entries : Nat} {buffer text : Str}
    (hpositive : 0 < n) (hentries : 0 < entries) (hbuffer : n ≤ buffer.length) :
    entryBodies n buffer entries text = [buffer.take n] ↔
      text = [] ∧ buffer.length = n ∧ entries = 1 := by
  obtain ⟨entries, rfl⟩ := Nat.exists_eq_succ_of_ne_zero hentries.ne'
  rw [entryBodies]
  split
  · rename_i hlength
    rw [List.length_append] at hlength
    have htext : text = [] := List.length_eq_zero_iff.mp (by omega)
    have hwhole : buffer.take n = buffer :=
      List.take_of_length_le (by omega)
    subst htext
    rw [hwhole, List.nil_append, List.cons.injEq, and_iff_right rfl,
      entryBodies_eq_nil_iff]
    constructor
    · intro hnone
      refine ⟨rfl, by simpa using hlength, ?_⟩
      by_contra hmore
      exact hnone 0 (by omega) (by simpa using hlength)
    · rintro ⟨-, -, hone⟩ i hi
      omega
  · rename_i hlength
    rw [List.length_append] at hlength
    refine iff_of_false ?_ ?_
    · have hnone : entryBodies n buffer entries (text ++ buffer) = [] := by
        rw [entryBodies_eq_nil_iff]
        intro i hi
        rw [List.length_append, Nat.add_mul]
        omega
      rw [hnone]
      simp
    · rintro ⟨rfl, hsame, -⟩
      simp at hlength
      omega

/-- The script is run once, on the first bytes of the body, at the call that
brings the last of them. -/
def BodyDelivered (process : Process W) (client : Client) (n : Nat)
    (head first : Str) (rest : List Str) : Prop :=
  bodiesByCall process client ((head ++ first) :: rest) =
    .ok (expectedBodies n (first ++ rest.flatten) 0 (first :: rest))

theorem ScriptRequest.positive
    (h : ScriptRequest process client head parsed ex route) :
    0 < parsed.request.contentLength := by
  have hparse := h.parses
  rw [parseOnce_fresh h.request] at hparse
  obtain ⟨parts, located, haccepted⟩ := parseRequest_accepted hparse h.accepted
  exact (haccepted.length h.method).1

/-- The body is delivered if the buffer of the head holds just the body, behind
an empty slot and for a single entry of the extension list, or if that buffer
triggers no run and a later one completes the body in the other slot. -/
theorem bodyDelivered_iff
    (h : ScriptRequest process client head parsed ex route) {first : Str}
    {rest : List Str}
    (hbytes : parsed.request.contentLength ≤ (first ++ rest.flatten).length) :
    BodyDelivered process client parsed.request.contentLength head first
        rest ↔
      (process.bodyCgi.location = [] ∧
        first.length = parsed.request.contentLength ∧
        route.cgiExtension.count ex = 1) ∨
      ((∀ i, i < route.cgiExtension.count ex →
          process.bodyCgi.location.length + (i + 1) * first.length ≠
            parsed.request.contentLength) ∧
        CompletesBody parsed.request.contentLength (first ++ rest.flatten)
          process.bodyCgi.server first.length rest) := by
  have hpositive := h.positive
  have hentries : 0 < route.cgiExtension.count ex :=
    List.count_pos_iff.mpr h.listed
  unfold BodyDelivered
  rw [h.bodiesByCall_eq, Except.ok.injEq, allBodies, expectedBodies,
    Nat.zero_add, List.cons.injEq]
  generalize parsed.request.contentLength = n at *
  generalize route.cgiExtension.count ex = entries at *
  by_cases hfirst : n ≤ first.length
  · have hnow : 0 < n ∧ n ≤ first.length := ⟨hpositive, hfirst⟩
    have hlater : ¬CompletesBody n (first ++ rest.flatten)
        process.bodyCgi.server first.length rest := by
      rintro ⟨before, last, after, -, hbefore, -⟩
      omega
    rw [if_pos hnow, List.take_append_of_le_length hfirst,
      expectedBodies_of_seen hfirst,
      or_iff_left (fun hboth => hlater hboth.2),
      ← entryBodies_eq_whole_iff hpositive hentries hfirst]
    constructor
    · exact And.left
    · intro hbodies
      refine ⟨hbodies, ?_⟩
      rw [hbodies, if_neg (by simp)]
  · have hnow : ¬(0 < n ∧ n ≤ first.length) := fun hboth => hfirst hboth.2
    have hwhole : ¬(process.bodyCgi.location = [] ∧ first.length = n ∧
        entries = 1) := fun hall => hfirst (Nat.le_of_eq hall.2.1.symm)
    rw [if_neg hnow, or_iff_right hwhole, ← entryBodies_eq_nil_iff]
    rw [List.length_append] at hbytes
    refine and_congr_right fun hnone => ?_
    rw [if_pos hnone]
    refine laterBodies_eq_expected_iff ?_ (by omega) hbytes
    rw [List.length_append]
    exact hbytes

end Delivery

end Calls

/-! A script in a location, with a body of one byte in the buffer of the head,
and one of two bytes cut in the middle. -/

def scriptRoute : RouteBlock where
  uri := "/s".toList
  methods := ["POST".toList]
  cgiExtension := [".py".toList]

def scriptBlock : ServerBlock := { routes := [scriptRoute] }

def scriptHead (length : String) : Str :=
  "POST /s/x.py HTTP/1.1\r\nContent-Length: ".toList ++ length.toList ++
    "\r\n\r\n".toList

def emptyDisk : Process Disk := { world := .ofDirectories [] }

def isScriptRequest (n : Nat) (parsed : Client) : Bool :=
  parsed.response.readyToSend = false ∧
    parsed.request.method = "POST".toList ∧
    parsed.request.getMapValues "Transfer-Encoding".toList ≠
      "chunked".toList ∧
    scriptExtension? parsed.request.path = some ".py".toList ∧
    parsed.serverClientObj.selected = some scriptRoute ∧
    parsed.request.contentLength = n

theorem scriptHead_parses (length : String) (n : Nat)
    (h : ((parseOnce emptyDisk.world ((Client.connect 5 scriptBlock).setSRequest
        (scriptHead length)).forgetLocation).toOption.map
          (isScriptRequest n)) = some true)
    (hcomplete : ((search? "\r\n\r\n".toList (scriptHead length)).map
      (· + 4)) = some (scriptHead length).length) :
    ∃ parsed, ScriptRequest emptyDisk (.connect 5 scriptBlock)
        (scriptHead length) parsed ".py".toList scriptRoute ∧
      parsed.request.contentLength = n := by
  obtain ⟨parsed, hparsed, hfields⟩ := ok_of_toOption_map h
  obtain ⟨hready, hmethod, hcoding, hextension, hselected, hsize⟩ :=
    of_decide_eq_true hfields
  obtain ⟨position, hfound, hlength⟩ := Option.map_eq_some_iff.mp hcomplete
  exact ⟨parsed, ⟨⟨position, hfound, hlength.symm⟩, rfl, rfl, hparsed,
    hready, hmethod, hcoding, hextension, hselected, by decide⟩, hsize⟩

theorem bodyDelivered_oneBuffer :
    BodyDelivered emptyDisk (.connect 5 scriptBlock) 1 (scriptHead "1")
      "a".toList [] := by
  obtain ⟨parsed, hscript, hsize⟩ :=
    scriptHead_parses "1" 1 (by decide +kernel) (by decide +kernel)
  have hdelivered := bodyDelivered_iff hscript
    (show parsed.request.contentLength ≤
      ("a".toList ++ ([] : List Str).flatten).length by rw [hsize]; decide)
  rw [hsize] at hdelivered
  exact hdelivered.mpr (.inl ⟨rfl, rfl, rfl⟩)

/-- The bytes of the first buffer are in another slot than the later ones, and
the script is never run. -/
theorem bodyDelivered_fails_cut :
    (∃ parsed, ScriptRequest emptyDisk (.connect 5 scriptBlock)
        (scriptHead "2") parsed ".py".toList scriptRoute ∧
      parsed.request.contentLength = 2) ∧
    bodiesByCall emptyDisk (.connect 5 scriptBlock)
        [scriptHead "2" ++ "a".toList, "b".toList] = .ok [[], []] ∧
      ¬BodyDelivered emptyDisk (.connect 5 scriptBlock) 2 (scriptHead "2")
        "a".toList ["b".toList] := by
  obtain ⟨parsed, hscript, hsize⟩ :=
    scriptHead_parses "2" 2 (by decide +kernel) (by decide +kernel)
  have hcalls := hscript.bodiesByCall_eq "a".toList ["b".toList]
  rw [hsize] at hcalls
  refine ⟨⟨parsed, hscript, hsize⟩, hcalls, ?_⟩
  unfold BodyDelivered
  rw [hcalls, Except.ok.injEq]
  decide

end Webserv
