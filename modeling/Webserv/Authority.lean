import Webserv.HandlerRules
import Webserv.DeleteSafety
import Webserv.Provenance
import Webserv.Traces

namespace Webserv

open Cxx Lexical

/-! By what right the server acts on the outside world: for each act there is a
request whose head has been accepted, and which the act is part of. -/

/-! The acts that are added to the record. -/

def Act.ofStream : Act → Bool
  | .remove _ => false
  | .cgi _ _ => false
  | _ => true

section Adds

variable {W : Type}

/-- What is added to the record of acts is of an allowed kind. -/
def Adds (allowed : Act → Prop) (first second : Process W × Client) : Prop :=
  second.2.clientId = first.2.clientId ∧
    ∃ acts : List Act,
      second.1.effects =
        first.1.effects ++ acts.map (Effect.mk first.2.clientId) ∧
      ∀ act ∈ acts, allowed act

variable {allowed : Act → Prop}

theorem adds_of_act {process process' : Process W} {client client' : Client}
    {act : Act}
    (heffects : process'.effects =
      process.effects ++ [⟨client.clientId, act⟩])
    (hid : client'.clientId = client.clientId) (hact : allowed act) :
    Adds allowed (process, client) (process', client') := by
  refine ⟨hid, [act], heffects, ?_⟩
  simpa using hact

theorem adds_state : StateRule (@Adds W allowed) where
  refl state := ⟨rfl, [], by simp, by simp⟩
  trans {first second third} hfirst hsecond := by
    obtain ⟨hid, acts, heffects, hacts⟩ := hfirst
    obtain ⟨hid', acts', heffects', hacts'⟩ := hsecond
    refine ⟨hid'.trans hid, acts ++ acts', ?_, fun act hact => ?_⟩
    · rw [heffects', heffects, hid, List.map_append, List.append_assoc]
    · cases List.mem_append.mp hact with
      | inl hmem => exact hacts act hmem
      | inr hmem => exact hacts' act hmem
  beside _ heffects _ _ hid := ⟨hid, [], by simpa using heffects, by simp⟩

variable [Os W]

theorem adds_streams (h : ∀ act, act.ofStream = true → allowed act) :
    StreamRule W (Adds allowed) where
  toStateRule := adds_state
  openUpload _ _ := adds_of_act rfl rfl (h _ rfl)
  putUpload _ _ := adds_of_act rfl rfl (h _ rfl)
  closeUpload _ _ := ⟨rfl, [], by simp, by simp⟩
  openPart _ _ _ := adds_of_act rfl rfl (h _ rfl)
  putPart _ _ _ := adds_of_act rfl rfl (h _ rfl)
  closePart _ _ := ⟨rfl, [], by simp, by simp⟩

theorem adds_removal (h : ∀ path, allowed (.remove path)) :
    RemovalRule W (Adds allowed) where
  toStateRule := adds_state
  remove {_ _ path} _ _ := adds_of_act rfl rfl (h path)

theorem adds_scripts {sn : Str} (h : ∀ body, allowed (.cgi sn body)) :
    ScriptRule W (Adds allowed) sn where
  toStateRule := adds_state
  script process client body := by
    have hran := cgiHandler_run process client body sn
    obtain ⟨world, hprocess⟩ := hran.process
    refine ⟨hran.clientId, [.cgi sn body], ?_, by simpa using h body⟩
    rw [hprocess]
    rfl

end Adds

/-! What a request is a right to. -/

/-- The request is for a script, and its location, where one is chosen, lists
the extension. -/
structure RunsScript (client : Client) : Prop where
  method : client.request.method = "GET".toList ∨
    client.request.method = "POST".toList
  listed : ∃ ex, scriptExtension? client.request.path = some ex ∧
    ∀ route ∈ client.serverClientObj.selected, ex ∈ route.cgiExtension

def OfKind (client : Client) : Act → Prop
  | .remove _ => client.request.method = "DELETE".toList
  | .cgi script _ => script = client.request.path ∧ RunsScript client
  | _ => client.request.method = "POST".toList

theorem ofKind_stream {client : Client} {act : Act}
    (hpost : client.request.method = "POST".toList)
    (hact : act.ofStream = true) : OfKind client act := by
  cases act with
  | openUpload path ok => exact hpost
  | writeUpload bytes => exact hpost
  | openPart path ok => exact hpost
  | writePart bytes => exact hpost
  | remove path => cases hact
  | cgi script body => cases hact

/-- The acts that a request is a right to: a file under a generated name in its
block's upload directory, or for a part at any text behind it, which may go up
again; the removal of its path and of what is below it; and a run of the script
at its path. -/
def Warranted (client : Client) : Act → Prop
  | .openUpload path _ => client.request.method = "POST".toList ∧
      ∃ index, path = uploadPath client
        (generatedName index (uploadExtension client.request))
  | .openPart path _ => client.request.method = "POST".toList ∧
      ∃ name, path = uploadPath client name
  | .writeUpload _ => client.request.method = "POST".toList
  | .writePart _ => client.request.method = "POST".toList
  | .remove path => client.request.method = "DELETE".toList ∧
      AtOrBelow path client.request.path
  | .cgi script _ => script = client.request.path ∧ RunsScript client

theorem warranted_of_kind {client : Client} {act : Act}
    (hpath : client.request.path ≠ []) (hpermitted : Permitted client act)
    (hkind : OfKind client act) : Warranted client act := by
  cases act with
  | openUpload path ok => exact ⟨hkind, hpermitted⟩
  | writeUpload bytes => exact hkind
  | openPart path ok => exact ⟨hkind, hpermitted⟩
  | writePart bytes => exact hkind
  | remove path => exact ⟨hkind, hpermitted.2 hpath⟩
  | cgi script body => exact hkind

section Requests

variable {W : Type} [Os W] {process process' : Process W}
  {client client' : Client}

theorem cgiExtensions_other {ex path : Str} {extensions : List Str}
    {bol bol' : Bool} (hget : client.request.method ≠ "GET".toList)
    (hpost : client.request.method ≠ "POST".toList)
    (h : cgiExtensions ex path extensions process client bol =
      .ok (process', client', bol')) : process' = process := by
  induction extensions with
  | nil => exact (Prod.mk.inj (Except.ok.inj h)).1.symm
  | cons extension rest ih =>
      rw [cgiExtensions] at h
      split at h
      · exact (Prod.mk.inj (Except.ok.inj h)).1.symm
      · exact ih h

theorem checkIfHaveCgi_idle {bol : Bool} (hruns : ¬RunsScript client)
    (h : checkIfHaveCgi process client = .ok (process', client', bol)) :
    process' = process := by
  unfold checkIfHaveCgi at h
  simp only at h
  split at h
  · exact (Prod.mk.inj (Except.ok.inj h)).1.symm
  rename_i ex hex
  by_cases hmethod : client.request.method = "GET".toList ∨
      client.request.method = "POST".toList
  · have hunlisted : ¬∀ route ∈ client.serverClientObj.selected,
        ex ∈ route.cgiExtension :=
      fun hlisted => hruns ⟨hmethod, ex, hex, hlisted⟩
    split at h
    · rename_i route hroute
      rw [hroute] at hunlisted
      rw [cgiExtensions_of_not_mem (by simpa using hunlisted)] at h
      exact (Prod.mk.inj (Except.ok.inj h)).1.symm
    · rename_i hnone
      exact absurd (by simp [hnone]) hunlisted
  · rw [not_or] at hmethod
    split at h
    · exact cgiExtensions_other hmethod.1 hmethod.2 h
    · unfold cgiServer at h
      rw [if_neg hmethod.2, if_neg hmethod.1] at h
      exact (Prod.mk.inj (Except.ok.inj h)).1.symm

theorem checkIfHaveCgi_adds {bol : Bool}
    (h : checkIfHaveCgi process client = .ok (process', client', bol)) :
    Adds (OfKind client) (process, client) (process', client') := by
  by_cases hruns : RunsScript client
  · exact (adds_scripts fun body => ⟨rfl, hruns⟩).checkIfHaveCgi rfl h
  · have hidle := checkIfHaveCgi_idle hruns h
    exact ⟨(checkIfHaveCgi_served h).clientId, [], by simp [hidle], by simp⟩

theorem dispatchMethod_adds {allowed : Act → Prop}
    (hstreams : client.request.method = "POST".toList → ∀ act,
      act.ofStream = true → allowed act)
    (hremoval : client.request.method = "DELETE".toList → ∀ path,
      allowed (.remove path))
    (h : dispatchMethod process client = .ok (process', client')) :
    Adds allowed (process, client) (process', client') := by
  unfold dispatchMethod at h
  split at h
  · obtain ⟨answered, hget, h⟩ := bind_ok h
    rw [← Except.ok.inj h]
    exact adds_state.trans (adds_state.responseToGet hget)
      (adds_state.setAllRecv ..)
  split at h
  · rename_i hpost
    exact (adds_streams (hstreams hpost)).postRequest h
  split at h
  · rename_i hdelete
    rw [← Except.ok.inj h]
    exact (adds_removal (hremoval hdelete)).deleteRequest ..
  · rw [← Except.ok.inj h]
    exact adds_state.refl _

theorem dispatchRequest_adds (hready : client.response.readyToSend = false)
    (h : dispatchRequest process client = .ok (process', client')) :
    Adds (OfKind client) (process, client) (process', client') := by
  unfold dispatchRequest at h
  rw [if_neg (by simp [hready])] at h
  obtain ⟨⟨handled, client₁, isCgi⟩, hcgi, h⟩ := bind_ok h
  have hscripts := checkIfHaveCgi_adds hcgi
  obtain ⟨file, sRequest, hrequest⟩ := (checkIfHaveCgi_served hcgi).request
  have hmethod : client₁.request.method = client.request.method := by
    rw [hrequest]
  simp only at h
  split at h
  · rw [← Except.ok.inj h]
    exact hscripts
  split at h
  · rw [← Except.ok.inj h]
    exact adds_state.trans hscripts (adds_state.setAllRecv ..)
  · refine adds_state.trans hscripts (dispatchMethod_adds ?_ ?_ h)
    · exact fun hpost _ hact => ofKind_stream (hmethod ▸ hpost) hact
    · exact fun hdelete _ => hmethod.symm.trans hdelete

theorem dispatchRequest_warranted
    (hready : client.response.readyToSend = false)
    (hpath : client.request.path ≠ [])
    (h : dispatchRequest process client = .ok (process', client')) :
    Adds (Warranted client) (process, client) (process', client') := by
  obtain ⟨acts, heffects, hpermitted⟩ := (dispatchRequest_served h).effects
  obtain ⟨hid, acts', heffects', hkind⟩ := dispatchRequest_adds hready h
  have hsame : acts'.map (Effect.mk client.clientId) =
      acts.map (Effect.mk client.clientId) :=
    List.append_cancel_left (heffects'.symm.trans heffects)
  have hacts : acts' = acts := by
    refine List.map_injective_iff.mpr (fun act act' hact => ?_) hsame
    exact (Effect.mk.inj hact).2
  subst hacts
  exact ⟨hid, acts', heffects, fun act hact =>
    warranted_of_kind hpath (hpermitted act hact) (hkind act hact)⟩

/-! What a record stands for. -/

/-- The head of a request has been accepted: its path lies at or below a root
of the block, and its method is allowed there. -/
structure Vetted (client : Client) : Prop where
  path : client.request.path ≠ []
  confined : Confined client.serverClientObj client.request.path
  allowed : ServerBlock.isValidMethod client.serverClientObj.routes
    (checkedText client.serverClientObj client.request.path)
    client.request.method = true

/-- The record of a connection under one of the blocks. -/
structure Standing (blocks : List ServerBlock) (client : Client) : Prop where
  block : ∃ block ∈ blocks, ∃ url,
    client.serverClientObj = block.setLocationUrl url
  head : client.request.index = true →
    client.response.readyToSend = false → Vetted client

/-- The grounds for an act: the head of the request that a buffer completes, or
continues, has been accepted under one of the blocks, and it is a right to the
act. -/
def Grounds {W : Type} [Os W] (blocks : List ServerBlock) (world : W)
    (client : Client) (bytes : Str) (act : Act) : Prop :=
  ∃ parsed, parseOnce world (client.setSRequest bytes).forgetLocation =
      .ok parsed ∧
    (∃ block ∈ blocks, ∃ url,
      parsed.serverClientObj = block.setLocationUrl url) ∧
    Vetted parsed ∧ Warranted parsed act

theorem standing_connect {blocks : List ServerBlock} {block : ServerBlock}
    (h : block ∈ blocks) (fd : Int) :
    Standing blocks (Client.connect fd block) :=
  ⟨⟨block, h, block.isLocationUrl, rfl⟩, fun hindex => by cases hindex⟩

theorem Standing.of_same {blocks : List ServerBlock}
    (h : Standing blocks client) {url : Option Nat}
    (hblock : client'.serverClientObj =
      client.serverClientObj.setLocationUrl url)
    (hindex : client'.request.index = client.request.index)
    (hpath : client'.request.path = client.request.path)
    (hmethod : client'.request.method = client.request.method)
    (hready : client.response.readyToSend = true →
      client'.response.readyToSend = true) : Standing blocks client' := by
  obtain ⟨block, hmem, other, hold⟩ := h.block
  have hnow : client'.serverClientObj = block.setLocationUrl url := by
    rw [hblock, hold]
    rfl
  refine ⟨⟨block, hmem, url, hnow⟩, fun hparsed hopen => ?_⟩
  have hwas : client.response.readyToSend = false := by
    by_contra hnot
    rw [hready (by simpa using hnot)] at hopen
    cases hopen
  obtain ⟨hne, hconfined, hallowed⟩ := h.head (hindex ▸ hparsed) hwas
  refine ⟨hpath ▸ hne, ?_, ?_⟩
  · rw [hblock, hpath]
    exact hconfined
  · rw [hblock, hpath, hmethod]
    exact hallowed

theorem standing_parsed {blocks : List ServerBlock} {world : W}
    {parsed : Client} (h : Standing blocks client)
    (hparsed : parseOnce world client = .ok parsed) :
    Standing blocks parsed := by
  rcases parseOnce_cases hparsed with ⟨-, hparse⟩ | ⟨-, rfl⟩
  · obtain ⟨block, hmem, other, hold⟩ := h.block
    obtain ⟨url, hblock⟩ := (parseRequest_kept hparse).block
    refine ⟨⟨block, hmem, url, by rw [hblock, hold]; rfl⟩, fun _ hopen => ?_⟩
    obtain ⟨parts, located, haccepted⟩ := parseRequest_accepted hparse hopen
    refine ⟨haccepted.path_ne_nil, ?_, ?_⟩
    · have hconfined := haccepted.confined
      rw [hblock]
      exact hconfined
    · rw [← haccepted.checkedText_eq]
      exact haccepted.allowed
  · exact h

/-- There are grounds for what a buffer leads to, and the record keeps its
standing. -/
theorem receive_grounds {blocks : List ServerBlock} {bytes : Str}
    (h : Standing blocks client)
    (hreceive : receive process client bytes = .ok (process', client')) :
    Standing blocks client' ∧ ∃ effects,
      process'.effects = process.effects ++ effects ∧
      ∀ effect ∈ effects, effect.client = client.clientId ∧
        Grounds blocks process.world client bytes effect.act := by
  rcases receive_cases hreceive with
    ⟨-, rfl, rfl⟩ | ⟨-, parsed, hparsed, hdispatch⟩
  · exact ⟨h, [], by simp, by simp⟩
  have hforgot : Standing blocks (client.setSRequest bytes).forgetLocation :=
    h.of_same rfl rfl rfl rfl id
  have hstanding := standing_parsed hforgot hparsed
  have hserved := dispatchRequest_served hdispatch
  obtain ⟨file, sRequest, hrequest⟩ := hserved.request
  refine ⟨hstanding.of_same hserved.block ?_ ?_ ?_ hserved.ready, ?_⟩
  · rw [hrequest]
  · rw [hrequest]
  · rw [hrequest]
  cases hready : parsed.response.readyToSend with
  | true =>
      rw [dispatchRequest_of_ready hready] at hdispatch
      obtain ⟨rfl, -⟩ := Prod.mk.inj (Except.ok.inj hdispatch)
      exact ⟨[], by simp, by simp⟩
  | false =>
      have hvetted := hstanding.head (parseOnce_open hparsed hready).1 hready
      obtain ⟨-, acts, heffects, hacts⟩ :=
        dispatchRequest_warranted hready hvetted.path hdispatch
      have hid : parsed.clientId = client.clientId :=
        hserved.clientId.symm.trans
          (Session.receive_kept hreceive).clientId
      refine ⟨_, heffects, fun effect heffect => ?_⟩
      obtain ⟨act, hact, rfl⟩ := List.mem_map.mp heffect
      exact ⟨hid, parsed, hparsed, hstanding.block, hvetted, hacts act hact⟩

end Requests

/-! Runs of the event loop. -/

namespace Server

variable {W : Type} [Os W] {server next : Server W}
  {blocks : List ServerBlock}

/-- On the way from one state to another there is a step that does the act, and
in which there are grounds for it: the buffer has been handed over on the
connection that the act is done for. -/
def Rightful (start final : Server W) (effect : Effect) : Prop :=
  ∃ server event next bytes client effects,
    Machine.Reachable step Permitted start server ∧ server.Permitted event ∧
    server.step event = .ok next ∧
    Machine.Reachable step Permitted next final ∧
    server.handed event = some (effect.client, bytes) ∧
    server.record effect.client = some client ∧
    Grounds start.serverBlockObj server.process.world client bytes
      effect.act ∧
    next.process.effects = server.process.effects ++ effects ∧
    effect ∈ effects

theorem Rightful.step {start : Server W} {event : Event} {effect : Effect}
    (h : Rightful start server effect) (hpermitted : Permitted server event)
    (hnext : server.step event = .ok next) : Rightful start next effect := by
  obtain ⟨asked, handing, answered, bytes, client, effects, hasked, hhanding,
    hanswered, hlater, hdone⟩ := h
  exact ⟨asked, handing, answered, bytes, client, effects, hasked, hhanding,
    hanswered, hlater.step hpermitted hnext, hdone⟩

structure Lawful (start server : Server W) : Prop extends Kept server where
  reached : Machine.Reachable Server.step Permitted start server
  configured : server.serverBlockObj = start.serverBlockObj
  standing : ∀ fd client, server.record fd = some client →
    Standing start.serverBlockObj client
  rightful : ∀ effect ∈ server.process.effects, Rightful start server effect

theorem Lawful.step {start : Server W} {event : Event}
    (h : Lawful start server) (hpermitted : Permitted server event)
    (hnext : server.step event = .ok next) : Lawful start next := by
  refine ⟨h.toKept.step hpermitted hnext, h.reached.step hpermitted hnext,
    (step_serverBlockObj h.aligned hnext).trans h.configured,
    fun fd client hrecord => ?_, fun effect heffect => ?_⟩
  · have hdealt := step_dealt h.toKept hpermitted hnext fd
    rw [h.configured] at hdealt
    have hstanding := h.standing fd
    generalize server.record fd = before at hdealt hstanding
    generalize next.sentTo fd = sent' at hdealt
    generalize server.sentTo fd = sent at hdealt
    rw [hrecord] at hdealt
    cases hdealt with
    | same => exact hstanding client rfl
    | connected _ hblock =>
        exact standing_connect (List.mem_of_getElem? hblock) fd
    | received _ _ hreceive =>
        exact (receive_grounds (hstanding _ rfl) hreceive).1
    | @wrote old _ _ _ _ _ _ hwritten =>
        obtain ⟨fileStream, rfl⟩ :=
          clientWrite_some (congrArg Prod.snd hwritten)
        exact (hstanding old rfl).of_same rfl rfl rfl rfl id
  · have hold (hmem : effect ∈ server.process.effects) :
        Rightful start next effect :=
      (h.rightful effect hmem).step hpermitted hnext
    rcases step_process h.toKept hnext with
      hsame | ⟨fd, bytes, client, client', hhanded, hrecord, -, hreceive⟩
    · rw [hsame] at heffect
      exact hold heffect
    · obtain ⟨-, effects, heffects, hgrounds⟩ :=
        receive_grounds (h.standing fd client hrecord) hreceive
      rw [heffects] at heffect
      cases List.mem_append.mp heffect with
      | inl hmem => exact hold hmem
      | inr hnew =>
          obtain ⟨hid, hground⟩ := hgrounds effect hnew
          have hclient : effect.client = fd :=
            hid.trans (by simpa using List.find?_some hrecord)
          subst hclient
          exact ⟨server, event, next, bytes, client, effects, h.reached,
            hpermitted, hnext, .start, hhanded, hrecord, hground, heffects,
            hnew⟩

end Server

end Webserv
