import Mathlib.Logic.Function.Iterate
import Webserv.CgiBody
import Webserv.IdleStatics

namespace Webserv

open Cxx

/-! What the statics of a script's body hold behind a buffer. -/

/-- What `chunked_for_cgi` makes of its statics, with the body once the size
line of the last chunk is there. -/
def readForCgi : Nat → CgiChunkStatics → CgiChunkStatics × Option Str
  | 0, statics => (statics, none)
  | fuel + 1, statics =>
      match search? "\r\n".toList statics.request with
      | none => (statics, none)
      | some pos =>
          let size := sizeT (hexToInt (statics.request.take (pos + 2))).toInt
          let data := statics.request.drop (pos + 2)
          if size = 0 then ({}, some statics.result)
          else if data.length < size then (statics, none)
          else readForCgi fuel
            { request := data.drop (sizeT (size + 2))
              result := statics.result ++ data.take size }

/-- The statics of `chunked_for_cgi` and the slot of a script, the bytes that
its next entry takes, and whether the body has ended. -/
structure ScriptRead where
  chunks : CgiChunkStatics
  body : Str
  buffer : Str
  ended : Bool
  deriving DecidableEq, Repr

/-- The statics behind a call of `chunked_for_cgi`; a body that has ended is
run on by the script and forgotten. -/
def ScriptRead.take (read : ScriptRead) :
    CgiChunkStatics × Option Str → ScriptRead
  | (chunks, none) =>
      { read with
        chunks := chunks
        body := if read.ended then [] else read.body }
  | (chunks, some body) =>
      { chunks := chunks, body := [], buffer := body, ended := true }

def readScript (request : Request) (read : ScriptRead) : ScriptRead :=
  if request.getMapValues "Transfer-Encoding".toList =
      "chunked".toList then
    let text := read.chunks.request ++ read.buffer
    read.take (readForCgi (text.length + 1)
      { read.chunks with request := text })
  else if request.contentLength = (read.body ++ read.buffer).length then
    { read with body := [], ended := true }
  else { read with body := read.body ++ read.buffer }

def BodySlot.other : BodySlot → BodySlot
  | .location => .server
  | .server => .location

/-- The statics of the uploads and the other slot are idle. -/
structure Process.IdleButScript {W : Type} (slot : BodySlot)
    (process : Process W) : Prop where
  post : process.post = {}
  chunkRequest : process.chunkRequest = []
  part : process.part.Idle
  other : process.getBody slot.other = []

section Scripts

variable {W : Type}

def scriptRead (slot : BodySlot) (process : Process W) (client : Client) :
    ScriptRead where
  chunks := process.cgiChunk
  body := process.getBody slot
  buffer := client.request.sRequest
  ended := client.allRecv

theorem chunkedForCgiLoop_read {process process' : Process W}
    {client client' : Client} {fuel : Nat} {tmp : Str}
    (h : chunkedForCgiLoop fuel process client =
      .ok (process', client', tmp)) :
    process' = { process with
        cgiChunk := (readForCgi fuel process.cgiChunk).1 } ∧
      match (readForCgi fuel process.cgiChunk).2 with
      | none => client' = client ∧ tmp = []
      | some body =>
          client' = (client.setAllRecv true).setSRequest body ∧
            tmp = body := by
  induction fuel generalizing process client with
  | zero => cases h
  | succ fuel ih =>
      rw [chunkedForCgiLoop] at h
      rw [readForCgi]
      cases hpos : search? "\r\n".toList process.cgiChunk.request with
      | none =>
          rw [hpos] at h
          obtain ⟨rfl, hrest⟩ := Prod.mk.inj (Except.ok.inj h)
          obtain ⟨rfl, rfl⟩ := Prod.mk.inj hrest
          exact ⟨rfl, rfl, rfl⟩
      | some pos =>
          rw [hpos] at h
          obtain ⟨line, hline, h⟩ := bind_ok h
          obtain ⟨-, rfl⟩ := substr_eq_ok hline
          simp only [List.drop_zero] at h ⊢
          generalize sizeT (hexToInt (process.cgiChunk.request.take
            (pos + 2))).toInt = size at *
          split at h
          · rename_i hzero
            rw [if_pos hzero]
            obtain ⟨rfl, hrest⟩ := Prod.mk.inj (Except.ok.inj h)
            obtain ⟨rfl, rfl⟩ := Prod.mk.inj hrest
            exact ⟨rfl, rfl, rfl⟩
          rename_i hsize
          rw [if_neg hsize]
          obtain ⟨tmp, htmp, h⟩ := bind_ok h
          obtain ⟨-, rfl⟩ := substrFrom_eq_ok htmp
          split at h
          · rename_i hshort
            rw [if_pos hshort]
            obtain ⟨rfl, hrest⟩ := Prod.mk.inj (Except.ok.inj h)
            obtain ⟨rfl, rfl⟩ := Prod.mk.inj hrest
            exact ⟨rfl, rfl, rfl⟩
          rename_i hlong
          rw [if_neg hlong]
          obtain ⟨request, hrequest, h⟩ := bind_ok h
          obtain ⟨-, rfl⟩ := substrFrom_eq_ok hrequest
          obtain ⟨data, hdata, h⟩ := bind_ok h
          obtain ⟨-, rfl⟩ := substr_eq_ok hdata
          obtain ⟨rest, hrest, h⟩ := bind_ok h
          obtain ⟨-, rfl⟩ := substrFrom_eq_ok hrest
          rw [List.drop_zero] at h
          exact ih h

end Scripts

section Entries

variable {W : Type} [Os W] {process process' : Process W}
  {client client' : Client}

/-- A number of entries that match have been run through, and the statics of
other bodies are left alone. -/
structure ScriptTaken (slot : BodySlot) (entries : Nat)
    (process : Process W) (client : Client) (process' : Process W)
    (client' : Client) : Prop where
  read : scriptRead slot process' client' =
    (readScript client.request)^[entries] (scriptRead slot process client)
  request : ∃ sRequest, client'.request =
    { client.request with sRequest := sRequest }
  process : ∃ world effects chunks body, process' = { process with
    world := world
    effects := effects
    cgiChunk := chunks }.setBody slot body

omit [Os W] in
theorem ScriptTaken.refl (slot : BodySlot) (process : Process W)
    (client : Client) : ScriptTaken slot 0 process client process client := by
  refine ⟨rfl, ⟨_, rfl⟩, process.world, process.effects, process.cgiChunk,
    process.getBody slot, ?_⟩
  cases slot <;> rfl

omit [Os W] in
theorem ScriptTaken.trans {slot : BodySlot} {entries more : Nat}
    {process'' : Process W} {client'' : Client}
    (hfirst : ScriptTaken slot entries process client process' client')
    (hsecond : ScriptTaken slot more process' client' process'' client'') :
    ScriptTaken slot (entries + more) process client process'' client'' := by
  obtain ⟨sRequest, hrequest⟩ := hfirst.request
  obtain ⟨sRequest', hrequest'⟩ := hsecond.request
  have hsame : readScript client'.request = readScript client.request := by
    rw [hrequest]
    rfl
  refine ⟨?_, ⟨sRequest', by rw [hrequest', hrequest]⟩, ?_⟩
  · rw [hsecond.read, hfirst.read, hsame, Nat.add_comm,
      Function.iterate_add_apply]
  · obtain ⟨_, _, _, _, rfl⟩ := hfirst.process
    obtain ⟨world, effects, chunks, body, rfl⟩ := hsecond.process
    refine ⟨world, effects, chunks, body, ?_⟩
    cases slot <;> rfl

omit [Os W] in
theorem ScriptTaken.markAlive {slot : BodySlot} {entries : Nat}
    (h : ScriptTaken slot entries process client process' client') :
    ScriptTaken slot entries process client process'
      (markAlive client') := by
  obtain ⟨hread, hrequest, hprocess⟩ := h
  unfold Webserv.markAlive
  split
  · exact ⟨hread, hrequest, hprocess⟩
  · exact ⟨hread, hrequest, hprocess⟩

omit [Os W] in
theorem scriptRead_setBody (slot : BodySlot) (process : Process W)
    (client : Client) (world : W) (effects : List Effect)
    (chunks : CgiChunkStatics) (body : Str) :
    scriptRead slot ({ process with
        world := world
        effects := effects
        cgiChunk := chunks }.setBody slot body) client =
      ⟨chunks, body, client.request.sRequest, client.allRecv⟩ := by
  cases slot <;> rfl

theorem runOnBody_run {slot : BodySlot} {chunks : CgiChunkStatics}
    {body path : Str} (h : runOnBody slot ({ process with
        cgiChunk := chunks }.setBody slot body) client path =
      (process', client')) :
    (∃ world effects, process' = { process with
        world := world
        effects := effects
        cgiChunk := chunks }.setBody slot []) ∧
      client'.request = client.request ∧
      (client.allRecv = true → client'.allRecv = true) := by
  have hrun := cgiHandler_run ({ process with
    cgiChunk := chunks }.setBody slot body) client
    (({ process with cgiChunk := chunks }.setBody slot body).getBody slot)
    path
  have hserved := runOnBody_served slot ({ process with
    cgiChunk := chunks }.setBody slot body) client path
  rw [h] at hserved
  obtain ⟨world, hprocess⟩ := hrun.process
  obtain ⟨rfl, rfl⟩ := Prod.mk.inj h
  refine ⟨⟨world, process.effects ++ [⟨client.clientId, .cgi path
    (({ process with cgiChunk := chunks }.setBody slot body).getBody
      slot)⟩], ?_⟩, hrun.request, hserved.allRecv⟩
  refine (congrArg (Process.setBody · slot []) hprocess).trans ?_
  cases slot <;> rfl

theorem cgiPost_chunked_taken {slot : BodySlot} {path : Str}
    (hchunked : client.request.getMapValues "Transfer-Encoding".toList =
      "chunked".toList)
    (h : cgiPost slot process client path = .ok (process', client')) :
    ScriptTaken slot 1 process client process' client' := by
  unfold cgiPost at h
  rw [if_pos hchunked] at h
  obtain ⟨⟨taken, client₁, tmp⟩, htaken, h⟩ := bind_ok h
  obtain ⟨hprocess, hread⟩ := chunkedForCgiLoop_read htaken
  have hstep : (readScript client.request)^[1]
      (scriptRead slot process client) =
        (scriptRead slot process client).take (readForCgi
          ((process.cgiChunk.request ++ client.request.sRequest).length + 1)
          { process.cgiChunk with
            request := process.cgiChunk.request ++
              client.request.sRequest }) := by
    change readScript client.request (scriptRead slot process client) = _
    rw [readScript, if_pos hchunked]
    rfl
  simp only at hprocess hread
  generalize readForCgi ((process.cgiChunk.request ++
      client.request.sRequest).length + 1) { process.cgiChunk with
        request := process.cgiChunk.request ++ client.request.sRequest } =
    found at hprocess hread hstep
  obtain ⟨chunks, ended⟩ := found
  subst hprocess
  simp only at hread h
  cases ended with
  | none =>
      obtain ⟨rfl, rfl⟩ := hread
      split at h
      · rename_i hall
        obtain ⟨⟨world, effects, rfl⟩, hrequest, hended⟩ :=
          runOnBody_run (Except.ok.inj h)
        refine ⟨?_, ⟨_, hrequest⟩, world, effects, chunks, [], rfl⟩
        rw [hstep, scriptRead_setBody, hrequest, hended hall]
        simp [ScriptRead.take, scriptRead, hall]
      · rename_i hopen
        obtain ⟨rfl, rfl⟩ := Prod.mk.inj (Except.ok.inj h)
        refine ⟨?_, ⟨_, rfl⟩, process.world, process.effects, chunks, _, rfl⟩
        rw [hstep]
        cases slot <;>
          simp [ScriptRead.take, scriptRead, Process.getBody,
            Process.setBody, hopen]
  | some body =>
      obtain ⟨rfl, rfl⟩ := hread
      rw [if_pos (by rfl)] at h
      obtain ⟨⟨world, effects, rfl⟩, hrequest, hended⟩ :=
        runOnBody_run (Except.ok.inj h)
      refine ⟨?_, ⟨_, hrequest⟩, world, effects, chunks, [], rfl⟩
      rw [hstep, scriptRead_setBody, hrequest, hended rfl]
      rfl

theorem cgiPost_taken {slot : BodySlot} {path : Str}
    (h : cgiPost slot process client path = .ok (process', client')) :
    ScriptTaken slot 1 process client process' client' := by
  by_cases hchunked : client.request.getMapValues
      "Transfer-Encoding".toList = "chunked".toList
  · exact cgiPost_chunked_taken hchunked h
  unfold cgiPost at h
  rw [if_neg hchunked] at h
  simp only [Process.getBody_setBody] at h
  split at h
  · rename_i hlength
    cases hrun : runOnBody slot (process.setBody slot (process.getBody slot
        ++ client.request.sRequest)) client path with
    | mk ran answered =>
        rw [hrun] at h
        obtain ⟨rfl, rfl⟩ := Prod.mk.inj (Except.ok.inj h)
        obtain ⟨⟨world, effects, rfl⟩, hrequest, -⟩ := runOnBody_run hrun
        refine ⟨?_, ⟨_, hrequest⟩, world, effects, process.cgiChunk, [], rfl⟩
        have hbuffer : (answered.setAllRecv true).request.sRequest =
            client.request.sRequest := congrArg Request.sRequest hrequest
        change _ = readScript client.request (scriptRead slot process client)
        rw [readScript, if_neg hchunked, if_pos (by exact hlength),
          scriptRead_setBody, hbuffer]
        rfl
  · rename_i hlength
    obtain ⟨rfl, rfl⟩ := Prod.mk.inj (Except.ok.inj h)
    refine ⟨?_, ⟨_, rfl⟩, process.world, process.effects, process.cgiChunk,
      _, rfl⟩
    change _ = readScript client.request (scriptRead slot process client)
    rw [readScript, if_neg hchunked, if_neg (by exact hlength)]
    cases slot <;> rfl

theorem cgiExtensions_taken {ex path : Str} {extensions : List Str}
    {bol bol' : Bool} (hmethod : client.request.method = "POST".toList)
    (h : cgiExtensions ex path extensions process client bol =
      .ok (process', client', bol')) :
    ScriptTaken .location (extensions.count ex) process client process'
        client' ∧
      (bol = true ∨ ex ∈ extensions → bol' = true) := by
  induction extensions generalizing process client bol with
  | nil =>
      obtain ⟨rfl, hrest⟩ := Prod.mk.inj (Except.ok.inj h)
      obtain ⟨rfl, rfl⟩ := Prod.mk.inj hrest
      exact ⟨.refl .., fun hbol => hbol.resolve_right (by simp)⟩
  | cons extension rest ih =>
      rw [cgiExtensions] at h
      by_cases hmatch : extension = ex
      · subst hmatch
        rw [if_pos rfl, if_pos hmethod] at h
        obtain ⟨⟨posted, client₁⟩, hpost, h⟩ := bind_ok h
        have htaken := (cgiPost_taken hpost).markAlive
        obtain ⟨sRequest, hrequest⟩ := htaken.request
        have hmethod₁ : (markAlive client₁).request.method =
            "POST".toList := by
          rw [hrequest]
          exact hmethod
        obtain ⟨hrest, hbol⟩ := ih hmethod₁ h
        rw [List.count_cons_self, Nat.add_comm]
        exact ⟨htaken.trans hrest, fun _ => hbol (.inl rfl)⟩
      · rw [if_neg hmatch] at h
        obtain ⟨hrest, hbol⟩ := ih hmethod h
        rw [List.count_cons_of_ne hmatch]
        refine ⟨hrest, fun hlisted => hbol (hlisted.imp id fun hmem => ?_)⟩
        exact (List.mem_cons.mp hmem).resolve_left (Ne.symm hmatch)

/-- The slot that a script's body goes to, and how many entries take it. -/
def scriptEntries (client : Client) : Option (BodySlot × Nat) :=
  match scriptExtension? client.request.path with
  | none => none
  | some ex =>
      match client.serverClientObj.selected with
      | none => some (.server, 1)
      | some route =>
          if ex ∈ route.cgiExtension then
            some (.location, route.cgiExtension.count ex)
          else none

theorem scriptEntries_of_extension {client : Client}
    (h : scriptExtension? client.request.path = none) :
    scriptEntries client = none := by
  unfold scriptEntries
  rw [h]

theorem checkIfHaveCgi_entries {bol : Bool}
    (hmethod : client.request.method = "POST".toList)
    (h : checkIfHaveCgi process client = .ok (process', client', bol)) :
    match scriptEntries client with
    | none => process' = process ∧ client' = client ∧ bol = false
    | some (slot, entries) =>
        ScriptTaken slot entries process client process' client' ∧
          bol = true := by
  unfold checkIfHaveCgi at h
  simp only at h
  cases hscript : scriptExtension? client.request.path with
  | none =>
      rw [scriptEntries_of_extension hscript]
      rw [hscript] at h
      obtain ⟨rfl, hrest⟩ := Prod.mk.inj (Except.ok.inj h)
      obtain ⟨rfl, rfl⟩ := Prod.mk.inj hrest
      exact ⟨rfl, rfl, rfl⟩
  | some ex =>
      rw [hscript] at h
      cases hselected : client.serverClientObj.selected with
      | some route =>
          rw [hselected] at h
          by_cases hlisted : ex ∈ route.cgiExtension
          · have hentries : scriptEntries client =
                some (.location, route.cgiExtension.count ex) := by
              simp [scriptEntries, hscript, hselected, hlisted]
            rw [hentries]
            obtain ⟨htaken, hbol⟩ := cgiExtensions_taken hmethod h
            exact ⟨htaken, hbol (.inr hlisted)⟩
          · have hentries : scriptEntries client = none := by
              simp [scriptEntries, hscript, hselected, hlisted]
            rw [hentries]
            simp only at h
            rw [cgiExtensions_of_not_mem hlisted] at h
            obtain ⟨rfl, hrest⟩ := Prod.mk.inj (Except.ok.inj h)
            obtain ⟨rfl, rfl⟩ := Prod.mk.inj hrest
            exact ⟨rfl, rfl, rfl⟩
      | none =>
          have hentries : scriptEntries client = some (.server, 1) := by
            simp [scriptEntries, hscript, hselected]
          rw [hentries]
          rw [hselected] at h
          unfold cgiServer at h
          simp only at h
          rw [if_pos hmethod] at h
          obtain ⟨⟨posted, client₁⟩, hpost, h⟩ := bind_ok h
          obtain ⟨rfl, hrest⟩ := Prod.mk.inj (Except.ok.inj h)
          obtain ⟨rfl, rfl⟩ := Prod.mk.inj hrest
          exact ⟨(cgiPost_taken hpost).markAlive, rfl⟩

/-- The condition on a buffer for a script: when it ends the body, nothing
else is half read, and the last entry leaves nothing over. -/
def ResetsScript (slot : BodySlot) (entries : Nat) (process : Process W)
    (client : Client) : Prop :=
  let read := (readScript client.request)^[entries]
    (scriptRead slot process client)
  read.ended = true →
    read.chunks = {} ∧ read.body = [] ∧ process.IdleButScript slot

omit [Os W] in
theorem ScriptTaken.idle {slot : BodySlot} {entries : Nat}
    (h : ScriptTaken slot entries process client process' client')
    (hclean : ResetsScript slot entries process client)
    (hall : client'.allRecv = true) : process'.Idle := by
  have hread := h.read
  unfold ResetsScript at hclean
  rw [← hread] at hclean
  obtain ⟨hchunks, hbody, hothers⟩ := hclean hall
  obtain ⟨world, effects, chunks, body, rfl⟩ := h.process
  have hother := hothers.other
  rw [scriptRead_setBody] at hchunks hbody
  obtain rfl : chunks = {} := hchunks
  obtain rfl : body = [] := hbody
  have hslots : ∀ other : Str, other = [] →
      ({ location := [], server := other } : BodyCgi) = {} ∧
        ({ location := other, server := [] } : BodyCgi) = {} := by
    rintro other rfl
    exact ⟨rfl, rfl⟩
  cases slot with
  | location =>
      exact ⟨hothers.post, hothers.chunkRequest, hothers.part, rfl,
        (hslots _ hother).1⟩
  | server =>
      exact ⟨hothers.post, hothers.chunkRequest, hothers.part, rfl,
        (hslots _ hother).2⟩

end Entries

end Webserv
