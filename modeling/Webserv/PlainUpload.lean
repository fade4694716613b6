import Mathlib.Data.List.Nodup
import Mathlib.Data.List.Perm.Subperm
import Webserv.CgiBody
import Webserv.RoundTrip
import Webserv.Coding.Message

namespace Webserv

open Cxx

/-! A body that is written to one file as it arrives. -/

/-- The name under which `hanlde_post_request` opens its file. -/
def generatedPath (directory extension : Str) (index : Nat) : Str :=
  partPath directory (generatedName index extension)

/-- A directory a request addresses, and one that takes its file: the worlds
ready for it, and those in which it is written to. -/
structure FileArea (W : Type) [Os W] (target directory extension : Str) where
  ready : W → Prop
  taking : W → Str → Prop
  ne_nil : directory ≠ []
  target : ∀ world, ready world → ∃ statbuf,
    Os.stat world target = some statbuf ∧ statbuf.kind = .directory
  stat : ∀ world, ready world → ∃ statbuf,
    Os.stat world directory = some statbuf ∧ statbuf.kind = .directory ∧
      statbuf.ownerWrite = true
  free : ∀ world index, ready world → ∃ i, index ≤ i ∧
    i ≤ index + Os.nameBound world ∧
      Os.access world (generatedPath directory extension i) .exists = false
  openWrite : ∀ world i, ready world →
    Os.access world (generatedPath directory extension i) .exists = false →
      ∃ next, Os.openWrite world (generatedPath directory extension i) =
          some next ∧ taking next (generatedPath directory extension i)
  write : ∀ world path bytes, taking world path →
    taking (Os.write world path bytes).1 path ∧
      bytes.length ≤ (Os.write world path bytes).2
  done : ∀ world path, taking world path → ready world

section Upload

variable {W : Type} [Os W]

theorem ftGenerateFileNames_free {world : W} {extension dirname : Str}
    {fuel index i : Nat} (hindex : index ≤ i) (hi : i < index + fuel)
    (hfree : Os.access world (generatedPath dirname extension i) .exists =
      false) :
    ∃ found, ftGenerateFileNames world extension dirname fuel index =
      .ok (dirname ++ "/".toList ++ generatedName found extension,
        found) := by
  induction fuel generalizing index with
  | zero => omega
  | succ fuel ih =>
      rw [ftGenerateFileNames]
      split
      · exact ⟨index, rfl⟩
      · rename_i htaken
        have hne : index ≠ i := by
          rintro rfl
          exact htaken hfree
        exact ih (by omega) (by omega)

/-- The name `ft_generate_file_names` finds for the next file. -/
def FreeName (process : Process W) (directory extension path : Str) : Prop :=
  ∃ found, ftGenerateFileNames process.world extension directory
      (Os.nameBound process.world + 1) process.index =
        .ok (directory ++ "/".toList ++ generatedName found extension,
          found) ∧
    path = generatedPath directory extension found

theorem FreeName.unique {process : Process W}
    {directory extension path path' : Str}
    (h : FreeName process directory extension path)
    (h' : FreeName process directory extension path') : path = path' := by
  obtain ⟨found, hfound, rfl⟩ := h
  obtain ⟨found', hfound', rfl⟩ := h'
  rw [(Prod.mk.inj (Except.ok.inj (hfound.symm.trans hfound'))).2]

theorem FreeName.free {process : Process W} {directory extension path : Str}
    (h : FreeName process directory extension path) :
    Os.access process.world path .exists = false := by
  obtain ⟨found, hfound, rfl⟩ := h
  exact (ftGenerateFileNames_ok hfound).2.2

/-- What is left of the statics behind some bytes of a body. -/
def postCount (n seen : Nat) : PostStatics :=
  if n ≤ seen then {} else { first := 10, writed := seen }

def Client.counted (client : Client) (file : OFStream) (seen : Nat) :
    Client :=
  if client.request.contentLength ≤ seen then
    (client.setFile file).setAllRecv true
  else client.setFile file

/-- The process behind them: the statics of the other bodies are kept. -/
structure Counted {target directory extension : Str}
    (area : FileArea W target directory extension)
    (process process' : Process W) (client : Client) (path : Str)
    (seen : Nat) : Prop where
  taking : area.taking process'.world path
  post : process'.post = postCount client.request.contentLength seen
  others : process' = { process with
    world := process'.world
    index := process'.index
    post := process'.post
    effects := process'.effects }

variable {target directory extension : Str}
  {area : FileArea W target directory extension}
  {process : Process W} {client : Client} {path : Str}

theorem FileArea.getFileName_eq
    (area : FileArea W target directory extension) {world : W}
    (hready : area.ready world)
    (hdirectory : uploadDirectory client.serverClientObj = directory) :
    getFileName world client = (client, directory) := by
  obtain ⟨statbuf, hstat, hkind, hwrite⟩ := area.stat world hready
  unfold getFileName
  simp only [hdirectory, hstat, hkind, hwrite]
  simp

theorem putUpload_taking (htaking : area.taking process.world path)
    (hfile : client.request.file = ⟨some path, false⟩) :
    ∃ world, area.taking world path ∧
      putUpload process client = (({ process with world := world }).log client
        (.writeUpload client.request.sRequest), client) := by
  obtain ⟨hstill, hcount⟩ :=
    area.write process.world path client.request.sRequest htaking
  have hput : client.request.file.put process.world client.request.sRequest =
      (client.request.file,
        if client.request.sRequest = [] then process.world
        else (Os.write process.world path client.request.sRequest).1,
        client.request.sRequest) := by
    unfold OFStream.put
    rw [hfile]
    by_cases hempty : client.request.sRequest = []
    · simp [hempty]
    · have hall : decide ((Os.write process.world path
          client.request.sRequest).2 < client.request.sRequest.length) =
            false := by
        simpa using hcount
      simp [hempty, hall, List.take_of_length_le hcount]
  refine ⟨_, ?_, by unfold putUpload; rw [hput]; rfl⟩
  split
  · exact htaking
  · exact hstill

theorem hanldePostRequest_next (htaking : area.taking process.world path)
    (hfile : client.request.file = ⟨some path, false⟩) {seen : Nat}
    (hpost : process.post = ⟨10, seen⟩) :
    ∃ process', hanldePostRequest process client = .ok (process',
        client.counted ⟨some path, false⟩
          (seen + client.request.sRequest.length)) ∧
      Counted area process process' client path
        (seen + client.request.sRequest.length) ∧
      process'.filesOf client.clientId = appendLast client.request.sRequest
        (process.filesOf client.clientId) := by
  obtain ⟨world, hstill, hput⟩ := putUpload_taking htaking hfile
  have hopen : client.request.file.isOpen = true := by
    rw [hfile]
    rfl
  have hset : client.setFile ⟨some path, false⟩ = client := by
    rw [← hfile]
    rfl
  have hfiles := Process.filesOf_writeUpload { process with world := world } client
    client.request.sRequest
  unfold hanldePostRequest nextPost
  rw [if_neg (by rw [hpost]; simp), if_neg (by simp [hopen]), hput]
  simp only
  rw [if_neg (by simp [hfile])]
  unfold finishPost countWritten Client.counted
  simp only [Process.log, hpost, hset]
  by_cases hall : client.request.contentLength ≤
      seen + client.request.sRequest.length
  · rw [if_pos hall, if_pos hall]
    refine ⟨_, rfl, ⟨hstill, ?_, rfl⟩, hfiles⟩
    rw [postCount, if_pos hall]
  · rw [if_neg hall, if_neg hall]
    refine ⟨_, rfl, ⟨hstill, ?_, rfl⟩, hfiles⟩
    rw [postCount, if_neg hall]

theorem FileArea.exists_freeName
    (area : FileArea W target directory extension)
    (hready : area.ready process.world) :
    ∃ path, FreeName process directory extension path := by
  obtain ⟨i, hindex, hi, hfree⟩ := area.free process.world process.index hready
  obtain ⟨found, hfound⟩ := ftGenerateFileNames_free hindex
    (show i < process.index + (Os.nameBound process.world + 1) by omega) hfree
  exact ⟨_, found, hfound, rfl⟩

theorem hanldePostRequest_first (hready : area.ready process.world)
    (hname : FreeName process directory extension path)
    (hpost : process.post = {}) (hfile : client.request.file = {})
    (hdirectory : uploadDirectory client.serverClientObj = directory)
    (hextension : uploadExtension client.request = extension) :
    ∃ process', hanldePostRequest process client = .ok (process',
        client.counted ⟨some path, false⟩ client.request.sRequest.length) ∧
      Counted area process process' client path
        client.request.sRequest.length ∧
      process'.filesOf client.clientId = process.filesOf client.clientId ++
        [⟨path, client.request.sRequest⟩] := by
  have hnew := hname.free
  obtain ⟨found, hfound, rfl⟩ := hname
  obtain ⟨next, hopen, htaking⟩ :=
    area.openWrite process.world found hready hnew
  let path := generatedPath directory extension found
  let opened : Process W := ({ process with
    world := next
    index := found
    post := { first := 10 } }).log client (.openUpload path true)
  have hopened : openUpload { process with
      index := found
      post := { process.post with first := 10 } } client
        (cStr (directory ++ "/".toList ++ generatedName found extension)) =
        (opened, client.setFile ⟨some path, false⟩) := by
    have hstream : client.request.file.openFile process.world path =
        (⟨some path, false⟩, next) := by
      rw [hfile]
      simp only [OFStream.openFile, path, hopen]
      rfl
    unfold openUpload
    simp only [show cStr (directory ++ "/".toList ++
      generatedName found extension) = path from rfl, hstream, hpost]
    rfl
  obtain ⟨world, hstill, hput⟩ := @putUpload_taking _ _ _ _ _ area opened
    (client.setFile ⟨some path, false⟩) path htaking rfl
  have hfiles : (({ opened with world := world }).log client
      (.writeUpload client.request.sRequest)).filesOf client.clientId =
        process.filesOf client.clientId ++
          [⟨path, client.request.sRequest⟩] := by
    rw [Process.filesOf_writeUpload]
    have hfirst : ({ opened with world := world } : Process W).filesOf
        client.clientId = process.filesOf client.clientId ++ [⟨path, []⟩] :=
      Process.filesOf_openUpload ({ process with
        world := next
        index := found
        post := { first := 10 } } : Process W) client path
    rw [hfirst, appendLast_concat]
    rfl
  unfold hanldePostRequest
  rw [if_pos (by rw [hpost])]
  simp only [area.getFileName_eq hready hdirectory, hextension, hfound, bind,
    Except.bind, if_neg area.ne_nil]
  unfold firstPost
  simp only [hopened]
  rw [if_neg (by simp [OFStream.isOpen, Client.setFile]), hput]
  simp only
  rw [if_neg (by simp [Client.setFile])]
  unfold finishPost countWritten Client.counted
  simp only [Process.log, Client.setFile, opened]
  by_cases hall : client.request.contentLength ≤
      client.request.sRequest.length
  · rw [if_pos (by simpa using hall), if_pos hall]
    refine ⟨_, rfl, ⟨hstill, ?_, rfl⟩, hfiles⟩
    rw [postCount, if_pos hall]
  · rw [if_neg (by simpa using hall), if_neg hall]
    refine ⟨_, rfl, ⟨hstill, ?_, rfl⟩, hfiles⟩
    rw [postCount, if_neg hall, Nat.zero_add]

/-! The calls of a plain `POST`. -/

/-- A `POST` whose body is neither in parts nor in chunks. -/
structure PlainPost (client : Client) : Prop
    extends PlainBody client where
  single : ¬((search? "boundary=".toList
      (client.request.getMapValues "Content-Type".toList)).isSome ∧
    client.request.getMapValues "Transfer-Encoding".toList ≠ [])

theorem PlainPost.takeBody (h : PlainPost client) (process : Process W) :
    takeBody process client = hanldePostRequest process client := by
  unfold Webserv.takeBody
  simp only
  rw [if_neg h.single, if_neg h.coding]

theorem dispatchRequest_post
    (hready : client.response.readyToSend = false)
    (hfile : checkIfHaveCgi process client = .ok (process, client, false))
    (hmethod : client.request.method = "POST".toList) :
    dispatchRequest process client = postRequest process client := by
  unfold dispatchRequest
  rw [if_neg (by simp [hready]), hfile]
  simp only [bind, Except.bind]
  rw [if_neg (by simp), if_neg (by simp [hready])]
  unfold dispatchMethod
  rw [if_neg (by rw [hmethod]; decide), if_pos hmethod]

def IsDirectory (world : W) (path : Str) : Prop :=
  ∃ statbuf, Os.stat world path = some statbuf ∧ statbuf.kind = .directory

theorem postRequest_directory
    (htarget : IsDirectory process.world client.request.path) :
    postRequest process client = (do
      let (process, client) ← takeBody process client
      return (process, answerCreated process client)) := by
  obtain ⟨statbuf, hstat, hkind⟩ := htarget
  have hchecked : checkUri process.world client = (client, true) := by
    unfold checkUri
    rw [hstat]
    simp [hkind]
  unfold postRequest
  rw [hchecked, if_neg (by simp)]

/-- A `POST` that waits for more of its body. -/
structure Waiting (client : Client) : Prop where
  method : client.request.method = "POST".toList
  index : client.request.index = true
  open_ : client.allRecv = false
  unanswered : client.response.readyToSend = false

theorem Waiting.receive_post (h : Waiting client)
    (hscript : scriptExtension? client.request.path = none) (bytes : Str) :
    receive process client bytes =
      postRequest process (client.setSRequest bytes).forgetLocation := by
  have hfile : checkIfHaveCgi process
      (client.setSRequest bytes).forgetLocation =
        .ok (process, (client.setSRequest bytes).forgetLocation, false) := by
    unfold checkIfHaveCgi
    simp only [show (client.setSRequest bytes).forgetLocation.request.path =
      client.request.path from rfl, hscript]
  unfold Webserv.receive checkRequest parseOnce
  rw [if_neg (by simp [h.open_]), if_neg (by
    rw [show (client.setSRequest bytes).forgetLocation.request.index = true
      from h.index]
    simp)]
  exact dispatchRequest_post h.unanswered hfile h.method

theorem Waiting.receive (h : Waiting client)
    (hscript : scriptExtension? client.request.path = none)
    (htarget : IsDirectory process.world client.request.path) (bytes : Str) :
    receive process client bytes = (do
      let (process, client) ←
        takeBody process (client.setSRequest bytes).forgetLocation
      return (process, answerCreated process client)) :=
  (h.receive_post hscript bytes).trans (postRequest_directory htarget)

theorem cgiExtensions_of_not_mem {ex path : Str} {extensions : List Str}
    (h : ex ∉ extensions) (process : Process W) (client : Client)
    (bol : Bool) :
    cgiExtensions ex path extensions process client bol =
      .ok (process, client, bol) := by
  induction extensions with
  | nil => rfl
  | cons extension rest ih =>
      rw [cgiExtensions, if_neg (fun heq => h (by simp [heq]))]
      exact ih fun hmem => h (List.mem_cons_of_mem _ hmem)

/-- A `POST` whose head is accepted, and not to a script of its location. -/
structure BodyRequest (process : Process W) (client : Client) (head : Str)
    (parsed : Client) : Prop where
  complete : CompleteHead head
  request : client.request = {}
  open_ : client.allRecv = false
  parses : parseOnce process.world
    (client.setSRequest head).forgetLocation = .ok parsed
  accepted : parsed.response.readyToSend = false
  method : parsed.request.method = "POST".toList
  notScript : ∀ ex, scriptExtension? parsed.request.path = some ex →
    ∃ route, parsed.serverClientObj.selected = some route ∧
      ex ∉ route.cgiExtension

/-- What the head has been parsed to, on a connection that was idle. -/
structure Fresh (client parsed : Client) : Prop where
  index : parsed.request.index = true
  open_ : parsed.allRecv = false
  file : parsed.request.file = {}
  keepAlive : parsed.keepAlive = false
  clientId : parsed.clientId = client.clientId
  response : parsed.response = client.response
  positive : 0 < parsed.request.contentLength

theorem BodyRequest.fresh {head : Str} {parsed : Client}
    (h : BodyRequest process client head parsed) : Fresh client parsed := by
  have hparse := h.parses
  rw [parseOnce_fresh h.request] at hparse
  obtain ⟨parts, located, haccepted⟩ := parseRequest_accepted hparse h.accepted
  have hfile : client.request.file = {} := by
    rw [h.request]
  exact ⟨haccepted.index, haccepted.allRecv.trans h.open_,
    haccepted.file.trans hfile, parseRequest_keepAlive hparse,
    (parseRequest_kept hparse).clientId, haccepted.response,
    (haccepted.length h.method).1⟩

theorem BodyRequest.receive_post {head : Str} {parsed : Client}
    (h : BodyRequest process client head parsed) (first : Str) :
    receive process client (head ++ first) =
      postRequest process (parsed.setSRequest first) := by
  have hfile : checkIfHaveCgi process (parsed.setSRequest first) =
      .ok (process, parsed.setSRequest first, false) := by
    unfold checkIfHaveCgi
    cases hscript : scriptExtension? parsed.request.path with
    | none =>
        simp only [show (parsed.setSRequest first).request.path =
          parsed.request.path from rfl, hscript]
    | some ex =>
        obtain ⟨route, hselected, hlisted⟩ := h.notScript ex hscript
        simp only [show (parsed.setSRequest first).request.path =
            parsed.request.path from rfl,
          show (parsed.setSRequest first).serverClientObj =
            parsed.serverClientObj from rfl, hscript, hselected]
        exact cgiExtensions_of_not_mem hlisted process _ false
  unfold Webserv.receive checkRequest
  rw [if_neg (by simp [h.open_]),
    parseOnce_append h.request h.complete h.parses first]
  exact dispatchRequest_post h.accepted hfile h.method

theorem BodyRequest.receive_first {head : Str} {parsed : Client}
    (h : BodyRequest process client head parsed)
    (htarget : IsDirectory process.world parsed.request.path) (first : Str) :
    receive process client (head ++ first) = (do
      let (process, client) ← takeBody process (parsed.setSRequest first)
      return (process, answerCreated process client)) :=
  (h.receive_post first).trans (postRequest_directory htarget)

structure Finished (process : Process W) (client : Client) : Prop where
  allRecv : client.allRecv = true
  status : client.response.responseStatus = 201
  post : process.post = {}

/-- The file takes more of a body of `n` bytes. -/
structure Receiving (area : FileArea W target directory extension)
    (process : Process W) (client : Client) (path : Str) (n seen : Nat) :
    Prop extends PlainPost client where
  taking : area.taking process.world path
  file : client.request.file = ⟨some path, false⟩
  post : process.post = ⟨10, seen⟩
  length : client.request.contentLength = n
  index : client.request.index = true
  open_ : client.allRecv = false
  unanswered : client.response.readyToSend = false
  target : client.request.path = target
  pending : seen < n

theorem Counted.outcome {process' : Process W} {seen : Nat}
    (h : Counted area process process' client path seen)
    (hplain : PlainPost client) (hindex : client.request.index = true)
    (hopen : client.allRecv = false)
    (hready : client.response.readyToSend = false)
    (htarget : client.request.path = target) {client' : Client}
    (hclient : client' = answerCreated process'
      (client.counted ⟨some path, false⟩ seen)) :
    client'.clientId = client.clientId ∧
      (client.request.contentLength ≤ seen → Finished process' client') ∧
      (seen < client.request.contentLength →
        Receiving area process' client' path client.request.contentLength
          seen) := by
  have hpost := h.post
  unfold Client.counted at hclient
  unfold postCount at hpost
  by_cases hall : client.request.contentLength ≤ seen
  · rw [if_pos hall] at hclient hpost
    unfold answerCreated at hclient
    rw [if_pos ⟨rfl, hready⟩] at hclient
    subst hclient
    exact ⟨by simp [Client.setFile, Client.setAllRecv],
      fun _ => ⟨by simp, by simp, hpost⟩, fun hless => by omega⟩
  · rw [if_neg hall] at hclient hpost
    unfold answerCreated at hclient
    rw [if_neg (by simp [Client.setFile, hopen])] at hclient
    subst hclient
    exact ⟨rfl, fun hmore => absurd hmore hall, fun hless =>
      ⟨⟨⟨hplain.method, hplain.coding, hplain.keepAlive⟩, hplain.single⟩,
        h.taking, rfl, hpost, rfl, hindex, hopen, hready, htarget, hless⟩⟩

theorem Receiving.receive {n seen : Nat}
    (h : Receiving area process client path n seen)
    (hscript : scriptExtension? client.request.path = none) (bytes : Str) :
    ∃ process' client',
      receive process client bytes = .ok (process', client') ∧
      process'.filesOf client.clientId =
        appendLast bytes (process.filesOf client.clientId) ∧
      client'.clientId = client.clientId ∧
      (n ≤ seen + bytes.length → Finished process' client') ∧
      (seen + bytes.length < n →
        Receiving area process' client' path n (seen + bytes.length)) := by
  let waiting := (client.setSRequest bytes).forgetLocation
  have hplain : PlainPost waiting :=
    ⟨⟨h.method, h.coding, h.keepAlive⟩, h.single⟩
  obtain ⟨process', hpost, hcounted, hfiles⟩ := @hanldePostRequest_next _ _ _
    _ _ area process waiting path h.taking h.file seen h.post
  have htarget : IsDirectory process.world client.request.path := by
    rw [h.target]
    exact area.target _ (area.done _ _ h.taking)
  have hcall := Waiting.receive ⟨h.method, h.index, h.open_, h.unanswered⟩
    hscript htarget bytes
  rw [hplain.takeBody, hpost] at hcall
  obtain ⟨hid, hdone, hmore⟩ := hcounted.outcome hplain h.index h.open_
    h.unanswered h.target rfl
  refine ⟨process', _, hcall, hfiles, hid, ?_, ?_⟩
  · rw [← h.length]
    exact hdone
  · rw [← h.length]
    exact hmore

theorem Receiving.feed {n seen : Nat}
    (h : Receiving area process client path n seen)
    (hscript : scriptExtension? client.request.path = none)
    {rest : List Str} (htotal : seen + rest.flatten.length ≤ n)
    {files : List OutFile} {file : OutFile}
    (hfiles : process.filesOf client.clientId = files ++ [file]) :
    ∃ process' client',
      feed process client rest = .ok (process', client') ∧
      process'.filesOf client.clientId =
        files ++ [{ file with content := file.content ++ rest.flatten }] ∧
      (n ≤ seen + rest.flatten.length → Finished process' client') ∧
      (seen + rest.flatten.length < n → client'.allRecv = false) := by
  induction rest generalizing process client seen file with
  | nil =>
      exact ⟨process, client, rfl, by simpa using hfiles,
        fun hall => absurd h.pending (by simpa using hall),
        fun _ => h.open_⟩
  | cons bytes rest ih =>
      obtain ⟨process₁, client₁, hcall, hfiles₁, hid, hdone, hmore⟩ :=
        h.receive hscript bytes
      rw [hfiles, appendLast_concat] at hfiles₁
      simp only [List.flatten_cons, List.length_append] at htotal ⊢
      rw [feed_cons hcall]
      by_cases hall : n ≤ seen + bytes.length
      · have hempty : rest.flatten = [] :=
          List.length_eq_zero_iff.mp (by omega)
        have hfinished := hdone hall
        refine ⟨process₁, client₁, feed_of_allRecv hfinished.allRecv rest, ?_,
          fun _ => hfinished, fun hless => by omega⟩
        rw [hfiles₁, hempty, List.append_nil]
      · have hreceiving := hmore (by omega)
        have hscript₁ : scriptExtension? client₁.request.path = none := by
          rw [hreceiving.target, ← h.target]
          exact hscript
        obtain ⟨process', client', hrest, hfiles', hfinal, hopen⟩ :=
          ih hreceiving hscript₁ (by omega) (by rw [hid]; exact hfiles₁)
        rw [hid] at hfiles'
        refine ⟨process', client', hrest, ?_, fun _ => hfinal (by omega),
          fun _ => hopen (by omega)⟩
        rw [hfiles', List.append_assoc]

/-! A target that looks like a script: the later buffers are taken for one. -/

omit [Os W] in
theorem filesOf_cgi {process' : Process W} {id : Int} {script body : Str}
    (h : process'.effects = process.effects ++ [⟨id, .cgi script body⟩])
    (fd : Int) : process'.filesOf fd = process.filesOf fd := by
  unfold Process.filesOf
  rw [@Process.actsOf_of_effects _ process _ [.cgi script body] _ h fd]
  split
  · simp [uploadFiles]
  · simp

theorem AwaitingBody.receive {ex bytes : Str} {process' : Process W}
    {client' : Client} (h : AwaitingBody client ex)
    (hcall : receive process client bytes = .ok (process', client')) :
    (∀ fd, process'.filesOf fd = process.filesOf fd) ∧
      (client'.allRecv = true ∨ AwaitingBody client' ex) := by
  have hplain : PlainBody (client.setSRequest bytes).forgetLocation :=
    ⟨h.method, h.coding, h.keepAlive⟩
  rw [receive_awaiting h bytes] at hcall
  by_cases hlength : (process.bodyCgi.server ++ bytes).length =
      client.request.contentLength
  · obtain ⟨ran, client₁, hpost, hrun⟩ :=
      cgiPost_run hplain .server client.request.path hlength
    have halive : (client₁.setAllRecv true).keepAlive = false :=
      hrun.keepAlive.trans h.keepAlive
    rw [hpost] at hcall
    simp only [bind, Except.bind] at hcall
    rw [markAlive_of_not_alive halive] at hcall
    obtain ⟨rfl, rfl⟩ := Prod.mk.inj (Except.ok.inj hcall)
    obtain ⟨world, hran⟩ := hrun.process
    refine ⟨fun fd => ?_, .inl rfl⟩
    refine @filesOf_cgi _ _ _ client.clientId client.request.path
      (process.bodyCgi.server ++ bytes) ?_ fd
    rw [Process.setBody_effects, hran]
    rfl
  · rw [cgiPost_wait hplain .server client.request.path hlength] at hcall
    simp only [bind, Except.bind] at hcall
    rw [markAlive_of_not_alive hplain.keepAlive] at hcall
    obtain ⟨rfl, rfl⟩ := Prod.mk.inj (Except.ok.inj hcall)
    exact ⟨fun fd => rfl, .inr ⟨hplain, h.index, h.open_, h.unanswered,
      h.extension⟩⟩

theorem AwaitingBody.feed {ex : Str} {rest : List Str}
    {process' : Process W} {client' : Client} (h : AwaitingBody client ex)
    (hfed : feed process client rest = .ok (process', client')) (fd : Int) :
    process'.filesOf fd = process.filesOf fd := by
  induction rest generalizing process client with
  | nil =>
      obtain ⟨rfl, -⟩ := Prod.mk.inj (Except.ok.inj hfed)
      rfl
  | cons bytes rest ih =>
      obtain ⟨process₁, client₁, hcall, hrest⟩ := feed_cons_ok hfed
      obtain ⟨hfiles, hnext⟩ := h.receive hcall
      rw [← hfiles fd]
      cases hnext with
      | inl hall =>
          rw [feed_of_allRecv hall] at hrest
          obtain ⟨rfl, -⟩ := Prod.mk.inj (Except.ok.inj hrest)
          rfl
      | inr hwaiting => exact ih hwaiting hrest

/-! A request from its first buffer on. -/

/-- A plain `POST` to a directory, in a process that receives no other
body. -/
structure PlainRequest (area : FileArea W target directory extension)
    (process : Process W) (client : Client) (head : Str) (parsed : Client) :
    Prop extends BodyRequest process client head parsed where
  coding : parsed.request.getMapValues "Transfer-Encoding".toList ≠
    "chunked".toList
  single : ¬((search? "boundary=".toList
      (parsed.request.getMapValues "Content-Type".toList)).isSome ∧
    parsed.request.getMapValues "Transfer-Encoding".toList ≠ [])
  target : parsed.request.path = target
  directory : uploadDirectory parsed.serverClientObj = directory
  extension : uploadExtension parsed.request = extension
  initial : process.post = {}
  ready : area.ready process.world

/-- One file under a new name holds the body, all of it has been received
exactly with its last byte, and the answer is a `201`. -/
structure Assembled (process : Process W) (client : Client)
    (head first : Str) (rest : List Str) (n : Nat) : Prop where
  stored : ∃ path process' client',
    Os.access process.world path .exists = false ∧
    feed process client ((head ++ first) :: rest) = .ok (process', client') ∧
    process'.filesOf client.clientId = process.filesOf client.clientId ++
      [⟨path, first ++ rest.flatten⟩] ∧
    client'.response.responseStatus = 201 ∧ process'.post = {}
  received : ∀ i, ∃ process' client',
    feed process client ((head ++ first) :: rest.take i) =
      .ok (process', client') ∧
    (client'.allRecv = true ↔ n ≤ (first ++ (rest.take i).flatten).length)

variable {head : Str} {parsed : Client}

theorem PlainRequest.first_call
    (h : PlainRequest area process client head parsed) (first : Str) :
    ∃ path process' client',
      receive process client (head ++ first) = .ok (process', client') ∧
      FreeName process directory extension path ∧
      process'.filesOf client.clientId = process.filesOf client.clientId ++
        [⟨path, first⟩] ∧
      client'.clientId = client.clientId ∧
      (parsed.request.contentLength ≤ first.length →
        Finished process' client') ∧
      (first.length < parsed.request.contentLength →
        Receiving area process' client' path parsed.request.contentLength
          first.length) := by
  have hfresh := h.fresh
  let waiting := parsed.setSRequest first
  have hplain : PlainPost waiting :=
    ⟨⟨h.method, h.coding, hfresh.keepAlive⟩, h.single⟩
  obtain ⟨path, hname⟩ := area.exists_freeName h.ready
  obtain ⟨process', hpost, hcounted, hfiles⟩ :=
    @hanldePostRequest_first _ _ _ _ _ area process waiting path h.ready hname
      h.initial hfresh.file h.directory h.extension
  have htarget : IsDirectory process.world parsed.request.path := by
    rw [h.target]
    exact area.target _ h.ready
  have hcall := h.receive_first htarget first
  rw [hplain.takeBody, hpost] at hcall
  obtain ⟨hkept, hdone, hmore⟩ := hcounted.outcome hplain hfresh.index
    hfresh.open_ h.accepted h.target rfl
  refine ⟨path, process', _, hcall, hname, ?_,
    hkept.trans hfresh.clientId, hdone, hmore⟩
  rw [← hfresh.clientId]
  exact hfiles

omit [Os W] in
theorem length_take_flatten_le (rest : List Str) (i : Nat) :
    (rest.take i).flatten.length ≤ rest.flatten.length := by
  conv_rhs => rw [← List.take_append_drop i rest, List.flatten_append,
    List.length_append]
  omega

theorem PlainRequest.assembled
    (h : PlainRequest area process client head parsed) {first : Str}
    {rest : List Str}
    (hbytes : (first ++ rest.flatten).length = parsed.request.contentLength)
    (hwhole : scriptExtension? parsed.request.path = none ∨
      parsed.request.contentLength ≤ first.length) :
    Assembled process client head first rest parsed.request.contentLength := by
  obtain ⟨path, process₁, client₁, hcall, hname, hfiles, hid, hdone, hmore⟩ :=
    h.first_call first
  rw [List.length_append] at hbytes
  by_cases hall : parsed.request.contentLength ≤ first.length
  · have hfinished := hdone hall
    have hempty : rest.flatten = [] := List.length_eq_zero_iff.mp (by omega)
    constructor
    · refine ⟨path, process₁, client₁, hname.free, ?_, ?_, hfinished.status,
        hfinished.post⟩
      · rw [feed_cons hcall, feed_of_allRecv hfinished.allRecv]
      · rw [hfiles, hempty, List.append_nil]
    · intro i
      refine ⟨process₁, client₁, ?_, iff_of_true hfinished.allRecv ?_⟩
      · rw [feed_cons hcall, feed_of_allRecv hfinished.allRecv]
      · rw [List.length_append]
        omega
  · have hreceiving := hmore (by omega)
    have hscript : scriptExtension? client₁.request.path = none := by
      rw [hreceiving.target, ← h.target]
      exact hwhole.resolve_right hall
    rw [← hid] at hfiles
    have htotal : first.length + rest.flatten.length ≤
        parsed.request.contentLength := Nat.le_of_eq hbytes
    constructor
    · obtain ⟨process', client', hrest, hfiles', hfinal, -⟩ :=
        hreceiving.feed hscript htotal hfiles
      have hfinished := hfinal (by omega)
      refine ⟨path, process', client', hname.free, ?_, ?_, hfinished.status,
        hfinished.post⟩
      · rw [feed_cons hcall]
        exact hrest
      · rw [← hid]
        exact hfiles'
    · intro i
      have htaken := length_take_flatten_le rest i
      have hfront : first.length + (rest.take i).flatten.length ≤
          parsed.request.contentLength := by omega
      obtain ⟨process', client', hrest, -, hfinal, hopen⟩ :=
        hreceiving.feed hscript hfront hfiles
      refine ⟨process', client', ?_, ?_⟩
      · rw [feed_cons hcall]
        exact hrest
      rw [List.length_append]
      constructor
      · intro hreceived
        by_contra hless
        rw [hopen (by omega)] at hreceived
        cases hreceived
      · intro hlast
        exact (hfinal hlast).allRecv

/-- The first call looks for a script in the location of the request, the later
ones outside of every location. -/
theorem assembled_iff (h : PlainRequest area process client head parsed)
    {first : Str} {rest : List Str}
    (hbytes : (first ++ rest.flatten).length =
      parsed.request.contentLength) :
    Assembled process client head first rest parsed.request.contentLength ↔
      scriptExtension? parsed.request.path = none ∨
        first.length = parsed.request.contentLength := by
  have hlengths := hbytes
  rw [List.length_append] at hlengths
  constructor
  · intro hassembled
    by_contra hneither
    obtain ⟨hscript, hcut⟩ := not_or.mp hneither
    obtain ⟨ex, hex⟩ := Option.ne_none_iff_exists'.mp hscript
    obtain ⟨path, process', client', -, hfed, hstored, -⟩ := hassembled.stored
    obtain ⟨path₁, process₁, client₁, hcall, -, hfiles, hid, -, hmore⟩ :=
      h.first_call first
    have hreceiving := hmore (by omega)
    have hawaiting : AwaitingBody client₁ ex :=
      ⟨hreceiving.toPlainBody, hreceiving.index, hreceiving.open_,
        hreceiving.unanswered, by rw [hreceiving.target, ← h.target, hex]⟩
    rw [feed_cons hcall] at hfed
    rw [hawaiting.feed hfed, hfiles] at hstored
    obtain ⟨-, hfile⟩ := List.append_inj' hstored rfl
    have hcontent := congrArg (List.map (·.content.length)) hfile
    simp only [List.map_cons, List.map_nil, List.cons.injEq,
      List.length_append, and_true] at hcontent
    omega
  · intro hwhole
    refine h.assembled hbytes (hwhole.imp_right fun hlength => ?_)
    omega

end Upload

/-! The upload directory of a disk takes files under generated names. -/

namespace Disk

theorem find?_setNode {disk : Disk} {place : Place}
    (hplace : disk.node? place ≠ some .directory) {path : Str}
    (h : disk.find? path = some .directory) (content : Str) :
    (disk.setNode place (.file content)).find? path = some .directory := by
  have hkept : ∀ other, disk.node? other = some .directory →
      (disk.setNode place (.file content)).node? other =
        some .directory := by
    intro other hother
    by_cases hroot : other.2.2 = []
    · rw [node?, if_pos hroot]
    · have hne : other ≠ place := by
        rintro rfl
        exact hplace hother
      rw [node?_setNode _ _ _ hroot, if_neg hne]
      exact hother
  unfold find? at h ⊢
  split at h
  · rename_i hpass
    have hpassable : (disk.setNode place (.file content)).passable path =
        true := by
      have hbefore := hpass.2
      unfold passable at hbefore ⊢
      rw [List.all_eq_true] at hbefore ⊢
      intro parts hparts
      rw [decide_eq_true_eq]
      exact hkept _ (by simpa using hbefore parts hparts)
    rw [if_pos ⟨hpass.1, hpassable⟩]
    exact hkept _ h
  · cases h

theorem generatedName_injective {extension : Str} {i j : Nat}
    (h : generatedName i extension = generatedName j extension) : i = j := by
  unfold generatedName at h
  simp only [List.append_assoc] at h
  have hdigits := List.append_cancel_left h
  rw [← List.append_assoc, ← List.append_assoc] at hdigits
  exact Coding.decimal_injective (List.append_cancel_right
    (List.append_cancel_right hdigits))

theorem plainPart_generatedName {extension : Str}
    (hslash : '/' ∉ extension) (hnul : '\x00' ∉ extension) (i : Nat) :
    PlainPart (generatedName i extension) ∧
      generatedName i extension ≠ ".".toList := by
  have hdigit : ∀ c ∈ decimal i, c.isDigit = true := fun c hc =>
    isDigit_of_mem_decimal hc
  have habsent : ∀ c : Char, c ∉ "file".toList → c.isDigit = false →
      c ∉ ".".toList → c ∉ extension → c ∉ generatedName i extension := by
    intro c hfile hnumber hdot hextension hmem
    simp only [generatedName, List.mem_append] at hmem
    rcases hmem with ((hmem | hmem) | hmem) | hmem
    · exact hfile hmem
    · rw [hdigit c hmem] at hnumber
      cases hnumber
    · exact hdot hmem
    · exact hextension hmem
  have hfirst : generatedName i extension =
      'f' :: ("ile".toList ++ decimal i ++ ".".toList ++ extension) := rfl
  refine ⟨⟨?_, habsent _ (by decide) (by decide) (by decide) hslash,
    habsent _ (by decide) (by decide) (by decide) hnul, ?_⟩, ?_⟩
  · rw [hfirst]
    simp
  · rw [hfirst]
    exact fun h => absurd (List.cons.inj h).1 (by decide)
  · rw [hfirst]
    exact fun h => absurd (List.cons.inj h).1 (by decide)

theorem exists_free {disk : Disk} (h : disk.uploadReady) {extension : Str}
    (hslash : '/' ∉ extension) (hnul : '\x00' ∉ extension) (index : Nat) :
    ∃ i, index ≤ i ∧ i ≤ index + disk.nodes.length ∧
      disk.find? (generatedPath upload extension i) = none := by
  by_contra hnone
  let place : Nat → Place := fun i =>
    (false, 0, ["upload".toList, generatedName i extension])
  have hused : ∀ i, index ≤ i → i ≤ index + disk.nodes.length →
      place i ∈ disk.nodes.map Prod.fst := by
    intro i hfrom hto
    obtain ⟨hplain, hdot⟩ := plainPart_generatedName hslash hnul i
    obtain ⟨hpath, -, hresolve⟩ := components_partPath hplain hdot
    have hne : partPath upload (generatedName i extension) ≠ [] := by
      rw [hpath]
      simp
    have hfound : disk.find? (generatedPath upload extension i) ≠ none :=
      fun hfree => hnone ⟨i, hfrom, hto, hfree⟩
    unfold find? generatedPath at hfound
    rw [if_pos ⟨hne, passable_partPath h hplain hdot⟩, hresolve, node?,
      if_neg (by simp)] at hfound
    obtain ⟨entry, hentry, hkey⟩ : ∃ entry ∈ disk.nodes,
        place i == entry.1 := by
      rw [← List.lookup_isSome_iff]
      exact Option.isSome_iff_ne_none.mpr hfound
    exact List.mem_map.mpr ⟨entry, hentry, (beq_iff_eq.mp hkey).symm⟩
  have hdistinct : ((List.range' index (disk.nodes.length + 1)).map
      place).Nodup := by
    refine List.Nodup.map (fun i j hij => ?_) List.nodup_range'
    have hnames := (Prod.mk.inj (Prod.mk.inj hij).2).2
    exact generatedName_injective (by simpa using hnames)
  have hsubset : (List.range' index (disk.nodes.length + 1)).map place ⊆
      disk.nodes.map Prod.fst := by
    intro key hkey
    obtain ⟨i, hi, rfl⟩ := List.mem_map.mp hkey
    rw [List.mem_range'_1] at hi
    exact hused i hi.1 (by omega)
  have hlength := (hdistinct.subperm hsubset).length_le
  simp only [List.length_map, List.length_range'] at hlength
  omega

def bodyReady (target : Str) (disk : Disk) : Prop :=
  disk.uploadReady ∧ disk.find? target = some .directory

theorem bodyReady_setNode {disk : Disk} {target : Str}
    (h : disk.bodyReady target) {place : Place}
    (hplace : disk.node? place ≠ some .directory) (content : Str) :
    (disk.setNode place (.file content)).bodyReady target :=
  ⟨uploadReady_setNode h.1 hplace content, find?_setNode hplace h.2 content⟩

/-- The nodes of a place below the root. -/
def fileArea {target extension : Str} (hslash : '/' ∉ extension)
    (hnul : '\x00' ∉ extension) : FileArea Disk target upload extension where
  ready := bodyReady target
  taking disk path := disk.bodyReady target ∧
    ∃ content, disk.node? (Lexical.resolve path) = some (.file content)
  ne_nil := uploadArea.ne_nil
  target disk h := by
    refine ⟨⟨.directory, true, true⟩, ?_, rfl⟩
    change (disk.find? target).map _ = _
    rw [h.2]
    rfl
  stat disk h := uploadArea.stat disk h.1
  free disk index h := by
    obtain ⟨i, hfrom, hto, hfree⟩ := exists_free h.1 hslash hnul index
    refine ⟨i, hfrom, hto, ?_⟩
    change (disk.find? (generatedPath upload extension i)).isSome = false
    rw [hfree]
    rfl
  openWrite disk i h _ := by
    obtain ⟨hplain, hdot⟩ := plainPart_generatedName hslash hnul i
    obtain ⟨hpath, -, hresolve⟩ := components_partPath hplain hdot
    have hfree := h.1.2 (generatedName i extension)
    have hopen : Os.openWrite disk (generatedPath upload extension i) =
        some (disk.setNode (Lexical.resolve (generatedPath upload extension i))
          (.file [])) := by
      change disk.openWrite (generatedPath upload extension i) = _
      unfold openWrite generatedPath
      rw [if_neg (by
        rw [passable_partPath h.1 hplain hdot, hpath]
        simp), hresolve]
      split
      · exact absurd ‹_› hfree
      · rfl
    refine ⟨_, hopen, ?_, [], ?_⟩
    · unfold generatedPath
      rw [hresolve]
      exact bodyReady_setNode h hfree []
    · unfold generatedPath
      exact disk.node?_setNode_self (by simp [hresolve]) _
  write disk path bytes h := by
    obtain ⟨hready, content, hcontent⟩ := h
    have hfile : disk.node? (Lexical.resolve path) ≠ some .directory := by
      simp [hcontent]
    rw [write_of_file bytes hcontent]
    exact ⟨⟨bodyReady_setNode hready hfile _, content ++ bytes,
      disk.node?_setNode_self (below_of_file hcontent) _⟩, Nat.le_refl _⟩
  done _ _ h := h.1

end Disk

/-! Two bytes for a directory, in two buffers: once under a plain name, once
under that of a script. -/

def targetBlock (uri : String) : ServerBlock where
  routes := [{ uri := uri.toList, root := ".".toList }]

def targetProcess (target : String) : Process Disk where
  world := .ofDirectories [Disk.upload, target.toList]

def targetHead (uri : String) : Str :=
  "POST ".toList ++ uri.toList ++
    " HTTP/1.1\r\nContent-Length: 2\r\n\r\n".toList

def isTargetRequest (target : Str) (parsed : Client) : Bool :=
  parsed.response.readyToSend = false ∧
    parsed.request.method = "POST".toList ∧
    parsed.request.getMapValues "Transfer-Encoding".toList ≠
      "chunked".toList ∧
    search? "boundary=".toList
      (parsed.request.getMapValues "Content-Type".toList) = none ∧
    parsed.request.path = target ∧
    parsed.request.contentLength = 2 ∧
    (parsed.serverClientObj.selected.map fun route =>
      (route.cgiExtension, route.clientBodyTempPath)) =
        some ([], Disk.upload) ∧
    uploadExtension parsed.request = "NULL".toList

def nullArea (target : Str) : FileArea Disk target Disk.upload "NULL".toList :=
  Disk.fileArea (by decide) (by decide)

theorem targetRequest {uri target : String}
    (h : ((parseOnce (targetProcess target).world ((Client.connect 5
      (targetBlock uri)).setSRequest (targetHead uri)).forgetLocation).toOption.map
        (isTargetRequest target.toList)) = some true)
    (hcomplete : ((search? "\r\n\r\n".toList (targetHead uri)).map
      (· + 4)) = some (targetHead uri).length)
    (hready : Disk.bodyReady target.toList (targetProcess target).world) :
    ∃ parsed, PlainRequest (nullArea target.toList) (targetProcess target)
        (.connect 5 (targetBlock uri)) (targetHead uri) parsed ∧
      parsed.request.contentLength = 2 ∧
      parsed.request.path = target.toList := by
  obtain ⟨parsed, hparsed, hfields⟩ := ok_of_toOption_map h
  obtain ⟨hunanswered, hmethod, hcoding, hsingle, hpath, hlength, hselected,
    hextension⟩ := of_decide_eq_true hfields
  obtain ⟨position, hfound, hsize⟩ := Option.map_eq_some_iff.mp hcomplete
  obtain ⟨route, hroute, hfield⟩ := Option.map_eq_some_iff.mp hselected
  obtain ⟨hscripts, hupload⟩ := Prod.mk.inj hfield
  refine ⟨parsed, ?_, hlength, hpath⟩
  refine ⟨⟨⟨position, hfound, hsize.symm⟩, rfl, rfl, hparsed, hunanswered,
    hmethod, fun ex _ => ⟨route, hroute, by simp [hscripts]⟩⟩, hcoding, ?_,
      hpath, ?_, hextension, rfl, hready⟩
  · rw [hsingle]
    simp
  · unfold uploadDirectory
    rw [hroute]
    exact hupload

theorem uploadReady_target {target : String} {name : Str}
    (h : Lexical.resolve target.toList = (false, 0, [name])) :
    (targetProcess target).world.uploadReady := by
  have hnodes : (targetProcess target).world.nodes =
      [((false, 0, ["upload".toList]), .directory),
        ((false, 0, [name]), .directory)] := by
    change [(Lexical.resolve Disk.upload, Node.directory),
      (Lexical.resolve target.toList, Node.directory)] = _
    rw [h, show Lexical.resolve Disk.upload = (false, 0, ["upload".toList])
      from by decide]
  constructor
  · rw [Disk.node?, if_neg (by simp), hnodes]
    rfl
  · intro file
    have hne : ∀ place : Str,
        ((false, 0, ["upload".toList, file]) : Place) ≠ (false, 0, [place]) :=
      fun place => by simp
    rw [Disk.node?, if_neg (by simp), hnodes, List.lookup_cons,
      beq_false_of_ne (hne _), List.lookup_cons, beq_false_of_ne (hne _)]
    simp

theorem assembled_plain :
    Assembled (targetProcess "./d") (.connect 5 (targetBlock "/d"))
      (targetHead "/d") "a".toList ["b".toList] 2 := by
  obtain ⟨parsed, hrequest, hlength, hpath⟩ :=
    @targetRequest "/d" "./d" (by decide +kernel) (by decide +kernel)
      ⟨uploadReady_target (show Lexical.resolve "./d".toList =
        (false, 0, ["d".toList]) by decide), by decide +kernel⟩
  have hiff := assembled_iff hrequest (show
    ("a".toList ++ ["b".toList].flatten).length =
      parsed.request.contentLength by rw [hlength]; rfl)
  rw [hlength, hpath] at hiff
  exact hiff.mpr (.inl (by decide +kernel))

/-- The second byte never reaches the file of the first. -/
theorem assembled_fails_script :
    ∃ parsed, PlainRequest (nullArea "./d.py".toList)
        (targetProcess "./d.py") (.connect 5 (targetBlock "/d.py"))
        (targetHead "/d.py") parsed ∧
      parsed.request.contentLength = 2 ∧
      ¬Assembled (targetProcess "./d.py") (.connect 5 (targetBlock "/d.py"))
        (targetHead "/d.py") "a".toList ["b".toList] 2 := by
  obtain ⟨parsed, hrequest, hlength, hpath⟩ :=
    @targetRequest "/d.py" "./d.py" (by decide +kernel) (by decide +kernel)
      ⟨uploadReady_target (show Lexical.resolve "./d.py".toList =
        (false, 0, ["d.py".toList]) by decide), by decide +kernel⟩
  refine ⟨parsed, hrequest, hlength, fun hassembled => ?_⟩
  have hfiles : ((feed (targetProcess "./d.py")
      (.connect 5 (targetBlock "/d.py"))
      [targetHead "/d.py" ++ "a".toList, "b".toList]).toOption.map
        fun final => (final.1.filesOf 5).map (·.content)) =
          some ["a".toList] := by
    decide +kernel
  obtain ⟨final, hfed, hcontents⟩ := ok_of_toOption_map hfiles
  obtain ⟨path, process', client', -, hfed', hstored, -⟩ := hassembled.stored
  obtain rfl := Except.ok.inj (hfed.symm.trans hfed')
  have hstored' : process'.filesOf 5 = [] ++ [⟨path, "ab".toList⟩] := hstored
  simp [hstored'] at hcontents

end Webserv
