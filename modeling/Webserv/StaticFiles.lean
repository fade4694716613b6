import Webserv.ReadOnly
import Webserv.WireMessages
import Webserv.ParseGate

namespace Webserv

open Cxx Coding

/-! A request for a file, from the buffer that a client has sent to the bytes
that it reads. -/

section Request

variable {W : Type} [Os W] {world : W} {client client' parsed : Client}

/-- The file that the path of a request names: itself, or the index of a
directory. -/
inductive NamedFile (world : W) (client : Client) : Str → Prop
  | regular {pathStat : Stat} :
      Os.stat world client.request.path = some pathStat →
      pathStat.kind = .regular → pathStat.ownerRead = true →
      NamedFile world client client.request.path
  | index {pathStat : Stat} {names : List Str} :
      Os.stat world client.request.path = some pathStat →
      pathStat.kind = .directory →
      Os.access world client.request.path .read = true →
      Os.readdir world client.request.path = some names →
      (Os.stat world (indexCandidate world client)).isSome = true →
      NamedFile world client (indexCandidate world client)

/-- A head that has been accepted and asks for a file that can be opened. -/
structure AsksFor (world : W) (parsed : Client) (file content : Str) :
    Prop where
  pending : parsed.response.readyToSend = false
  method : parsed.request.method = "GET".toList
  plain : scriptExtension? parsed.request.path = none
  named : NamedFile world parsed file
  opened : Os.openRead world file = some content

theorem NamedFile.responseToGet {file : Str} (h : NamedFile world client file) :
    responseToGet world client = .ok (sendFile world client file) := by
  unfold Webserv.responseToGet
  cases h with
  | regular hstat hkind hread =>
      rw [hstat]
      simp only [hkind]
      rw [if_neg (by simp [hread])]
  | index hstat hkind haccess hnames hindex =>
      rw [hstat]
      simp only [hkind]
      unfold directoryResponse
      rw [if_neg (by simp [haccess]), hnames]
      simp only
      rw [if_neg (by simp [Option.isNone_iff_eq_none,
        ← Option.isSome_iff_ne_none, hindex])]
      unfold directoryAnswer
      rw [if_neg (by decide)]
      cases client.serverClientObj.selected with
      | none => rfl
      | some route =>
          simp only
          split
          · rfl
          · rfl

theorem AsksFor.dispatchRequest {process process' : Process W}
    {file content : Str} (h : AsksFor process.world parsed file content)
    (hdispatched : dispatchRequest process parsed = .ok (process', client')) :
    client' = (sendFile process.world parsed file).setAllRecv true := by
  unfold Webserv.dispatchRequest checkIfHaveCgi at hdispatched
  rw [if_neg (by simp [h.pending])] at hdispatched
  simp only [h.plain] at hdispatched
  obtain ⟨⟨handled, client₁, isCgi⟩, hcgi, hnext⟩ := bind_ok hdispatched
  obtain ⟨rfl, hrest⟩ := Prod.mk.inj (Except.ok.inj hcgi)
  obtain ⟨rfl, rfl⟩ := Prod.mk.inj hrest
  simp only [Bool.false_eq_true, if_false, h.pending] at hnext
  unfold dispatchMethod at hnext
  rw [if_pos h.method, h.named.responseToGet] at hnext
  obtain ⟨answered, hget, hnext⟩ := bind_ok hnext
  obtain rfl := Except.ok.inj hget
  exact (Prod.mk.inj (Except.ok.inj hnext)).2.symm

/-! A head that is not answered at once has stored no redirection. -/

def Unredirected (client client' : Client) : Prop :=
  (client.response.readyToSend = true →
    client'.response.readyToSend = true) ∧
  (client'.response.readyToSend = false →
    client'.request.redirection = client.request.redirection)

theorem unredirected_of_ready {client client' : Client}
    (h : client'.response.readyToSend = true) :
    Unredirected client client' :=
  ⟨fun _ => h, fun hpending => by rw [h] at hpending; cases hpending⟩

variable (W) in
theorem unredirected_rule : ParseRule W Unredirected where
  refl _ := ⟨id, fun _ => rfl⟩
  trans {first second third} hfirst hsecond := by
    refine ⟨hsecond.1 ∘ hfirst.1, fun hpending => ?_⟩
    have hearlier : second.response.readyToSend = false := by
      by_contra hready
      rw [hsecond.1 (by simpa using hready)] at hpending
      cases hpending
    rw [hsecond.2 hpending, hfirst.2 hearlier]
  start _ _ := ⟨id, fun _ => rfl⟩
  setLine _ _ _ _ := ⟨id, fun _ => rfl⟩
  setPath _ _ := ⟨id, fun _ => rfl⟩
  addHeader client key value := by
    obtain ⟨headersMap, keepAlive, heq, -⟩ := addHeader_eq client key value
    rw [heq]
    exact ⟨id, fun _ => rfl⟩
  setBlock _ _ := ⟨id, fun _ => rfl⟩
  setContentLength _ _ := ⟨id, fun _ => rfl⟩
  error _ _ _ := unredirected_of_ready (setResponseError_readyToSend ..)
  refuse _ _ := unredirected_of_ready rfl
  clear _ _ := unredirected_of_ready rfl
  redirect _ _ _ _ _ _ :=
    unredirected_of_ready (setResponseError_readyToSend ..)

/-! The answer. -/

def fileHead (file : Str) (n : Nat) : Str :=
  joinCrlf ["HTTP/1.1 200 ok ".toList,
    "Content-Type:".toList ++ getContentType file, lengthLine n,
    "Accept-Ranges: bytes".toList, "Connection: close".toList] ++ crlf

theorem fillResponse_fileHead {file content : Str}
    (hopen : Os.openRead world file = some content)
    (hplain : client.request.redirection = -1)
    (halive : client.keepAlive = false) :
    (fillResponse world client file 200).2 =
      fileHead file content.length := by
  have hfirst : "HTTP/1.1 ".toList ++ decimalInt 200 ++ " ".toList ++
      getResponseTitle 200 ++ " ".toList = "HTTP/1.1 200 ok ".toList := by
    decide
  have hlast : aliveLine client = "Connection: close".toList := by
    unfold aliveLine
    rw [halive]
    rfl
  obtain ⟨hopens, hannounced, -⟩ := Os.opens_of_openRead hopen
  rw [fillResponse_eq hopens, hannounced, fileLines, if_pos hplain, hfirst,
    hlast]
  rfl

theorem AsksFor.received {process process' : Process W} {fd : Int}
    {block : ServerBlock} {bytes file content : Str}
    (hparse : parseRequest process.world (firstBuffer fd block bytes) =
      .ok parsed)
    (h : AsksFor process.world parsed file content)
    (hreceive : receive process (Client.connect fd block) bytes =
      .ok (process', client')) :
    client' = (sendFile process.world parsed file).setAllRecv true := by
  rcases receive_cases hreceive with ⟨hall, -, -⟩ | ⟨-, other, hother, hran⟩
  · cases hall
  rcases parseOnce_cases hother with ⟨-, hagain⟩ | ⟨hindex, -⟩
  · obtain rfl := Except.ok.inj (hagain.symm.trans hparse)
    exact h.dispatchRequest hran
  · cases hindex

theorem AsksFor.unsent {process process' : Process W} {fd : Int}
    {block : ServerBlock} {bytes file content : Str}
    (hparse : parseRequest process.world (firstBuffer fd block bytes) =
      .ok parsed)
    (h : AsksFor process.world parsed file content)
    (hreceive : receive process (Client.connect fd block) bytes =
      .ok (process', client')) :
    client'.unsent = fileHead file content.length ++ content := by
  have hsent := ((untouched_rule W).receive hreceive
    (untouched_connect fd block)).unsent_eq
  obtain ⟨hopens, -, hreadable⟩ := Os.opens_of_openRead h.opened
  obtain rfl := h.received hparse hreceive
  have hplain : parsed.request.redirection = -1 :=
    ((unredirected_rule W).parseRequest hparse).2 h.pending
  rw [hsent]
  change (fillResponse process.world parsed file 200).2 ++
    (fillResponse process.world parsed file
      200).1.response.fileStream.content.getD [] = _
  rw [fillResponse_fileHead h.opened hplain (parseRequest_keepAlive hparse),
    (fillResponse_opened hopens parsed 200).2, hreadable]
  rfl

end Request

namespace Wired

variable {W : Type} [Os W] {wired next : Wired W}

/-- The condition on one event: its requests only read, and each `send` that it
makes fails or accepts all that it is offered. -/
def FileSends (wired : Wired W) (event : Server.Event) : Prop :=
  wired.WholeSends event ∧ wired.ReadsOnly event

/-- Among any number of other clients that only read: a client whose connection
ends with the last write has read the answer to the one buffer it has sent, and
where this has asked for a file, its head and the file, byte by byte. -/
theorem carried_file {world : W} {blocks : List ServerBlock}
    {created : List ServerConfig}
    (hnodup : ((created.filter (0 ≤ ·.fd)).map ServerConfig.fd).Nodup)
    {event : Server.Event} {client : Client} {answers : Answers}
    (h : Machine.Reachable step FileSends (initial world blocks created)
      wired) (hwhole : wired.WholeSends event)
    (hturn : wired.server.turn event = some (client, answers))
    (hfine : ¬FailedSend client answers)
    (hnext : wired.step event = .ok next)
    (hended : next.server.record client.clientId = none) :
    ∃ block ∈ blocks, ∃ bytes parsed,
      wired.heard client.clientId = [bytes] ∧
      parseRequest world (firstBuffer client.clientId block bytes) =
        .ok parsed ∧
      ∀ file content, AsksFor world parsed file content →
        next.since client.clientId =
          fileHead file content.length ++ content := by
  have hinvariant : Invariant Eq wired :=
    (h.mono fun _ _ hsends => hsends.1).invariant
      (fun _ _ _ hinvariant hwhole hnext => step_whole hinvariant hwhole hnext)
      (initial_invariant passing_eq world blocks hnodup)
  have honly := reachable_onlyRead hnodup (h.mono fun _ _ hsends => hsends.2)
  obtain ⟨hall, hsince⟩ := hinvariant.complete hwhole hturn hfine hnext hended
  obtain ⟨record, halone, hsent, hanswer⟩ := honly.provenance client.clientId
    client (Server.record_of_turn hturn)
  have hdone := hanswer hall
  rw [hsent.allRecv] at hall
  generalize wired.heard client.clientId = heard at halone
  cases halone with
  | fresh => cases hall
  | @answered block bytes _ hblock hreceive _ =>
      rcases receive_cases hreceive with
        ⟨hready, -, -⟩ | ⟨-, parsed, hparsed, -⟩
      · cases hready
      rcases parseOnce_cases hparsed with ⟨-, hparse⟩ | ⟨hindex, -⟩
      · refine ⟨block, hblock, bytes, parsed, rfl, hparse,
          fun file content hasks => ?_⟩
        rw [hsince, hdone]
        refine AsksFor.unsent hparse ?_ hreceive
        exact hasks
      · cases hindex

def fileSends (wired : Wired W) (event : Server.Event) : Prop :=
  wired.WholeSends event ∧ wired.server.readsOnly event = true

instance (wired : Wired W) (event : Server.Event) :
    Decidable (wired.fileSends event) :=
  inferInstanceAs (Decidable (_ ∧ _))

theorem fileSends_sound {event : Server.Event} (h : wired.fileSends event) :
    wired.FileSends event :=
  ⟨h.1, Server.readsOnly_sound h.1.1 h.2⟩

theorem asksFor_file {parsed : Client}
    (h : parseRequest Server.fileDisk (firstBuffer 5 {}
      Server.askForFile.received) = .ok parsed) :
    AsksFor Server.fileDisk parsed "./html/a".toList "x".toList := by
  have hfields : (parseRequest Server.fileDisk (firstBuffer 5 {}
      Server.askForFile.received)).toOption.map (fun parsed =>
        (parsed.response.readyToSend, parsed.request.method,
          parsed.request.path)) =
      some (false, "GET".toList, "./html/a".toList) := by decide +kernel
  rw [h] at hfields
  obtain ⟨hready, hrest⟩ := Prod.mk.inj (Option.some.inj hfields)
  obtain ⟨hmethod, hpath⟩ := Prod.mk.inj hrest
  have hstat : Os.stat Server.fileDisk "./html/a".toList =
      some ⟨.regular, true, true⟩ := by decide +kernel
  refine ⟨hready, hmethod, ?_, ?_, by decide +kernel⟩
  · rw [hpath]
    decide +kernel
  · rw [← hpath] at hstat ⊢
    exact .regular hstat rfl rfl

/-- The first of two clients reads the head, and the one byte of the file. -/
theorem carried_file_two :
    ∃ next : Wired Disk, next.server.fds = [3, 6] ∧
      next.since 5 = fileHead "./html/a".toList 1 ++ "x".toList := by
  have hstate : (Machine.replay step fileSends listening
      Server.twoClients).map (fun wired => (wired.heard 5,
        lastTurn wired lastWrite,
        (Machine.replay step fileSends wired [lastWrite]).map fun next =>
          (next.server.fds, (next.server.record 5).isNone))) =
        some ([Server.askForFile.received], some (5, true),
          some ([3, 6], true)) := by
    decide +kernel
  obtain ⟨wired, hwired, hfields⟩ := Option.map_eq_some_iff.mp hstate
  obtain ⟨hheard, hfields⟩ := Prod.mk.inj hfields
  obtain ⟨next, client, answers, hlast, hfds, hsends⟩ :=
    lastWrite_of_replay hfields
  have hreached : Machine.Reachable step FileSends listening wired :=
    (Machine.reachable_of_replay .start hwired).mono
      fun _ _ hchecked => fileSends_sound hchecked
  obtain ⟨block, hblock, bytes, parsed, hbytes, hparse, hfile⟩ :=
    carried_file listening_nodup hreached hsends.1 hlast.turn hlast.fine
      hlast.step hlast.ended
  rw [hlast.clientId] at hbytes hparse hfile
  have hblock : block = {} := List.mem_singleton.mp hblock
  have hsame : bytes = Server.askForFile.received :=
    List.singleton_inj.mp (hbytes.symm.trans hheard)
  subst hblock hsame
  have hread := hfile _ _ (asksFor_file hparse)
  have hlength : "x".toList.length = 1 := rfl
  rw [hlength] at hread
  exact ⟨next, hfds, hread⟩

end Wired

end Webserv
