import Webserv.Record
import Webserv.LoopRefinement
import Webserv.PlainUpload

namespace Webserv

open Cxx Files

/-! Runs. -/

namespace Session

variable {W : Type} [Os W]

/-- The record is right about the file, whichever stream is written to next. -/
structure Sound (path : Str) (start : Option Str) (session : Session W) :
    Prop where
  attested : Attested path start session.process
  part : Held path start session.process .part session.process.part.file
  uploads : ∀ fd client, session.clients fd = some client →
    Held path start session.process (.upload fd) client.request.file

variable {path : Str} {start : Option Str} {apart : Str → Prop}

theorem step_sound (filed : Filed W path apart) {session next : Session W}
    {event : Event} (hids : OwnIds session)
    (h : Separate path apart session.process → Sound path start session)
    (hnext : step session event = .ok next)
    (hseparate : Separate path apart next.process) :
    Sound path start next := by
  cases event with
  | connect fd block =>
      obtain rfl := Except.ok.inj hnext
      obtain ⟨hattested, hpart, huploads⟩ := h hseparate
      refine ⟨hattested, hpart, fun other client hclient => ?_⟩
      by_cases hfd : other = fd
      · subst hfd
        obtain rfl : Client.connect other block = client := by
          simpa [setClient] using hclient
        exact held_of_closed rfl
      · exact huploads other client (by simpa [setClient, hfd] using hclient)
  | close fd =>
      obtain rfl := Except.ok.inj hnext
      obtain ⟨hattested, hpart, huploads⟩ := h hseparate
      refine ⟨hattested, hpart, fun other client hclient => ?_⟩
      by_cases hfd : other = fd
      · subst hfd
        simp [setClient] at hclient
      · exact huploads other client (by simpa [setClient, hfd] using hclient)
  | receive fd bytes =>
      rw [step] at hnext
      split at hnext
      · obtain rfl := Except.ok.inj hnext
        exact h hseparate
      rename_i client hclient
      split at hnext
      · cases hnext
      rename_i process' client' hhandled
      obtain rfl := Except.ok.inj hnext
      have htells : Tells path start apart (session.process, client)
          (process', client') := (tells_rule filed).receive hhandled
      have hid : client.clientId = fd := hids fd client hclient
      obtain ⟨hattested, hpart, huploads⟩ :=
        h (hseparate.earlier htells.grown)
      have hafter := htells.sound hseparate
        ⟨hattested, hpart, by
          change Held path start _ (.upload client.clientId) _
          rw [hid]
          exact huploads fd client hclient⟩
      refine ⟨hafter.attested, hafter.part, fun other record hrecord => ?_⟩
      by_cases hfd : other = fd
      · subst hfd
        obtain rfl : client' = record := by simpa using hrecord
        have hupload := hafter.upload
        change Held path start process' (.upload client'.clientId) _ at hupload
        rwa [htells.clientId.trans hid] at hupload
      · exact htells.others hseparate other _ (by rwa [hid])
          (huploads other record (by simpa [hfd] using hrecord))

theorem step_ownIds {session next : Session W} {event : Event}
    (h : OwnIds session) (hnext : step session event = .ok next) :
    OwnIds next := by
  refine (step_rule (fun _ => True) (fun fd client => client.clientId = fd)
    trivial h (fun _ _ _ => rfl) ?_ hnext).2
  intro fd bytes client process' client' _ hclient hhandled
  exact ⟨trivial, (receive_kept hhandled).clientId.trans
    (h fd client hclient)⟩

theorem run_attested (filed : Filed W path apart) {world : W}
    {session : Session W} {events : List Event}
    (hrun : Machine.run step (initial world) events = .ok session)
    (hseparate : Separate path apart session.process) :
    Attested path (Os.openRead world path) session.process := by
  have hstart : OwnIds (initial world) ∧
      (Separate path apart (initial world).process →
        Sound path (Os.openRead world path) (initial world)) := by
    refine ⟨by simp [OwnIds, initial], fun _ =>
      ⟨rfl, held_of_closed rfl, by simp [initial]⟩⟩
  have hstep (state : Session W) (event : Event) (next : Session W)
      (h : OwnIds state ∧ (Separate path apart state.process →
        Sound path (Os.openRead world path) state)) (_ : True)
      (hnext : step state event = .ok next) :
      OwnIds next ∧ (Separate path apart next.process →
        Sound path (Os.openRead world path) next) :=
    ⟨step_ownIds h.1 hnext, step_sound filed h.1 h.2 hnext⟩
  have hinvariant := Machine.run_invariant hstep hstart
    (Machine.meets_true step (initial world) events) hrun
  exact (hinvariant.2 hseparate).attested

end Session

/-! The files of one connection. -/

namespace Server

variable {W : Type} [Os W] {server : Server W} {world : W}
  {blocks : List ServerBlock} {created : List ServerConfig}

theorem reached_attested
    (hnodup : ((created.filter (0 ≤ ·.fd)).map ServerConfig.fd).Nodup)
    (h : Machine.Reachable step Permitted
      (initializeServers world blocks created) server)
    {path : Str} {apart : Str → Prop} (filed : Filed W path apart)
    (hseparate : Separate path apart server.process) :
    Attested path (Os.openRead world path) server.process := by
  have hreached : Machine.Reachable step (Handing fun _ _ => True)
      (initializeServers world blocks created) server :=
    h.mono fun _ _ hpermitted => ⟨hpermitted, fun _ _ _ _ _ => trivial⟩
  have hbuffers : OnBuffers (W := W) fun _ _ => True := fun _ _ _ => trivial
  obtain ⟨requests, session, hrun, -, hfollows, -⟩ :=
    (simulates hbuffers).reachable
        ⟨follows_initializeServers world blocks created,
          kept_initializeServers world blocks hnodup⟩ hreached
  rw [← hfollows.process] at hseparate ⊢
  exact Session.run_attested filed hrun hseparate

/-- Whatever its clients send, and in which order: what one stream has brought
into a file is what the file holds, as long as no other stream has opened it
and nothing has removed it. -/
theorem reached_stored
    (hnodup : ((created.filter (0 ≤ ·.fd)).map ServerConfig.fd).Nodup)
    (h : Machine.Reachable step Permitted
      (initializeServers world blocks created) server)
    {path : Str} {apart : Str → Prop} (filed : Filed W path apart)
    (hseparate : Separate path apart server.process)
    (hkept : JournalEntry.removed path ∉ server.process.journal)
    {writer : Writer} {bytes : Str}
    (hfile : (path, bytes) ∈ filesOf writer server.process.journal) :
    Os.openRead server.process.world path = some bytes := by
  have hattested := reached_attested hnodup h filed hseparate
  unfold Attested at hattested
  rw [hattested]
  exact content_of_mem_filesOf hseparate.once hkept hfile _

end Server

/-! The files of a disk. -/

namespace Disk

/-- A path that ends elsewhere, and at no directory on the way of another. -/
def Elsewhere (path other : Str) : Prop :=
  Lexical.resolve other ≠ Lexical.resolve path ∧
    ∀ parts ∈ (Lexical.components path).inits.dropLast,
      (Lexical.isAbsolute path,
        Lexical.walk (Lexical.isAbsolute path) (0, []) parts) ≠
          Lexical.resolve other

instance (path other : Str) : Decidable (Elsewhere path other) :=
  inferInstanceAs (Decidable (_ ∧ _))

theorem openRead_congr {disk disk' : Disk} {path : Str}
    (hpassable : disk'.passable path = disk.passable path)
    (hnode : disk'.node? (Lexical.resolve path) =
      disk.node? (Lexical.resolve path)) :
    disk'.openRead path = disk.openRead path := by
  unfold openRead find?
  rw [hpassable, hnode]

theorem passable_setNode {disk : Disk} {place : Place}
    (hplace : disk.node? place ≠ some .directory) (content path : Str) :
    (disk.setNode place (.file content)).passable path =
      disk.passable path := by
  unfold passable
  refine congrArg _ (funext fun parts => ?_)
  rw [decide_eq_decide]
  generalize ((Lexical.isAbsolute path, Lexical.walk _ (0, []) parts) : Place)
    = other
  by_cases hroot : other.2.2 = []
  · rw [node?, node?, if_pos hroot, if_pos hroot]
  · rw [node?_setNode _ _ _ hroot]
    split
    · rename_i hsame
      subst hsame
      simp [hplace]
    · rfl

theorem openRead_setNode {disk : Disk} {place : Place} {path : Str}
    (hplace : disk.node? place ≠ some .directory)
    (hother : place ≠ Lexical.resolve path) (content : Str) :
    (disk.setNode place (.file content)).openRead path =
      disk.openRead path := by
  apply openRead_congr (passable_setNode hplace content path)
  by_cases hroot : (Lexical.resolve path).2.2 = []
  · rw [node?, node?, if_pos hroot, if_pos hroot]
  · rw [node?_setNode _ _ _ hroot, if_neg hother.symm]

theorem openRead_of_passable {disk : Disk} {path content : Str}
    (hne : path ≠ []) (hpassable : disk.passable path = true)
    (hnode : disk.node? (Lexical.resolve path) = some (.file content)) :
    disk.openRead path = some content := by
  unfold openRead find?
  rw [if_pos ⟨hne, hpassable⟩, hnode]

theorem openRead_of_not_passable {disk : Disk} {path : Str}
    (h : ¬(path ≠ [] ∧ disk.passable path = true)) :
    disk.openRead path = none := by
  unfold openRead find?
  rw [if_neg h]

theorem openWrite_cases {disk next : Disk} {path : Str}
    (h : disk.openWrite path = some next) :
    path ≠ [] ∧ disk.passable path = true ∧
      disk.node? (Lexical.resolve path) ≠ some .directory ∧
      next = disk.setNode (Lexical.resolve path) (.file []) := by
  unfold openWrite at h
  split at h
  · cases h
  rename_i hpath
  rw [not_or] at hpath
  refine ⟨hpath.1, by simpa using hpath.2, ?_⟩
  split at h
  · cases h
  · rename_i hnode
    exact ⟨hnode, (Option.some.inj h).symm⟩

theorem below_of_not_directory {disk : Disk} {place : Place}
    (h : disk.node? place ≠ some .directory) : place.2.2 ≠ [] := by
  intro hroot
  exact h (by rw [node?, if_pos hroot])

theorem remove_cases {disk next : Disk} {path : Str}
    (h : disk.remove path = some next) :
    (Lexical.resolve path).2.2 ≠ [] ∧
      next = ⟨disk.nodes.filter (·.1 ≠ Lexical.resolve path)⟩ := by
  unfold remove at h
  simp only at h
  split at h
  · cases h
  · rename_i hpath
    rw [not_or, not_or] at hpath
    exact ⟨hpath.2.1, (Option.some.inj h).symm⟩

theorem node?_without (disk : Disk) (place : Place) {other : Place}
    (hother : other.2.2 ≠ []) :
    (⟨disk.nodes.filter (·.1 ≠ place)⟩ : Disk).node? other =
      if other = place then none else disk.node? other := by
  unfold node?
  rw [if_neg hother, if_neg hother]
  simp only
  induction disk.nodes with
  | nil => simp
  | cons entry rest ih =>
      by_cases hentry : entry.1 = place
      · rw [List.filter_cons_of_neg (by simpa using hentry), ih]
        split
        · rfl
        · rename_i hne
          rw [List.lookup_cons, beq_false_of_ne (by rwa [hentry])]
      · rw [List.filter_cons_of_pos (by simpa using hentry),
          List.lookup_cons, List.lookup_cons, ih]
        by_cases hsame : other = entry.1
        · subst hsame
          rw [if_neg hentry, if_neg hentry]
        · rw [beq_false_of_ne hsame]

theorem openRead_write (disk : Disk) (path bytes : Str) :
    (disk.write path bytes).1.openRead path =
      (disk.openRead path).map
        (· ++ bytes.take (disk.write path bytes).2) := by
  unfold write
  split
  · rename_i content hnode
    have hplace : disk.node? (Lexical.resolve path) ≠ some .directory := by
      simp [hnode]
    have hpassable := passable_setNode hplace (content ++ bytes) path
    simp only [List.take_length]
    by_cases hreached : path ≠ [] ∧ disk.passable path = true
    · rw [openRead_of_passable hreached.1 hreached.2 hnode]
      apply openRead_of_passable hreached.1 (hpassable.trans hreached.2)
      exact node?_setNode_self _ (below_of_file hnode) _
    · rw [openRead_of_not_passable hreached]
      apply openRead_of_not_passable
      rwa [hpassable]
  · rename_i hnode
    have hnone : disk.openRead path = none := by
      unfold openRead find?
      split
      · rename_i content hfound
        split at hfound
        · exact absurd hfound (hnode content)
        · cases hfound
      · rfl
    rw [hnone]
    rfl

theorem filed (path : Str) : Filed Disk path (Elsewhere path) where
  opened {disk next} hopen := by
    obtain ⟨hne, hpassable, hplace, rfl⟩ := openWrite_cases hopen
    apply openRead_of_passable hne
    · rw [passable_setNode hplace]
      exact hpassable
    · exact node?_setNode_self _ (below_of_not_directory hplace) _
  written disk bytes := openRead_write disk path bytes
  removed {disk next} hremove := by
    obtain ⟨hbelow, rfl⟩ := remove_cases hremove
    change openRead _ path = none
    unfold openRead find?
    rw [node?_without _ _ hbelow, if_pos rfl]
    split
    · rename_i content hfound
      split at hfound
      · cases hfound
      · cases hfound
    · rfl
  openApart {disk next other} hother hopen := by
    obtain ⟨-, -, hplace, rfl⟩ := openWrite_cases hopen
    exact openRead_setNode hplace hother.1 []
  writeApart disk other bytes hother := by
    change (disk.write other bytes).1.openRead path = disk.openRead path
    unfold write
    split
    · rename_i content hnode
      exact openRead_setNode (by simp [hnode]) hother.1 _
    · rfl
  removeApart {disk next other} hother hremove := by
    obtain ⟨-, rfl⟩ := remove_cases hremove
    obtain ⟨hend, hway⟩ := hother
    have hkept (place : Place) (hplace : place ≠ Lexical.resolve other) :
        (⟨disk.nodes.filter (·.1 ≠ Lexical.resolve other)⟩ : Disk).node?
          place = disk.node? place := by
      by_cases hroot : place.2.2 = []
      · rw [node?, node?, if_pos hroot, if_pos hroot]
      · rw [node?_without _ _ hroot, if_neg hplace]
    refine openRead_congr ?_ (hkept _ hend.symm)
    unfold passable
    rw [Bool.eq_iff_iff, List.all_eq_true, List.all_eq_true]
    refine forall₂_congr fun parts hparts => ?_
    rw [hkept _ (hway parts hparts)]

end Disk

/-! A body of two bytes in two buffers, with another connection between. -/

def storedPath : Str := "./upload/file0.plain".toList

def storedBlock : ServerBlock where
  routes := [{ uri := "/upload".toList, root := ".".toList }]

namespace Server

def storing : Server Disk :=
  initializeServers (.ofDirectories [Disk.upload]) [storedBlock]
    [{ serverBlockIndex := 0, fd := 3 }]

def storeTwo : List Event := [
  .poll fun _ => { pollIn := true },
  .visit { accepted := some 5 },
  .poll fun _ => { pollIn := true },
  .visit { received :=
    ("POST /upload HTTP/1.1\r\nContent-Type: text/plain\r\n" ++
      "Content-Length: 2\r\n\r\na").toList },
  .visit { accepted := some 6 },
  .poll fun i => { pollIn := i = 1 },
  .visit {}, .visit { received := "b".toList }, .visit {}]

def storedEffects : List Effect := [
  ⟨5, .openUpload storedPath true⟩, ⟨5, .writeUpload "a".toList⟩,
  ⟨5, .writeUpload "b".toList⟩]

theorem separate_storedEffects {process : Process Disk}
    (h : process.effects = storedEffects) :
    Separate storedPath (Disk.Elsewhere storedPath) process := by
  have hjournal : process.journal = storedEffects.filterMap Effect.entry? := by
    rw [Process.journal, h]
  refine ⟨?_, ?_, ?_, ?_⟩
  · rw [hjournal]
    decide
  · rw [hjournal]
    decide
  · rw [hjournal]
    intro other hother
    simp [storedEffects, Effect.entry?] at hother
  · rw [h]
    intro effect heffect script body
    simp only [storedEffects, List.mem_cons, List.not_mem_nil, or_false]
      at heffect
    rcases heffect with rfl | rfl | rfl
    · simp
    · simp
    · simp

theorem storing_nodup : (([({ serverBlockIndex := 0, fd := 3 } :
    ServerConfig)].filter (0 ≤ ·.fd)).map ServerConfig.fd).Nodup := by
  decide

theorem reached_stored_two :
    ∃ server : Server Disk,
      Machine.replay step Permitted storing storeTwo = some server ∧
      Os.openRead server.process.world storedPath = some "ab".toList := by
  have hstate : (Machine.replay step Permitted storing storeTwo).map
      (fun server => server.process.effects) = some storedEffects := by
    decide +kernel
  obtain ⟨server, hserver, heffects⟩ := Option.map_eq_some_iff.mp hstate
  have hjournal : server.process.journal =
      storedEffects.filterMap Effect.entry? := by
    rw [Process.journal, heffects]
  refine ⟨server, hserver, @reached_stored _ _ _ _ _ _ storing_nodup
    (Machine.reachable_of_replay .start hserver) _ _ (Disk.filed storedPath)
    (separate_storedEffects heffects) ?_ (.upload 5) _ ?_⟩
  · rw [hjournal]
    decide
  · rw [hjournal]
    decide

end Server

end Webserv
