import Webserv.HandlerRules
import Webserv.CgiBody
import Webserv.Files.Journal

namespace Webserv

open Cxx Files

/-! What the record of acts says about the files of the outside world: the bytes
that it has brought into a file are the bytes that are read from it. -/

/-- A stream that files are written with: the one in the request on a
descriptor, or the static one. -/
inductive Writer
  | upload (fd : Int)
  | part
  deriving DecidableEq, Repr

/-- What an act does to files. -/
def Effect.entry? (effect : Effect) : Option (JournalEntry Writer Str Char) :=
  match effect.act with
  | .openUpload path true => some (.opened (.upload effect.client) path)
  | .writeUpload bytes => some (.written (.upload effect.client) bytes)
  | .openPart path true => some (.opened .part path)
  | .writePart bytes => some (.written .part bytes)
  | .remove path => some (.removed path)
  | _ => none

section Journal

variable {W : Type}

def Process.journal (process : Process W) : List (JournalEntry Writer Str Char) :=
  process.effects.filterMap Effect.entry?

theorem Process.journal_of_effects {process process' : Process W}
    {effects : List Effect}
    (h : process'.effects = process.effects ++ effects) :
    process'.journal =
      process.journal ++ effects.filterMap Effect.entry? := by
  rw [journal, h, List.filterMap_append]
  rfl

/-- What the record says about one file, from what it held before. -/
def Process.ledger (process : Process W) (path : Str)
    (start : Option Str) : Ledger Writer Char :=
  Ledger.replay path { content := start } process.journal

theorem Process.ledger_append {process process' : Process W}
    {entries : List (JournalEntry Writer Str Char)}
    (h : process'.journal = process.journal ++ entries) (path : Str)
    (start : Option Str) :
    process'.ledger path start =
      (process.ledger path start).replay path entries := by
  rw [ledger, h, Ledger.replay_append]
  rfl

/-- No script has been run, the file has been opened once at most, and every
other path that has been opened or removed is apart from it. -/
structure Separate (path : Str) (apart : Str → Prop)
    (process : Process W) : Prop where
  once : OpenedOnce path process.journal
  opened : ∀ other ∈ openings process.journal, other = path ∨ apart other
  removed : ∀ other, JournalEntry.removed other ∈ process.journal →
    other = path ∨ apart other
  noScript : ∀ effect ∈ process.effects, ∀ script body,
    effect.act ≠ .cgi script body

theorem Separate.earlier {path : Str} {apart : Str → Prop}
    {process process' : Process W} (h : Separate path apart process')
    (hgrown : process.effects <+: process'.effects) :
    Separate path apart process := by
  obtain ⟨later, heffects⟩ := hgrown
  have hjournal := Process.journal_of_effects heffects.symm
  have hopenings : openings process'.journal = openings process.journal ++
      openings (later.filterMap Effect.entry?) := by
    rw [hjournal, openings_append]
  constructor
  · have honce := h.once
    rw [hjournal] at honce
    exact honce.earlier
  · intro other hother
    exact h.opened other (by simp [hopenings, hother])
  · intro other hother
    exact h.removed other (by simp [hjournal, hother])
  · intro effect heffect
    exact h.noScript effect (by simp [← heffects, heffect])

end Journal

/-- A file with one name, in a world whose calls on the paths apart from it
leave it alone. -/
structure Filed (W : Type) [Os W] (path : Str) (apart : Str → Prop) :
    Prop where
  opened {world next : W} : Os.openWrite world path = some next →
    Os.openRead next path = some []
  written (world : W) (bytes : Str) :
    Os.openRead (Os.write world path bytes).1 path =
      (Os.openRead world path).map
        (· ++ bytes.take (Os.write world path bytes).2)
  removed {world next : W} : Os.remove world path = some next →
    Os.openRead next path = none
  openApart {world next : W} {other : Str} : apart other →
    Os.openWrite world other = some next →
      Os.openRead next path = Os.openRead world path
  writeApart (world : W) {other : Str} (bytes : Str) : apart other →
    Os.openRead (Os.write world other bytes).1 path = Os.openRead world path
  removeApart {world next : W} {other : Str} : apart other →
    Os.remove world other = some next →
      Os.openRead next path = Os.openRead world path

section Attested

variable {W : Type}

/-- A stream that is open writes to a path that the record has opened, and it
is the writer of the file exactly if this is its path. -/
def Held (path : Str) (start : Option Str) (process : Process W)
    (writer : Writer) (file : OFStream) : Prop :=
  ∀ other, file.path = some other →
    other ∈ openings process.journal ∧
      ((process.ledger path start).writer = some writer ↔ other = path)

theorem held_of_closed {path : Str} {start : Option Str}
    {process : Process W} {writer : Writer} {file : OFStream}
    (h : file.path = none) : Held path start process writer file := by
  intro other hother
  rw [h] at hother
  cases hother

variable {path : Str} {start : Option Str} {process process' : Process W}
  {writer : Writer} {file : OFStream}

theorem Held.of_journal (h : Held path start process writer file)
    {file' : OFStream} (hjournal : process'.journal = process.journal)
    (hpath : ∀ other, file'.path = some other → file.path = some other) :
    Held path start process' writer file' := by
  intro other hother
  rw [Process.ledger, hjournal]
  exact h other (hpath other hother)

/-- Nothing but an opening of its own makes a stream the writer of a file. -/
theorem Held.note (h : Held path start process writer file)
    {entry : JournalEntry Writer Str Char}
    (hjournal : process'.journal = process.journal ++ [entry])
    (hentry : ∀ other, entry ≠ .opened writer other)
    (honce : OpenedOnce path process'.journal) :
    Held path start process' writer file := by
  intro other hother
  obtain ⟨hopened, hwriter⟩ := h other hother
  have hledger : process'.ledger path start =
      (process.ledger path start).note path entry :=
    Process.ledger_append hjournal path start
  have hopenings : openings process'.journal =
      openings process.journal ++ openings [entry] := by
    rw [hjournal, openings_append]
  refine ⟨by simp [hopenings, hopened], ?_⟩
  rw [hledger]
  cases entry with
  | opened another new =>
      have hne : writer ≠ another := by
        rintro rfl
        exact hentry new rfl
      change ((process.ledger path start).opened another
        (new = path)).writer = _ ↔ _
      rw [Ledger.opened_writer_of_ne _ hne, ← hwriter]
      refine and_iff_right_of_imp fun hmine => ?_
      have hhere := hwriter.mp hmine
      subst hhere
      -- the file would have been opened twice
      rw [decide_eq_false_iff_not]
      rintro rfl
      rw [hjournal] at honce
      exact honce.around.1 hopened
  | written another bytes =>
      change ((process.ledger path start).written another bytes).writer = _ ↔ _
      rw [Ledger.written_writer]
      exact hwriter
  | removed gone =>
      change (if gone = path then { process.ledger path start with
        content := none } else process.ledger path start).writer = _ ↔ _
      split
      · exact hwriter
      · exact hwriter

variable [Os W]

/-- The file is what the record says. -/
def Attested (path : Str) (start : Option Str) (process : Process W) : Prop :=
  Os.openRead process.world path = (process.ledger path start).content

variable {apart : Str → Prop} (filed : Filed W path apart)

include filed

theorem Attested.open (h : Attested path start process) {other : Str}
    (hother : other = path ∨ apart other)
    (hopen : Os.openWrite process.world other = some process'.world)
    (hjournal : process'.journal =
      process.journal ++ [.opened writer other]) :
    Attested path start process' := by
  have hledger : process'.ledger path start =
      (process.ledger path start).opened writer (other = path) :=
    Process.ledger_append hjournal path start
  unfold Attested at h ⊢
  rw [hledger]
  unfold Ledger.opened
  by_cases hhere : other = path
  · subst hhere
    rw [filed.opened hopen]
    simp
  · rw [filed.openApart (hother.resolve_left hhere) hopen, h]
    rw [if_neg (by simpa using hhere)]
    split
    · rfl
    · rfl

theorem Attested.write (h : Attested path start process)
    (hheld : Held path start process writer file) {other bytes : Str}
    (hpath : file.path = some other) (hother : other = path ∨ apart other)
    (hworld : process'.world = (Os.write process.world other bytes).1)
    (hjournal : process'.journal = process.journal ++
      [.written writer
        (bytes.take (Os.write process.world other bytes).2)]) :
    Attested path start process' := by
  obtain ⟨-, hwriter⟩ := hheld other hpath
  have hledger : process'.ledger path start =
      (process.ledger path start).written writer
        (bytes.take (Os.write process.world other bytes).2) :=
    Process.ledger_append hjournal path start
  unfold Attested at h ⊢
  rw [hledger, hworld]
  unfold Ledger.written
  by_cases hhere : other = path
  · rw [if_pos (hwriter.mpr hhere)]
    subst hhere
    rw [filed.written, h]
  · rw [if_neg (fun hmine => hhere (hwriter.mp hmine)),
      filed.writeApart _ _ (hother.resolve_left hhere), h]

theorem Attested.remove (h : Attested path start process) {other : Str}
    (hother : other = path ∨ apart other)
    (hremove : Os.remove process.world other = some process'.world)
    (hjournal : process'.journal = process.journal ++ [.removed other]) :
    Attested path start process' := by
  have hledger : process'.ledger path start =
      (process.ledger path start).note path (.removed other) :=
    Process.ledger_append hjournal path start
  unfold Attested at h ⊢
  rw [hledger]
  change _ = (if other = path then { process.ledger path start with
    content := none } else process.ledger path start).content
  by_cases hhere : other = path
  · subst hhere
    rw [filed.removed hremove]
    simp
  · rw [filed.removeApart (hother.resolve_left hhere) hremove, h]
    simp [hhere]

end Attested

/-! Streams. -/

theorem OFStream.openFile_cases {W : Type} [Os W] (file : OFStream)
    (world : W) (path : Str) :
    (file.path = none ∧ ∃ next, Os.openWrite world path = some next ∧
        file.openFile world path = (⟨some path, false⟩, next)) ∨
      file.openFile world path = ({ file with failed := true }, world) := by
  unfold OFStream.openFile OFStream.isOpen
  cases hpath : file.path with
  | some other => exact .inr rfl
  | none =>
      cases hopen : Os.openWrite world path with
      | none => exact .inr rfl
      | some next => exact .inl ⟨rfl, next, rfl, rfl⟩

theorem OFStream.put_cases {W : Type} [Os W] (file : OFStream) (world : W)
    (bytes : Str) :
    (file.put world bytes).1.path = file.path ∧
      ((file.put world bytes).2 = (world, []) ∨
        ∃ path, file.path = some path ∧ (file.put world bytes).2 =
          ((Os.write world path bytes).1,
            bytes.take (Os.write world path bytes).2)) := by
  unfold OFStream.put
  cases hpath : file.path with
  | none => exact ⟨rfl, .inl rfl⟩
  | some path =>
      simp only
      split
      · exact ⟨hpath, .inl rfl⟩
      · exact ⟨rfl, .inr ⟨path, rfl, rfl⟩⟩

section Tells

variable {W : Type} [Os W]

omit [Os W] in
theorem Process.journal_log {process process' : Process W}
    (h : process'.effects = process.effects) (client : Client) (act : Act) :
    (process'.log client act).journal = process.journal ++
      (Effect.entry? ⟨client.clientId, act⟩).toList := by
  have heffects : (process'.log client act).effects =
      process.effects ++ [⟨client.clientId, act⟩] := by
    rw [← h]
    rfl
  rw [Process.journal_of_effects heffects]
  simp only [List.filterMap_cons, List.filterMap_nil]
  cases Effect.entry? ⟨client.clientId, act⟩ with
  | none => rfl
  | some entry => rfl

/-- A process and a record, about which the record of acts is right. -/
structure Sound (path : Str) (start : Option Str)
    (state : Process W × Client) : Prop where
  attested : Attested path start state.1
  part : Held path start state.1 .part state.1.part.file
  upload : Held path start state.1 (.upload state.2.clientId)
    state.2.request.file

/-- What is done for one client leaves the record right, also for the streams
of the others. -/
structure Tells (path : Str) (start : Option Str) (apart : Str → Prop)
    (first second : Process W × Client) : Prop where
  clientId : second.2.clientId = first.2.clientId
  grown : first.1.effects <+: second.1.effects
  sound : Separate path apart second.1 → Sound path start first →
    Sound path start second
  others : Separate path apart second.1 → ∀ fd file,
    fd ≠ first.2.clientId → Held path start first.1 (.upload fd) file →
      Held path start second.1 (.upload fd) file

variable {path : Str} {start : Option Str} {apart : Str → Prop}
  {process process' : Process W} {client client' : Client}

theorem Tells.trans {first second third : Process W × Client}
    (hfirst : Tells path start apart first second)
    (hsecond : Tells path start apart second third) :
    Tells path start apart first third := by
  refine ⟨hsecond.clientId.trans hfirst.clientId,
    hfirst.grown.trans hsecond.grown, fun hseparate hsound => ?_,
    fun hseparate fd file hfd hheld => ?_⟩
  · exact hsecond.sound hseparate
      (hfirst.sound (hseparate.earlier hsecond.grown) hsound)
  · exact hsecond.others hseparate fd file (by rwa [hfirst.clientId])
      (hfirst.others (hseparate.earlier hsecond.grown) fd file hfd hheld)

theorem Tells.beside (hworld : process'.world = process.world)
    (hjournal : process'.journal = process.journal)
    (hgrown : process.effects <+: process'.effects)
    (hpart : ∀ other, process'.part.file.path = some other →
      process.part.file.path = some other)
    (hfile : ∀ other, client'.request.file.path = some other →
      client.request.file.path = some other)
    (hid : client'.clientId = client.clientId) :
    Tells path start apart (process, client) (process', client') := by
  refine ⟨hid, hgrown, fun _ hsound => ⟨?_, ?_, ?_⟩,
    fun _ fd file _ hheld => hheld.of_journal hjournal fun _ => id⟩
  · have hattested := hsound.attested
    unfold Attested Process.ledger at hattested ⊢
    rw [hworld, hjournal]
    exact hattested
  · exact hsound.part.of_journal hjournal hpart
  · change Held path start process' (.upload client'.clientId) _
    rw [hid]
    exact hsound.upload.of_journal hjournal hfile

omit [Os W] in
theorem Held.of_path {writer : Writer} {file file' : OFStream}
    (h : Held path start process writer file) (hpath : file'.path = file.path) :
    Held path start process writer file' := by
  intro other hother
  rw [hpath] at hother
  exact h other hother

theorem Tells.note {entry : JournalEntry Writer Str Char}
    (hjournal : process'.journal = process.journal ++ [entry])
    (hentry : ∀ writer other, entry ≠ .opened writer other)
    (hgrown : process.effects <+: process'.effects)
    (hpart : process'.part.file.path = process.part.file.path)
    (hfile : client'.request.file.path = client.request.file.path)
    (hid : client'.clientId = client.clientId)
    (hattested : Separate path apart process' →
      Sound path start (process, client) → Attested path start process') :
    Tells path start apart (process, client) (process', client') := by
  refine ⟨hid, hgrown, fun hseparate hsound =>
    ⟨hattested hseparate hsound, ?_, ?_⟩, fun hseparate fd file _ hheld =>
      hheld.note hjournal (hentry _) hseparate.once⟩
  · have hkept := hsound.part.note hjournal (hentry _) hseparate.once
    exact hkept.of_path hpart
  · have hkept := hsound.upload.note hjournal (hentry _) hseparate.once
    change Held path start process' (.upload client'.clientId) _
    rw [hid]
    exact hkept.of_path hfile

omit [Os W] in
theorem held_opened {writer : Writer} {other : Str}
    (hjournal : process'.journal =
      process.journal ++ [.opened writer other]) :
    Held path start process' writer ⟨some other, false⟩ := by
  intro new hnew
  obtain rfl := Option.some.inj hnew
  have hledger : process'.ledger path start =
      (process.ledger path start).opened writer (other = path) :=
    Process.ledger_append hjournal path start
  constructor
  · rw [hjournal, openings, List.filterMap_append]
    simp [openedPath?]
  · rw [hledger]
    unfold Ledger.opened
    by_cases hhere : other = path
    · simp [hhere]
    · by_cases hmine : (process.ledger path start).writer = some writer
      · simp [hhere, hmine]
      · simp [hhere, hmine]

variable (filed : Filed W path apart)

include filed

theorem tells_put {writer : Writer} {file : OFStream} {bytes : Str}
    (hheld : Sound path start (process, client) →
      Held path start process writer file)
    (hworld : process'.world = (file.put process.world bytes).2.1)
    (hjournal : process'.journal = process.journal ++
      [.written writer (file.put process.world bytes).2.2])
    (hgrown : process.effects <+: process'.effects)
    (hpart : process'.part.file.path = process.part.file.path)
    (hfile : client'.request.file.path = client.request.file.path)
    (hid : client'.clientId = client.clientId) :
    Tells path start apart (process, client) (process', client') := by
  refine Tells.note hjournal (fun _ _ heq => by cases heq) hgrown hpart hfile
    hid fun hseparate hsound => ?_
  rcases (OFStream.put_cases file process.world bytes).2 with
    hnothing | ⟨other, hpath, hput⟩
  · rw [hnothing] at hworld hjournal
    have hattested := hsound.attested
    have hledger : process'.ledger path start =
        (process.ledger path start).written writer [] :=
      Process.ledger_append hjournal path start
    unfold Attested at hattested ⊢
    rw [hworld, hledger, Ledger.written_nil]
    exact hattested
  · rw [hput] at hworld hjournal
    have hopened := (hheld hsound other hpath).1
    have hother := (hseparate.earlier hgrown).opened other hopened
    exact hsound.attested.write filed (hheld hsound) hpath hother hworld hjournal

theorem tells_open {writer : Writer} {other : Str}
    (hopen : Os.openWrite process.world other = some process'.world)
    (hjournal : process'.journal =
      process.journal ++ [.opened writer other])
    (hgrown : process.effects <+: process'.effects)
    (hid : client'.clientId = client.clientId)
    (hown : writer = .upload client.clientId ∧
        client'.request.file = ⟨some other, false⟩ ∧
        process'.part.file = process.part.file ∨
      writer = .part ∧ process'.part.file = ⟨some other, false⟩ ∧
        client'.request.file = client.request.file) :
    Tells path start apart (process, client) (process', client') := by
  have hothers {fd : Int} {file : OFStream}
      (hseparate : Separate path apart process')
      (hne : Writer.upload fd ≠ writer)
      (hheld : Held path start process (.upload fd) file) :
      Held path start process' (.upload fd) file := by
    refine hheld.note hjournal (fun new heq => hne ?_) hseparate.once
    injection heq with hwriter
    exact hwriter.symm
  refine ⟨hid, hgrown, fun hseparate hsound => ⟨?_, ?_, ?_⟩,
    fun hseparate fd file hfd hheld => ?_⟩
  · refine hsound.attested.open filed (hseparate.opened other ?_) hopen hjournal
    rw [hjournal, openings, List.filterMap_append]
    simp [openedPath?]
  · change Held path start process' .part process'.part.file
    rcases hown with ⟨rfl, -, hpart⟩ | ⟨rfl, hpart, -⟩
    · rw [hpart]
      exact hsound.part.note hjournal (fun _ heq => by cases heq)
        hseparate.once
    · rw [hpart]
      exact held_opened hjournal
  · change Held path start process' (.upload client'.clientId) _
    rw [hid]
    rcases hown with ⟨rfl, hfile, -⟩ | ⟨rfl, -, hfile⟩
    · rw [hfile]
      exact held_opened hjournal
    · rw [hfile]
      exact hothers hseparate (by simp) hsound.upload
  · refine hothers hseparate ?_ hheld
    rcases hown with ⟨rfl, -⟩ | ⟨rfl, -⟩
    · simpa using hfd
    · simp

theorem tells_openUpload (process : Process W) (client : Client)
    (fileName : Str) :
    Tells path start apart (process, client)
      (openUpload process client fileName) := by
  unfold openUpload
  rcases OFStream.openFile_cases client.request.file process.world fileName
    with ⟨-, next, hopen, hstream⟩ | hstream
  · rw [hstream]
    apply tells_open filed hopen
    · exact Process.journal_log rfl client (.openUpload fileName true)
    · exact List.prefix_append _ _
    · rfl
    · exact .inl ⟨rfl, rfl, rfl⟩
  · rw [hstream]
    refine Tells.beside rfl ?_ (List.prefix_append _ _) (fun _ => id)
      (fun _ => id) rfl
    exact (Process.journal_log rfl client (.openUpload fileName false)).trans
      (List.append_nil _)

theorem tells_openPart (process : Process W) (client : Client)
    (filename : Str) :
    Tells path start apart (process, client)
      (openPart process client filename, client) := by
  unfold openPart
  rcases OFStream.openFile_cases process.part.file.close process.world filename
    with ⟨-, next, hopen, hstream⟩ | hstream
  · rw [hstream]
    apply tells_open filed hopen
    · exact Process.journal_log rfl client (.openPart filename true)
    · exact List.prefix_append _ _
    · rfl
    · exact .inr ⟨rfl, rfl, rfl⟩
  · rw [hstream]
    refine Tells.beside rfl ?_ (List.prefix_append _ _) ?_ (fun _ => id) rfl
    · exact (Process.journal_log rfl client (.openPart filename false)).trans
        (List.append_nil _)
    · intro other hother
      cases hother

omit filed in
theorem tells_state : StateRule (@Tells W _ path start apart) where
  refl state := ⟨rfl, List.prefix_refl _, fun _ => id, fun _ _ _ _ => id⟩
  trans := Tells.trans
  beside {process process' client client'} hworld heffects hpart hfile hid := by
    refine Tells.beside hworld ?_ ?_ ?_ ?_ hid
    · rw [Process.journal, heffects]
      rfl
    · rw [heffects]
    · rw [hpart]
      exact fun _ => id
    · rw [hfile]
      exact fun _ => id

theorem tells_streams : StreamRule W (Tells path start apart) where
  toStateRule := tells_state
  openUpload {process fileName} client _ :=
    tells_openUpload filed process client fileName
  putUpload process client := by
    refine @tells_put _ _ _ _ _ process _ client _ filed
      (.upload client.clientId) client.request.file client.request.sRequest
      Sound.upload rfl ?_ (List.prefix_append _ _) rfl ?_ rfl
    · exact Process.journal_log rfl client (.writeUpload _)
    · exact (OFStream.put_cases ..).1
  closeUpload process client :=
    Tells.beside rfl rfl (List.prefix_refl _) (fun _ => id)
      (fun other hother => by cases hother) rfl
  openPart := tells_openPart filed
  putPart process client bytes := by
    refine @tells_put _ _ _ _ _ process _ client _ filed .part
      process.part.file bytes Sound.part rfl ?_ (List.prefix_append _ _) ?_ rfl
      rfl
    · exact Process.journal_log rfl client (.writePart _)
    · exact (OFStream.put_cases ..).1
  closePart process client :=
    Tells.beside rfl rfl (List.prefix_refl _)
      (fun other hother => by cases hother) (fun _ => id) rfl

theorem tells_removal : RemovalRule W (Tells path start apart) where
  toStateRule := tells_state
  remove {process world removed} client hremove := by
    have hjournal : (({ process with world := world } : Process
        W).logRemoved client [removed]).journal =
          process.journal ++ [.removed removed] :=
      Process.journal_log rfl client (.remove removed)
    refine Tells.note hjournal (fun _ _ heq => by cases heq)
      (List.prefix_append _ _) rfl rfl rfl fun hseparate hsound => ?_
    refine hsound.attested.remove filed (hseparate.removed removed ?_) hremove
      hjournal
    rw [hjournal]
    simp

omit filed in
theorem tells_scripts (sn : Str) :
    ScriptRule W (Tells path start apart) sn where
  toStateRule := tells_state
  script process client body := by
    have hserved := cgiHandler_served process client body sn
    obtain ⟨acts, heffects, -⟩ := hserved.effects
    have hscript : ⟨client.clientId, .cgi sn body⟩ ∈
        (cgiHandler process client body sn).1.effects := by
      obtain ⟨world, hran⟩ := (cgiHandler_run process client body sn).process
      rw [hran]
      exact List.mem_append_right _ List.mem_cons_self
    have hnever (hseparate : Separate path apart
        (cgiHandler process client body sn).1) : False :=
      hseparate.noScript _ hscript sn body rfl
    refine ⟨hserved.clientId, ?_, fun hseparate => (hnever hseparate).elim,
      fun hseparate => (hnever hseparate).elim⟩
    rw [heffects]
    exact List.prefix_append _ _

theorem tells_rule : HandlerRule W (Tells path start apart) :=
  ⟨tells_streams filed, tells_removal filed, tells_scripts⟩

end Tells

end Webserv
