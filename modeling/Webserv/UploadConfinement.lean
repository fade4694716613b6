import Webserv.Session
import Webserv.Disk

namespace Webserv

open Cxx
open Lexical

/-! Where the files of an upload are opened. -/

def Process.acts {W : Type} (process : Process W) : List Act :=
  process.effects.map Effect.act

def openedBy {W : Type} (process process' : Process W) : List Str :=
  (openedPaths process'.acts).drop (openedPaths process.acts).length

section Opens

variable {W : Type}

def Opens (process process' : Process W) (paths : List Str) : Prop :=
  openedPaths process'.acts = openedPaths process.acts ++ paths

theorem Opens.openedBy_eq {process process' : Process W} {paths : List Str}
    (h : Opens process process' paths) : openedBy process process' = paths := by
  unfold openedBy
  rw [h, List.drop_left]

theorem Opens.of_effects {process process' : Process W}
    (h : process'.effects = process.effects) : Opens process process' [] := by
  simp [Opens, Process.acts, h]

theorem Opens.trans {first second third : Process W} {paths more : List Str}
    (h : Opens first second paths) (h' : Opens second third more) :
    Opens first third (paths ++ more) := by
  unfold Opens at *
  rw [h', h, List.append_assoc]

theorem Opens.log (process : Process W) (client : Client) (act : Act) :
    Opens process (process.log client act) (openedPaths [act]) := by
  simp [Opens, Process.acts, Process.log, openedPaths, List.filterMap_append]

end Opens

/-! A name behind the upload directory leads inside of it exactly when its own
components do not lead out. -/

/-- A text that stays inside a directory when it is put behind it and the
result is passed on as a C string. -/
def StaysInside (directory text : Str) : Prop :=
  '\x00' ∉ directory ∧ EndsInside directory (cStr text)

theorem cStr_append {front back : Str} (h : '\x00' ∉ front) :
    cStr (front ++ back) = front ++ cStr back := by
  have hall : ∀ c ∈ front, (decide (c ≠ '\x00')) = true := by
    intro c hc
    have hne : c ≠ '\x00' := fun heq => h (heq ▸ hc)
    simpa using hne
  unfold cStr
  rw [List.takeWhile_append_of_pos hall]

theorem cStr_append_of_nul {front back : Str} (h : '\x00' ∈ front) :
    cStr (front ++ back) = cStr front := by
  induction front with
  | nil => cases h
  | cons c front ih =>
      by_cases hc : c = '\x00'
      · subst hc
        simp [cStr]
      · have htail : '\x00' ∈ front := by
          rcases List.mem_cons.mp h with heq | hmem
          · exact absurd heq.symm hc
          · exact hmem
        have hrest := ih htail
        simp only [cStr, List.cons_append] at hrest ⊢
        rw [List.takeWhile_cons_of_pos (by simpa using hc),
          List.takeWhile_cons_of_pos (by simpa using hc), hrest]

theorem not_strictlyInside_self (path : Str) : ¬StrictlyInside path path := by
  rintro ⟨below, hbelow, heq⟩
  have hnames := congrArg (·.2.2) heq
  exact hbelow (List.self_eq_append_right.mp hnames)

theorem strictlyInside_opened_iff {directory : Str} (hne : directory ≠ [])
    (text : Str) :
    StrictlyInside (cStr directory) (cStr (directory ++ '/' :: text)) ↔
      StaysInside directory text := by
  unfold StaysInside
  by_cases hnul : '\x00' ∈ directory
  · -- the name is cut off with the end of the directory
    rw [cStr_append_of_nul hnul]
    exact iff_of_false (not_strictlyInside_self _) (fun h => h.1 hnul)
  · have hslash : cStr ('/' :: text) = '/' :: cStr text := by simp [cStr]
    rw [cStr_append hnul, hslash, cStr_eq_self hnul,
      strictlyInside_slash_iff hne]
    simp [hnul]

/-- A generated name starts like "file.", up to the number in it. -/
theorem generatedName_eq (index : Nat) (extension : Str) :
    ∃ front, generatedName index extension = 'f' :: front ++ extension ∧
      '/' ∉ 'f' :: front ∧ '\x00' ∉ 'f' :: front := by
  refine ⟨"ile".toList ++ decimal index ++ ".".toList, by
    simp [generatedName], ?_, ?_⟩
  · intro h
    have hdigit : '/' ∈ decimal index := by simpa using h
    exact absurd (isDigit_of_mem_decimal hdigit) (by decide)
  · intro h
    have hdigit : '\x00' ∈ decimal index := by simpa using h
    exact absurd (isDigit_of_mem_decimal hdigit) (by decide)

theorem staysInside_generatedName (directory : Str) (index : Nat)
    (extension : Str) :
    StaysInside directory (generatedName index extension) ↔
      StaysInside directory ("file.".toList ++ extension) := by
  obtain ⟨front, hname, hslash, hnul⟩ := generatedName_eq index extension
  have hfile : '\x00' ∉ "file.".toList := by decide
  unfold StaysInside
  rw [hname, cStr_append hnul, cStr_append hfile]
  obtain ⟨first, parts, hfirst, hparts, hrest⟩ :=
    components_name (by decide) hslash (cStr extension)
  obtain ⟨first', parts', hfirst', hparts', hrest'⟩ :=
    @components_name "ile.".toList 'f' (by decide) (by decide)
      (cStr extension)
  rw [← hrest'] at hrest
  subst hrest
  have hcongr : EndsInside directory ('f' :: front ++ cStr extension) ↔
      EndsInside directory ("file.".toList ++ cStr extension) :=
    endsInside_congr hparts hparts' hfirst hfirst'
  rw [hcongr]

/-! What the two upload functions open. -/

section Calls

variable {W : Type} [Os W]

theorem openUpload_opens (process : Process W) (client : Client)
    (fileName : Str) :
    Opens process (openUpload process client fileName).1 [fileName] := by
  unfold openUpload
  exact Opens.log _ client (.openUpload fileName _)

theorem putUpload_opens (process : Process W) (client : Client) :
    Opens process (putUpload process client).1 [] := by
  unfold putUpload
  exact Opens.log _ client (.writeUpload _)

omit [Os W] in
theorem finishPost_opens (process : Process W) (client : Client) :
    Opens process (finishPost process client).1 [] := by
  unfold finishPost
  split <;> exact .of_effects rfl

theorem firstPost_opens (process : Process W) (client : Client)
    (fileName : Str) :
    Opens process (firstPost process client fileName).1 [cStr fileName] := by
  unfold firstPost
  have hopened := openUpload_opens process client (cStr fileName)
  generalize openUpload process client (cStr fileName) = opened at *
  simp only
  split
  · exact hopened
  have hput := hopened.trans (putUpload_opens opened.1 opened.2)
  generalize putUpload opened.1 opened.2 = put at *
  split
  · exact hput
  · exact hput.trans (finishPost_opens (countWritten put.1 put.2) put.2)

theorem nextPost_opens (process : Process W) (client : Client) :
    Opens process (nextPost process client).1 [] := by
  unfold nextPost
  have hput := putUpload_opens process client
  generalize putUpload process client = put at *
  simp only
  split
  · exact .of_effects rfl
  split
  · exact hput
  · exact hput.trans (finishPost_opens (countWritten put.1 put.2) put.2)

theorem hanldePostRequest_opens {process process' : Process W}
    {client client' : Client}
    (h : hanldePostRequest process client = .ok (process', client')) :
    (process.post.first = 0 ∧ (getFileName process.world client).2 ≠ [] ∧
        ∃ index, Opens process process'
          [cStr ((getFileName process.world client).2 ++ '/' ::
            generatedName index (uploadExtension client.request))]) ∨
      (¬(process.post.first = 0 ∧
        (getFileName process.world client).2 ≠ []) ∧
          Opens process process' []) := by
  unfold hanldePostRequest at h
  split at h
  · rename_i hfirst
    generalize getFileName process.world client = found at *
    obtain ⟨⟨fileName, index⟩, hname, hnext⟩ := bind_ok h
    obtain ⟨rfl, -⟩ := ftGenerateFileNames_ok hname
    simp only at hnext
    split at hnext
    · rename_i hnil
      obtain ⟨rfl, -⟩ := Prod.mk.inj (Except.ok.inj hnext)
      exact .inr ⟨fun hboth => hboth.2 hnil, .of_effects rfl⟩
    · rename_i hne
      refine .inl ⟨hfirst, hne, index, ?_⟩
      have hopened := firstPost_opens { process with
        index := index
        post := { process.post with first := 10 } } found.1
        (found.2 ++ '/' :: generatedName index
          (uploadExtension client.request))
      rw [Except.ok.inj hnext] at hopened
      exact hopened
  · rename_i hfirst
    refine .inr ⟨fun hboth => hfirst hboth.1, ?_⟩
    have hopened := nextPost_opens process client
    rw [Except.ok.inj h] at hopened
    exact hopened

theorem putPart_opens (process : Process W) (client : Client) (bytes : Str) :
    Opens process (putPart process client bytes) [] := by
  unfold putPart
  exact Opens.log _ client (.writePart _)

theorem openPart_opens (process : Process W) (client : Client)
    (filename : Str) :
    Opens process (openPart process client filename) [filename] := by
  unfold openPart
  exact Opens.log _ client (.openPart filename _)

theorem createPart_opens (process : Process W) (client : Client)
    (name content : Str) :
    Opens process (createPart process client (.named name) content).1
      (if (getFileName process.world client).2 = [] then []
        else [cStr ((getFileName process.world client).2 ++ '/' :: name)]) := by
  unfold createPart
  generalize getFileName process.world client = found
  obtain ⟨client₁, dirname⟩ := found
  have hfilename : dirname ++ "/".toList ++ name = dirname ++ '/' :: name := by
    simp
  simp only [hfilename]
  by_cases hdir : dirname = []
  · rw [if_pos (.inr hdir), if_pos hdir]
    exact .of_effects rfl
  · rw [if_neg (by simp [hdir]), if_neg hdir]
    have hopened := openPart_opens process client₁
      (cStr (dirname ++ '/' :: name))
    generalize openPart process client₁ (cStr (dirname ++ '/' :: name)) =
      opened at *
    split
    · exact hopened
    split
    · exact hopened
    · exact hopened.trans (putPart_opens ..)

/-- A call of one of the two functions that open files. -/
inductive UploadCall
  /-- `hanlde_post_request`, for a plain body or one chunk. -/
  | body
  /-- `create_file`, for one piece of a multipart body. -/
  | part (buffer : Str) (flag : Nat)

def runUpload (process : Process W) (client : Client) :
    UploadCall → Except Fault (Process W × Client)
  | .body => hanldePostRequest process client
  | .part buffer flag => createFile process client buffer flag

/-- The text chosen by the client that a call puts behind the directory; a
number comes before the dot of a body's name. -/
def chosenName (process : Process W) (client : Client) :
    UploadCall → Option Str
  | .body =>
      if process.post.first = 0 then
        some ("file.".toList ++ uploadExtension client.request)
      else none
  | .part buffer flag =>
      if flag = 1 ∨ flag = 2 then none
      else
        match partHead buffer with
        | .ok (.named name) => some name
        | _ => none

theorem runUpload_opens {process process' : Process W}
    {client client' : Client} {call : UploadCall}
    (h : runUpload process client call = .ok (process', client')) :
    ((getFileName process.world client).2 ≠ [] ∧
        ∃ name, chosenName process client call = some name ∧ ∃ text,
          (StaysInside (getFileName process.world client).2 text ↔
            StaysInside (getFileName process.world client).2 name) ∧
          Opens process process'
            [cStr ((getFileName process.world client).2 ++ '/' :: text)]) ∨
      (((getFileName process.world client).2 = [] ∨
        chosenName process client call = none) ∧
          Opens process process' []) := by
  cases call with
  | body =>
      rcases hanldePostRequest_opens h with
        ⟨hfirst, hne, index, hopens⟩ | ⟨hnot, hopens⟩
      · exact .inl ⟨hne, _, by simp [chosenName, hfirst],
          generatedName index (uploadExtension client.request),
          staysInside_generatedName .., hopens⟩
      · refine .inr ⟨?_, hopens⟩
        by_cases hfirst : process.post.first = 0
        · left
          by_contra hne
          exact hnot ⟨hfirst, hne⟩
        · right
          simp [chosenName, hfirst]
  | part buffer flag =>
      rw [runUpload, createFile] at h
      rw [chosenName]
      split at h
      · rename_i hflag
        obtain ⟨rfl, -⟩ := Prod.mk.inj (Except.ok.inj h)
        exact .inr ⟨.inr (by simp [hflag]), .of_effects rfl⟩
      rename_i hclose
      split at h
      · rename_i hflag
        refine .inr ⟨.inr (by simp [hflag]), ?_⟩
        split at h
        · obtain ⟨rfl, -⟩ := Prod.mk.inj (Except.ok.inj h)
          exact putPart_opens process client buffer
        · obtain ⟨rfl, -⟩ := Prod.mk.inj (Except.ok.inj h)
          exact .of_effects rfl
      rename_i hwrite
      obtain ⟨head, hhead, h⟩ := bind_ok h
      rw [hhead, if_neg (by simp [hclose, hwrite])]
      have hprocess := congrArg Prod.fst (Except.ok.inj h)
      cases head with
      | named name =>
          have hopens := createPart_opens process client name
            (partContent buffer)
          rw [hprocess] at hopens
          by_cases hdir : (getFileName process.world client).2 = []
          · rw [if_pos hdir] at hopens
            exact .inr ⟨.inl hdir, hopens⟩
          · rw [if_neg hdir] at hopens
            exact .inl ⟨hdir, name, rfl, name, Iff.rfl, hopens⟩
      | other =>
          exact .inr ⟨.inr rfl,
            .of_effects (congrArg Process.effects hprocess.symm)⟩
      | unnamed =>
          exact .inr ⟨.inr rfl,
            .of_effects (congrArg Process.effects hprocess.symm)⟩
      | unterminated =>
          exact .inr ⟨.inr rfl,
            .of_effects (congrArg Process.effects hprocess.symm)⟩

/-- A call opens files strictly inside the upload directory only, exactly
when the text chosen by the client stays inside of it, if there is a directory
to write to and a text. -/
theorem runUpload_confined_iff {process process' : Process W}
    {client client' : Client} {call : UploadCall}
    (h : runUpload process client call = .ok (process', client')) :
    (∀ path ∈ openedBy process process',
        StrictlyInside (cStr (getFileName process.world client).2) path) ↔
      ((getFileName process.world client).2 ≠ [] →
        ∀ name, chosenName process client call = some name →
          StaysInside (getFileName process.world client).2 name) := by
  rcases runUpload_opens h with
    ⟨hne, name, hname, text, htext, hopens⟩ | ⟨hnone, hopens⟩
  · rw [hopens.openedBy_eq, List.forall_mem_singleton,
      strictlyInside_opened_iff hne, htext, hname]
    simp [hne]
  · rw [hopens.openedBy_eq]
    constructor
    · intro _ hne name hname
      rcases hnone with hnil | hnone
      · exact absurd hnil hne
      · rw [hnone] at hname
        cases hname
    · simp

end Calls

/-! An upload directory on a disk, and parts with a plain and with a climbing
file name. -/

def uploadDisk : Disk := .ofDirectories ["./upload".toList]

def uploadClient : Client := Client.connect 5 {}

def namedPart (name : Str) : Str :=
  "Content-Disposition: form-data; filename=\"".toList ++ name ++
    "\"\r\n\r\nx".toList

theorem runUpload_confined_plain :
    ∃ process' client',
      runUpload (W := Disk) { world := uploadDisk } uploadClient
        (.part (namedPart "a.txt".toList) 0) = .ok (process', client') ∧
      ((∀ path ∈ openedBy { world := uploadDisk } process',
          StrictlyInside
            (cStr (getFileName uploadDisk uploadClient).2) path) ↔
        ((getFileName uploadDisk uploadClient).2 ≠ [] →
          ∀ name, chosenName (W := Disk) { world := uploadDisk } uploadClient
              (.part (namedPart "a.txt".toList) 0) = some name →
            StaysInside (getFileName uploadDisk uploadClient).2 name)) :=
  ⟨_, _, rfl, runUpload_confined_iff rfl⟩

/-- A file name that climbs out of the directory is opened where it leads. -/
theorem runUpload_confined_fails_climbing :
    ∃ process' client',
      runUpload (W := Disk) { world := uploadDisk } uploadClient
        (.part (namedPart "../x".toList) 0) = .ok (process', client') ∧
      process'.acts =
        [.openPart "./upload/../x".toList true, .writePart "x".toList] ∧
      ¬∀ path ∈ openedBy { world := uploadDisk } process',
        StrictlyInside (cStr (getFileName uploadDisk uploadClient).2)
          path := by
  refine ⟨_, _, rfl, by decide +kernel, fun h => ?_⟩
  obtain ⟨below, -, heq⟩ := h "./upload/../x".toList (by decide +kernel)
  have hplace : resolve "./upload/../x".toList =
      (false, 0, ["x".toList]) := by decide +kernel
  have hdirectory :
      resolve (cStr (getFileName uploadDisk uploadClient).2) =
        (false, 0, ["upload".toList]) := by decide +kernel
  rw [hplace, hdirectory] at heq
  have hnames : ["x".toList] = ["upload".toList] ++ below :=
    congrArg (·.2.2) heq
  exact absurd (List.cons.inj hnames).1 (by decide)

end Webserv
