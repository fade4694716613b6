import Webserv.Stored
import Webserv.Wire

namespace Webserv

open Cxx

/-! No upload is stored in the place of a file that is there already. -/

def Act.creates : Act → Option Str
  | .openUpload path true => some path
  | .openPart path true => some path
  | _ => none

def Act.unsettles : Act → Bool
  | .remove _ => true
  | .cgi _ _ => true
  | _ => false

/-- Whether a file is there as far as the record of acts says: nothing is known
any more when something has been removed or a script has been run. -/
def noteThere (path : Str) (there : Bool) (effect : Effect) : Bool :=
  if effect.act.unsettles then false
  else there || decide (effect.act.creates = some path)

def thereAfter (start : Bool) (path : Str) (effects : List Effect) : Bool :=
  effects.foldl (noteThere path) start

@[simp] theorem thereAfter_concat (start : Bool) (path : Str)
    (effects : List Effect) (effect : Effect) :
    thereAfter start path (effects ++ [effect]) =
      noteThere path (thereAfter start path effects) effect := by
  simp [thereAfter]

/-- No upload has opened the file while it was there. -/
inductive Spared (start : Bool) (path : Str) : List Effect → Prop
  | nil : Spared start path []
  | concat {effects : List Effect} {effect : Effect} :
      Spared start path effects →
      (effect.act = .openUpload path true →
        thereAfter start path effects = false) →
      Spared start path (effects ++ [effect])

theorem Spared.at {start : Bool} {path : Str} {effects : List Effect}
    (h : Spared start path effects) {before after : List Effect} {client : Int}
    (heffects : effects =
      before ++ ⟨client, .openUpload path true⟩ :: after) :
    thereAfter start path before = false := by
  induction h generalizing after with
  | nil => simp at heffects
  | @concat earlier effect _ hfree ih =>
      cases after using List.reverseRecOn with
      | nil =>
          obtain ⟨rfl, hlast⟩ := List.append_inj' heffects rfl
          exact hfree (by simp [(List.cons.inj hlast).1])
      | append_singleton after last =>
          rw [← List.cons_append, ← List.append_assoc] at heffects
          exact ih (List.append_inj' heffects rfl).1

section Lasting

variable {W : Type} [Os W]

variable (W) in
/-- A file that has been created is there, and it is still there when others
are created or written. -/
structure Lasting : Prop where
  opened {world next : W} {path : Str} : Os.openWrite world path = some next →
    Os.access next path .exists = true
  openKeeps {world next : W} {other : Str} (path : Str) :
    Os.openWrite world other = some next →
      Os.access world path .exists = true → Os.access next path .exists = true
  writeKeeps (world : W) (other bytes path : Str) :
    Os.access world path .exists = true →
      Os.access (Os.write world other bytes).1 path .exists = true

/-- What the record says about a file is so, and no upload has taken its
place. -/
structure Safe (start : Bool) (path : Str) (process : Process W) : Prop where
  there : thereAfter start path process.effects = true →
    Os.access process.world path .exists = true
  spared : Spared start path process.effects

def KeepsSafe (start : Bool) (path : Str) (first second : Process W × Client) :
    Prop :=
  Safe start path first.1 → Safe start path second.1

variable {start : Bool} {path : Str} {process process' : Process W}
  {client : Client} {act : Act}

theorem Safe.note (h : Safe start path process)
    (heffects : process'.effects =
      process.effects ++ [⟨client.clientId, act⟩])
    (hcreated : act.creates = some path →
      Os.access process'.world path .exists = true)
    (hkept : act.unsettles = false →
      Os.access process.world path .exists = true →
        Os.access process'.world path .exists = true)
    (hfree : act = .openUpload path true →
      Os.access process.world path .exists = false) :
    Safe start path process' := by
  constructor
  · intro hthere
    rw [heffects, thereAfter_concat, noteThere] at hthere
    split at hthere
    · cases hthere
    rename_i hsettled
    rw [Bool.or_eq_true, decide_eq_true_eq] at hthere
    cases hthere with
    | inl hwas => exact hkept (by simpa using hsettled) (h.there hwas)
    | inr hnew => exact hcreated hnew
  · rw [heffects]
    refine h.spared.concat fun hact => ?_
    by_contra hnot
    have hthere := h.there (by simpa using hnot)
    rw [hfree hact] at hthere
    cases hthere

theorem Safe.unsettle (h : Safe start path process)
    (heffects : process'.effects =
      process.effects ++ [⟨client.clientId, act⟩])
    (hact : act.unsettles = true) : Safe start path process' := by
  have hcreates : act.creates = none := by
    cases act with
    | remove other => rfl
    | cgi script body => rfl
    | openUpload other ok => cases hact
    | writeUpload bytes => cases hact
    | openPart other ok => cases hact
    | writePart bytes => cases hact
  refine h.note heffects ?_ ?_ ?_
  · rw [hcreates]
    exact fun hnone => by cases hnone
  · rw [hact]
    exact fun hfalse => by cases hfalse
  · rintro rfl
    cases hact

theorem Safe.openFile (lasting : Lasting W) (h : Safe start path process)
    (file : OFStream) (other : Str)
    (hworld : process'.world = (file.openFile process.world other).2)
    (heffects : process'.effects =
      process.effects ++ [⟨client.clientId, act⟩])
    (hcreates : act.creates =
      if (file.openFile process.world other).1.failed then none
      else some other)
    (hfree : act = .openUpload path true →
      Os.access process.world path .exists = false) :
    Safe start path process' := by
  rcases OFStream.openFile_cases file process.world other with
    ⟨-, next, hopen, hfile⟩ | hfile
  · rw [hfile] at hworld hcreates
    refine h.note heffects ?_ ?_ hfree
    · rw [hcreates, hworld]
      rintro ⟨⟩
      exact lasting.opened hopen
    · rw [hworld]
      exact fun _ hthere => lasting.openKeeps path hopen hthere
  · rw [hfile] at hworld hcreates
    refine h.note heffects ?_ ?_ hfree
    · rw [hcreates]
      rintro ⟨⟩
    · rw [hworld]
      exact fun _ hthere => hthere

theorem Safe.put (lasting : Lasting W) (h : Safe start path process)
    {file : OFStream} {bytes : Str}
    (hworld : process'.world = (file.put process.world bytes).2.1)
    (heffects : process'.effects =
      process.effects ++ [⟨client.clientId, act⟩])
    (hcreates : act.creates = none) : Safe start path process' := by
  refine h.note heffects ?_ ?_ ?_
  · rw [hcreates]
    rintro ⟨⟩
  · intro _ hthere
    rw [hworld]
    rcases (OFStream.put_cases file process.world bytes).2 with
      hput | ⟨other, -, hput⟩
    · rwa [hput]
    · rw [hput]
      exact lasting.writeKeeps process.world other bytes path hthere
  · rintro rfl
    cases hcreates

/-! What is done with a body. -/

omit [Os W] in
theorem creates_openUpload (other : Str) (failed : Bool) :
    (Act.openUpload other (!failed)).creates =
      if failed then none else some other := by
  cases failed with
  | true => rfl
  | false => rfl

omit [Os W] in
theorem creates_openPart (other : Str) (failed : Bool) :
    (Act.openPart other (!failed)).creates =
      if failed then none else some other := by
  cases failed with
  | true => rfl
  | false => rfl

theorem keepsSafe_state : StateRule (@KeepsSafe W _ start path) where
  refl _ := id
  trans hfirst hsecond := hsecond ∘ hfirst
  beside {process process' client client'} hworld heffects _ _ _ h := by
    obtain ⟨hthere, hspared⟩ := h
    constructor
    · change thereAfter start path process'.effects = true →
        Os.access process'.world path .exists = true
      rwa [hworld, heffects]
    · change Spared start path process'.effects
      rwa [heffects]

theorem keepsSafe_streams (lasting : Lasting W) :
    StreamRule W (@KeepsSafe W _ start path) where
  toStateRule := keepsSafe_state
  openUpload {process fileName} client hfree h := by
    refine Safe.openFile lasting h client.request.file fileName rfl rfl
      (creates_openUpload ..) fun hact => ?_
    obtain ⟨rfl, -⟩ := Act.openUpload.inj hact
    exact hfree
  putUpload process client h := Safe.put lasting h rfl rfl rfl
  closeUpload _ _ h := h
  openPart process client filename h :=
    Safe.openFile lasting h process.part.file.close filename rfl rfl
      (creates_openPart ..) fun hact => by cases hact
  putPart process client bytes h := Safe.put lasting h rfl rfl rfl
  closePart _ _ h := ⟨h.there, h.spared⟩

theorem keepsSafe_rule (lasting : Lasting W) :
    HandlerRule W (@KeepsSafe W _ start path) where
  streams := keepsSafe_streams lasting
  removal := {
    toStateRule := keepsSafe_state
    remove := fun client _ h => h.unsettle rfl rfl }
  scripts sn := {
    toStateRule := keepsSafe_state
    script := fun process client body h => by
      obtain ⟨world, hprocess⟩ := (cgiHandler_run process client body sn).process
      rw [hprocess]
      exact Safe.unsettle h rfl rfl }

end Lasting

/-! Runs of the event loop. -/

namespace Server

variable {W : Type} [Os W] {server next : Server W} {world : W}
  {blocks : List ServerBlock} {created : List ServerConfig}

/-- Whatever its clients send, and in which order: no upload is stored in the
place of a file that is there, whether it was there from the beginning or an
upload has created it, unless something has been removed or a script has been
run before. -/
theorem reached_spared (lasting : Lasting W)
    (hnodup : ((created.filter (0 ≤ ·.fd)).map ServerConfig.fd).Nodup)
    (h : Machine.Reachable step Permitted
      (initializeServers world blocks created) server)
    {before after : List Effect} {fd : Int} {path : Str}
    (heffects : server.process.effects =
      before ++ ⟨fd, .openUpload path true⟩ :: after) :
    thereAfter (Os.access world path .exists) path before = false := by
  have hstart : Kept (initializeServers world blocks created) ∧
      Safe (Os.access world path .exists) path
        (initializeServers world blocks created).process :=
    ⟨kept_initializeServers world blocks hnodup, fun hthere => hthere, .nil⟩
  have hstep (state : Server W) (event : Event) (next : Server W)
      (hstate : Kept state ∧
        Safe (Os.access world path .exists) path state.process)
      (hpermitted : Permitted state event)
      (hnext : state.step event = .ok next) :
      Kept next ∧ Safe (Os.access world path .exists) path next.process := by
    refine ⟨hstate.1.step hpermitted hnext, ?_⟩
    rcases step_process hstate.1 hnext with
      hsame | ⟨fd, bytes, client, client', -, -, -, hreceive⟩
    · rw [hsame]
      exact hstate.2
    · exact (keepsSafe_rule lasting).receive hreceive hstate.2
  exact (h.invariant hstep hstart).2.spared.at heffects

end Server

namespace Disk

theorem find?_isSome_setNode {disk : Disk} {place : Place} {path : Str}
    (hplace : disk.node? place ≠ some .directory) (content : Str)
    (h : (disk.find? path).isSome = true) :
    ((disk.setNode place (.file content)).find? path).isSome = true := by
  unfold find? at h ⊢
  split at h
  · rename_i hpath
    rw [if_pos ⟨hpath.1, (passable_setNode hplace content path).trans hpath.2⟩]
    by_cases hroot : (Lexical.resolve path).2.2 = []
    · rw [node?, if_pos hroot]
      rfl
    · rw [node?_setNode _ _ _ hroot]
      split
      · rfl
      · exact h
  · cases h

theorem lasting : Lasting Disk where
  opened {disk next path} hopen := by
    obtain ⟨hne, hpassable, hplace, rfl⟩ := openWrite_cases hopen
    have hpassable' := (passable_setNode hplace [] path).trans hpassable
    change (find? _ path).isSome = true
    unfold find?
    rw [if_pos ⟨hne, hpassable'⟩,
      node?_setNode_self _ (below_of_not_directory hplace)]
    rfl
  openKeeps {disk next other} path hopen hthere := by
    obtain ⟨-, -, hplace, rfl⟩ := openWrite_cases hopen
    exact find?_isSome_setNode hplace [] hthere
  writeKeeps disk other bytes path hthere := by
    change ((disk.write other bytes).1.find? path).isSome = true
    unfold write
    split
    · rename_i content hnode
      exact find?_isSome_setNode (by simp [hnode]) _ hthere
    · exact hthere

end Disk

/-! A second upload takes the next name. -/

def secondPath : Str := "./upload/file1.plain".toList

namespace Server

def storeBoth : List Event := storeTwo ++ [
  .poll fun i => { pollIn := i = 2 },
  .visit { received :=
    ("POST /upload HTTP/1.1\r\nContent-Type: text/plain\r\n" ++
      "Content-Length: 1\r\n\r\nc").toList }]

theorem reached_spared_second :
    ∃ server : Server Disk,
      Machine.replay step Permitted storing storeBoth = some server ∧
      server.process.effects = storedEffects ++
        [⟨6, .openUpload secondPath true⟩, ⟨6, .writeUpload "c".toList⟩] ∧
      thereAfter (Os.access (Disk.ofDirectories [Disk.upload]) secondPath
        .exists) secondPath storedEffects = false := by
  have hstate : (Machine.replay step Permitted storing storeBoth).map
      (fun server => server.process.effects) = some (storedEffects ++
        [⟨6, .openUpload secondPath true⟩,
          ⟨6, .writeUpload "c".toList⟩]) := by
    decide +kernel
  obtain ⟨server, hserver, heffects⟩ := Option.map_eq_some_iff.mp hstate
  exact ⟨server, hserver, heffects, reached_spared Disk.lasting
    storing_nodup (Machine.reachable_of_replay .start hserver) heffects⟩

end Server

end Webserv
