import Webserv.Cxx.Text
import Webserv.Machine.Pipe
import Mathlib.Logic.Relation

namespace Webserv

open Cxx Machine

/-! The two loops of `exec_script` and a script that copies its input, over
the two pipes between them. -/

/-- Where `exec_script` stands. -/
inductive ExecPhase
  /-- In the loop that writes the body. -/
  | writing (totalWritten : Nat)
  /-- In the loop that reads the output. -/
  | reading
  | ended
  /-- The script has been killed. -/
  | timedOut
  deriving DecidableEq, Repr

inductive Copier
  /-- What has been read and is still to be written. -/
  | copying (held : Str)
  | exited
  deriving DecidableEq, Repr

def Copier.held : Copier → Str
  | copying held => held
  | exited => []

structure Exchange (inputSize outputSize : Nat) where
  phase : ExecPhase
  inputFd : Pipe Char inputSize
  script : Copier
  fd : Pipe Char outputSize
  content : Str
  deriving DecidableEq, Repr

/-- `sizeof(buffer)`. -/
def bufferSize : Nat := 1024

/-- What one of the two processes does next.  Turns of the loops in which the
pipe is full or empty change nothing. -/
inductive ExchangeEvent
  | write (written : Nat)
  /-- The whole body is written. -/
  | closeInput
  | read (n : Nat)
  /-- The output is closed. -/
  | endOfOutput
  /-- More than `CGI_TIMEOUT` seconds have gone by. -/
  | timeout
  | scriptRead (n : Nat)
  | scriptWrite (n : Nat)
  | scriptExit
  deriving DecidableEq, Repr

namespace Exchange

variable {inputSize outputSize : Nat}

/-- Behind the `fork`; without a body there is no input to write. -/
def start (postData : Str) : Exchange inputSize outputSize where
  phase := if postData = [] then .reading else .writing 0
  inputFd := .empty
  script := .copying []
  fd := .empty
  content := []

def written (postData : Str) (state : Exchange inputSize outputSize) : Nat :=
  match state.phase with
  | .writing totalWritten => totalWritten
  | _ => postData.length

def writeStep (postData : Str) (state : Exchange inputSize outputSize)
    (written : Nat) : Option (Exchange inputSize outputSize) :=
  match state.phase with
  | .writing totalWritten =>
      if 0 < written ∧ totalWritten + written ≤ postData.length then
        (state.inputFd.put ((postData.drop totalWritten).take written)).map
          fun inputFd => { state with
            phase := .writing (totalWritten + written), inputFd := inputFd }
      else none
  | _ => none

def scriptReadStep (state : Exchange inputSize outputSize) (n : Nat) :
    Option (Exchange inputSize outputSize) :=
  if state.script = .copying [] ∧ 0 < n ∧ n ≤ state.inputFd.items.length then
    some { state with
      script := .copying (state.inputFd.items.take n)
      inputFd := state.inputFd.drop n }
  else none

def scriptWriteStep (state : Exchange inputSize outputSize) (n : Nat) :
    Option (Exchange inputSize outputSize) :=
  match state.script with
  | .copying held =>
      if 0 < n ∧ n ≤ held.length then
        (state.fd.put (held.take n)).map fun fd =>
          { state with script := .copying (held.drop n), fd := fd }
      else none
  | .exited => none

def step (postData : Str) (state : Exchange inputSize outputSize) :
    ExchangeEvent → Option (Exchange inputSize outputSize)
  | .write written => state.writeStep postData written
  | .closeInput =>
      if state.phase = .writing postData.length then
        some { state with phase := .reading }
      else none
  | .read n =>
      if state.phase = .reading ∧ 0 < n ∧ n ≤ bufferSize ∧
          n ≤ state.fd.items.length then
        some { state with
          fd := state.fd.drop n
          content := state.content ++ state.fd.items.take n }
      else none
  | .endOfOutput =>
      if state.phase = .reading ∧ state.fd.items = [] ∧
          state.script = .exited then
        some { state with phase := .ended }
      else none
  | .timeout =>
      if state.phase = .ended ∨ state.phase = .timedOut then none
      else some { state with phase := .timedOut, script := .exited }
  | .scriptRead n => state.scriptReadStep n
  | .scriptWrite n => state.scriptWriteStep n
  | .scriptExit =>
      if state.script = .copying [] ∧ state.inputFd.items = [] ∧
          state.phase = .reading then
        some { state with script := .exited }
      else none

/-- The body is not written, and neither process can go on. -/
def Stuck (postData : Str) (state : Exchange inputSize outputSize) : Prop :=
  (∃ totalWritten, state.phase = .writing totalWritten ∧
    totalWritten < postData.length) ∧
  state.inputFd.Full ∧
  (∃ held, state.script = .copying held ∧ held ≠ []) ∧
  state.fd.Full

def Next (postData : Str) (state next : Exchange inputSize outputSize) :
    Prop :=
  ∃ event, state.step postData event = some next

def Reached (postData : Str) (state : Exchange inputSize outputSize) : Prop :=
  Relation.ReflTransGen (Next postData) (start postData) state

/-! The steps, one rule for each of them. -/

inductive Moves (postData : Str) :
    Exchange inputSize outputSize → Exchange inputSize outputSize → Prop
  | write {state : Exchange inputSize outputSize} {totalWritten written : Nat}
      {inputFd : Pipe Char inputSize} :
      state.phase = .writing totalWritten → 0 < written →
      totalWritten + written ≤ postData.length →
      inputFd.items = state.inputFd.items ++
        (postData.drop totalWritten).take written →
      Moves postData state { state with
        phase := .writing (totalWritten + written), inputFd := inputFd }
  | closeInput {state : Exchange inputSize outputSize} :
      state.phase = .writing postData.length →
      Moves postData state { state with phase := .reading }
  | read {state : Exchange inputSize outputSize} {n : Nat} :
      state.phase = .reading → 0 < n → n ≤ bufferSize →
      n ≤ state.fd.items.length →
      Moves postData state { state with
        fd := state.fd.drop n
        content := state.content ++ state.fd.items.take n }
  | endOfOutput {state : Exchange inputSize outputSize} :
      state.phase = .reading → state.fd.items = [] → state.script = .exited →
      Moves postData state { state with phase := .ended }
  | timeout {state : Exchange inputSize outputSize} :
      state.phase ≠ .ended → state.phase ≠ .timedOut →
      Moves postData state
        { state with phase := .timedOut, script := .exited }
  | scriptRead {state : Exchange inputSize outputSize} {n : Nat} :
      state.script = .copying [] → 0 < n → n ≤ state.inputFd.items.length →
      Moves postData state { state with
        script := .copying (state.inputFd.items.take n)
        inputFd := state.inputFd.drop n }
  | scriptWrite {state : Exchange inputSize outputSize} {held : Str} {n : Nat}
      {fd : Pipe Char outputSize} :
      state.script = .copying held → 0 < n → n ≤ held.length →
      fd.items = state.fd.items ++ held.take n →
      Moves postData state
        { state with script := .copying (held.drop n), fd := fd }
  | scriptExit {state : Exchange inputSize outputSize} :
      state.script = .copying [] → state.inputFd.items = [] →
      state.phase = .reading →
      Moves postData state { state with script := .exited }

variable {postData : Str} {state next : Exchange inputSize outputSize}

theorem Next.moves (h : Next postData state next) :
    Moves postData state next := by
  obtain ⟨event, hstep⟩ := h
  cases event with
  | write written =>
      change state.writeStep postData written = _ at hstep
      unfold writeStep at hstep
      split at hstep
      · rename_i totalWritten hphase
        split at hstep
        · rename_i hcount
          obtain ⟨inputFd, hput, rfl⟩ := Option.map_eq_some_iff.mp hstep
          exact .write hphase hcount.1 hcount.2 (Pipe.put_eq_some_iff.mp hput)
        · cases hstep
      · cases hstep
  | closeInput =>
      obtain ⟨hphase, hnext⟩ := Option.ite_none_right_eq_some.mp hstep
      obtain rfl := Option.some.inj hnext
      exact .closeInput hphase
  | read n =>
      obtain ⟨⟨hphase, hpos, hsize, hn⟩, hnext⟩ :=
        Option.ite_none_right_eq_some.mp hstep
      obtain rfl := Option.some.inj hnext
      exact .read hphase hpos hsize hn
  | endOfOutput =>
      obtain ⟨⟨hphase, hempty, hexited⟩, hnext⟩ :=
        Option.ite_none_right_eq_some.mp hstep
      obtain rfl := Option.some.inj hnext
      exact .endOfOutput hphase hempty hexited
  | timeout =>
      obtain ⟨hphase, hnext⟩ := Option.ite_none_left_eq_some.mp hstep
      obtain rfl := Option.some.inj hnext
      obtain ⟨hended, htimedOut⟩ := not_or.mp hphase
      exact .timeout hended htimedOut
  | scriptRead n =>
      obtain ⟨⟨hscript, hpos, hn⟩, hnext⟩ :=
        Option.ite_none_right_eq_some.mp hstep
      obtain rfl := Option.some.inj hnext
      exact .scriptRead hscript hpos hn
  | scriptWrite n =>
      change state.scriptWriteStep n = _ at hstep
      unfold scriptWriteStep at hstep
      split at hstep
      · rename_i held hscript
        obtain ⟨⟨hpos, hn⟩, hput⟩ := Option.ite_none_right_eq_some.mp hstep
        obtain ⟨fd, hfd, rfl⟩ := Option.map_eq_some_iff.mp hput
        exact .scriptWrite hscript hpos hn (Pipe.put_eq_some_iff.mp hfd)
      · cases hstep
  | scriptExit =>
      obtain ⟨⟨hscript, hempty, hphase⟩, hnext⟩ :=
        Option.ite_none_right_eq_some.mp hstep
      obtain rfl := Option.some.inj hnext
      exact .scriptExit hscript hempty hphase

theorem Moves.toNext (h : Moves postData state next) :
    Next postData state next := by
  cases h with
  | write hphase hpos hle hput =>
      rename_i totalWritten written inputFd
      refine ⟨.write written, ?_⟩
      change state.writeStep postData written = _
      unfold writeStep
      simp only [hphase]
      rw [if_pos ⟨hpos, hle⟩, Pipe.put_eq_some_iff.mpr hput]
      rfl
  | closeInput hphase => exact ⟨.closeInput, if_pos hphase⟩
  | read hphase hpos hsize hn =>
      exact ⟨.read _, if_pos ⟨hphase, hpos, hsize, hn⟩⟩
  | endOfOutput hphase hempty hexited =>
      exact ⟨.endOfOutput, if_pos ⟨hphase, hempty, hexited⟩⟩
  | timeout hended htimedOut =>
      exact ⟨.timeout, if_neg (not_or.mpr ⟨hended, htimedOut⟩)⟩
  | scriptRead hscript hpos hn =>
      exact ⟨.scriptRead _, if_pos ⟨hscript, hpos, hn⟩⟩
  | scriptWrite hscript hpos hn hput =>
      rename_i held n fd
      refine ⟨.scriptWrite n, ?_⟩
      change state.scriptWriteStep n = _
      unfold scriptWriteStep
      simp only [hscript]
      rw [if_pos ⟨hpos, hn⟩, Pipe.put_eq_some_iff.mpr hput]
      rfl
  | scriptExit hscript hempty hphase =>
      exact ⟨.scriptExit, if_pos ⟨hscript, hempty, hphase⟩⟩

/-- No byte is lost, doubled or moved on the way through the script. -/
structure Conserves (postData : Str)
    (state : Exchange inputSize outputSize) : Prop where
  passed : state.phase ≠ .timedOut →
    state.content ++ (state.fd.items ++
      (state.script.held ++ state.inputFd.items)) =
        postData.take (state.written postData)
  writing : ∀ totalWritten, state.phase = .writing totalWritten →
    totalWritten ≤ postData.length ∧ state.content = [] ∧
      state.script ≠ .exited
  exited : state.phase ≠ .timedOut → state.script = .exited →
    state.inputFd.items = []
  ended : state.phase = .ended →
    state.script = .exited ∧ state.fd.items = []

theorem start_conserves :
    Conserves postData (start postData : Exchange inputSize outputSize) := by
  unfold start
  split
  · rename_i hempty
    subst hempty
    exact ⟨fun _ => rfl, nofun, fun _ => nofun, nofun⟩
  · refine ⟨fun _ => rfl, ?_, fun _ => nofun, nofun⟩
    intro totalWritten hphase
    obtain rfl := ExecPhase.writing.inj hphase
    exact ⟨Nat.zero_le _, rfl, nofun⟩

theorem Moves.conserves (h : Moves postData state next)
    (hconserves : Conserves postData state) : Conserves postData next := by
  obtain ⟨hpassed, hwriting, hexited, hended⟩ := hconserves
  cases h with
  | write hphase hpos hle hput =>
      rename_i totalWritten written inputFd
      have hgone := hpassed (by simp [hphase])
      simp only [Exchange.written, hphase] at hgone
      obtain ⟨-, hcontent, hscript⟩ := hwriting _ hphase
      refine ⟨fun _ => ?_, ?_, fun _ hexit => absurd hexit hscript, nofun⟩
      · simp only [Exchange.written]
        rw [hput, List.take_add, ← hgone]
        simp only [List.append_assoc]
      · intro total hwritten
        obtain rfl := ExecPhase.writing.inj hwritten
        exact ⟨hle, hcontent, hscript⟩
  | closeInput hphase =>
      have hgone := hpassed (by simp [hphase])
      obtain ⟨-, -, hscript⟩ := hwriting _ hphase
      simp only [Exchange.written, hphase] at hgone
      exact ⟨fun _ => hgone, nofun, fun _ hexit => absurd hexit hscript, nofun⟩
  | read hphase hpos hsize hn =>
      rename_i n
      have hgone := hpassed (by simp [hphase])
      refine ⟨fun _ => ?_, fun total hwritten => ?_,
        fun _ hexit => hexited (by simp [hphase]) hexit, fun hend => ?_⟩
      · change _ = List.take (state.written postData) postData
        rw [← hgone, Pipe.drop_items, List.append_assoc, ← List.append_assoc
          (state.fd.items.take n), List.take_append_drop]
      · rw [hphase] at hwritten
        cases hwritten
      · rw [hphase] at hend
        cases hend
  | endOfOutput hphase hempty hexit =>
      have hgone := hpassed (by simp [hphase])
      simp only [Exchange.written, hphase] at hgone
      exact ⟨fun _ => hgone, nofun,
        fun _ _ => hexited (by simp [hphase]) hexit, fun _ => ⟨hexit, hempty⟩⟩
  | timeout => exact ⟨absurd rfl, nofun, absurd rfl, nofun⟩
  | scriptRead hscript hpos hn =>
      rename_i n
      refine ⟨fun hphase => ?_, fun total hwritten => ?_, fun _ => nofun,
        fun hend => ?_⟩
      · have hgone := hpassed hphase
        rw [hscript] at hgone
        change _ = List.take (state.written postData) postData
        rw [← hgone, Pipe.drop_items]
        simp only [Copier.held, List.take_append_drop, List.nil_append]
      · obtain ⟨hle, hcontent, -⟩ := hwriting total hwritten
        exact ⟨hle, hcontent, nofun⟩
      · rw [hscript] at hended
        cases (hended hend).1
  | scriptWrite hscript hpos hn hput =>
      rename_i held n fd
      refine ⟨fun hphase => ?_, fun total hwritten => ?_, fun _ => nofun,
        fun hend => ?_⟩
      · have hgone := hpassed hphase
        rw [hscript] at hgone
        change _ = List.take (state.written postData) postData
        rw [← hgone, hput]
        simp only [Copier.held]
        rw [List.append_assoc state.fd.items, ← List.append_assoc
          (held.take n), List.take_append_drop]
      · obtain ⟨hle, hcontent, -⟩ := hwriting total hwritten
        exact ⟨hle, hcontent, nofun⟩
      · rw [hscript] at hended
        cases (hended hend).1
  | scriptExit hscript hempty hphase =>
      refine ⟨fun hkilled => ?_, fun total hwritten => ?_, fun _ _ => hempty,
        fun hend => ?_⟩
      · have hgone := hpassed hkilled
        rw [hscript] at hgone
        exact hgone
      · rw [hphase] at hwritten
        cases hwritten
      · rw [hphase] at hend
        cases hend

theorem Reached.conserves (h : Reached postData state) :
    Conserves postData state := by
  induction h with
  | refl => exact start_conserves
  | tail _ hnext ih => exact hnext.moves.conserves ih

theorem Stuck.length_le (h : Stuck postData state)
    (hconserves : Conserves postData state) :
    inputSize + outputSize + 2 ≤ postData.length := by
  obtain ⟨⟨totalWritten, hphase, hless⟩, hinput, ⟨held, hscript, hheld⟩,
    houtput⟩ := h
  have hgone := hconserves.passed (by simp [hphase])
  obtain ⟨hle, hcontent, -⟩ := hconserves.writing _ hphase
  have hlength := congrArg List.length hgone
  have hpos := List.length_pos_iff.mpr hheld
  rw [hcontent, hscript] at hlength
  simp only [written, hphase, Copier.held, List.nil_append,
    List.length_append, List.length_take] at hlength
  have hfull : state.inputFd.items.length = inputSize := hinput
  have hfull' : state.fd.items.length = outputSize := houtput
  omega

/-- The input is full, the script holds nothing, and so many bytes of its
output are not read. -/
structure Pressed (state : Exchange inputSize outputSize) (n : Nat) :
    Prop where
  phase : state.phase = .writing (inputSize + n)
  inputFd : state.inputFd.Full
  script : state.script = .copying []
  fd : state.fd.items.length = n

theorem Pressed.refill {n : Nat} (h : Pressed state n) (hsize : 1 ≤ inputSize)
    (hlength : inputSize + n < postData.length) :
    ∃ held, held.length = 1 ∧ ∃ inputFd : Pipe Char inputSize,
      inputFd.Full ∧ Relation.ReflTransGen (Next postData) state
        { state with
          phase := .writing (inputSize + n + 1)
          inputFd := inputFd
          script := .copying held } := by
  obtain ⟨hphase, hinput, hscript, -⟩ := h
  have hfull : state.inputFd.items.length = inputSize := hinput
  have hread : Moves postData state { state with
      script := .copying (state.inputFd.items.take 1)
      inputFd := state.inputFd.drop 1 } :=
    .scriptRead hscript Nat.one_pos (hfull.symm ▸ hsize)
  have hrest : (state.inputFd.drop 1).items.length = inputSize - 1 := by
    rw [Pipe.drop_items, List.length_drop, hfull]
  have hbyte : ((postData.drop (inputSize + n)).take 1).length = 1 := by
    rw [List.length_take, List.length_drop]
    omega
  obtain ⟨inputFd, -, hitems⟩ := @Pipe.exists_put _ _
    (state.inputFd.drop 1) ((postData.drop (inputSize + n)).take 1) (by omega)
  have hwrite : Moves postData
      { state with
        script := .copying (state.inputFd.items.take 1)
        inputFd := state.inputFd.drop 1 }
      { state with
        phase := .writing (inputSize + n + 1)
        inputFd := inputFd
        script := .copying (state.inputFd.items.take 1) } :=
    .write hphase Nat.one_pos hlength hitems
  refine ⟨state.inputFd.items.take 1, ?_, inputFd, ?_,
    .tail (.single hread.toNext) hwrite.toNext⟩
  · rw [List.length_take]
    omega
  · change inputFd.items.length = inputSize
    rw [hitems, List.length_append, hrest, hbyte]
    omega

theorem Pressed.press {n : Nat} (h : Pressed state n) (hsize : 1 ≤ inputSize)
    (hroom : n < outputSize) (hlength : inputSize + n < postData.length) :
    ∃ next, Pressed next (n + 1) ∧
      Relation.ReflTransGen (Next postData) state next := by
  obtain ⟨held, hheld, inputFd, hfull, hsteps⟩ := h.refill hsize hlength
  have hfd : state.fd.items.length = n := h.fd
  obtain ⟨fd, -, hitems⟩ := @Pipe.exists_put _ _ state.fd (held.take 1)
    (by rw [List.length_take]; omega)
  have hwrite : Moves postData
      { state with
        phase := .writing (inputSize + n + 1)
        inputFd := inputFd
        script := .copying held }
      { state with
        phase := .writing (inputSize + n + 1)
        inputFd := inputFd
        script := .copying (held.drop 1)
        fd := fd } :=
    .scriptWrite rfl Nat.one_pos hheld.ge hitems
  refine ⟨_, ⟨rfl, hfull, ?_, ?_⟩, .tail hsteps hwrite.toNext⟩
  · rw [List.drop_eq_nil_of_le hheld.le]
  · rw [hitems, List.length_append, List.length_take, hfd, hheld]
    rfl

theorem exists_pressed (hsize : 1 ≤ inputSize) (n : Nat) (hn : n ≤ outputSize)
    (hlength : inputSize + n < postData.length) :
    ∃ state : Exchange inputSize outputSize,
      Reached postData state ∧ Pressed state n := by
  induction n with
  | zero =>
      have htake : (postData.take inputSize).length = inputSize := by
        rw [List.length_take]
        omega
      obtain ⟨inputFd, -, hitems⟩ := @Pipe.exists_put _ inputSize .empty
        ((postData.drop 0).take inputSize) (by simp [htake])
      have hphase : (start postData :
          Exchange inputSize outputSize).phase = .writing 0 := by
        refine if_neg ?_
        rintro rfl
        exact absurd hlength (Nat.not_lt_zero _)
      have hwrite : Moves postData (start postData)
          { (start postData : Exchange inputSize outputSize) with
            phase := .writing (0 + inputSize), inputFd := inputFd } :=
        .write hphase hsize (by omega) hitems
      refine ⟨_, .single hwrite.toNext, ⟨by simp, ?_, rfl, rfl⟩⟩
      change inputFd.items.length = inputSize
      rw [hitems]
      exact htake
  | succ n ih =>
      obtain ⟨state, hreached, hpressed⟩ := ih (by omega) (by omega)
      obtain ⟨next, hnext, hsteps⟩ :=
        @Pressed.press _ _ postData _ _ hpressed hsize (by omega) (by omega)
      exact ⟨next, hreached.trans hsteps, hnext⟩

theorem exists_stuck (hsize : 1 ≤ inputSize)
    (hlength : inputSize + outputSize + 2 ≤ postData.length) :
    ∃ state : Exchange inputSize outputSize,
      Reached postData state ∧ Stuck postData state := by
  obtain ⟨state, hreached, hpressed⟩ :=
    @exists_pressed _ _ postData hsize outputSize le_rfl (by omega)
  obtain ⟨held, hheld, inputFd, hfull, hsteps⟩ :=
    @Pressed.refill _ _ postData _ _ hpressed hsize (by omega)
  refine ⟨_, hreached.trans hsteps, ⟨_, rfl, by omega⟩, hfull,
    ⟨held, rfl, ?_⟩, hpressed.fd⟩
  rintro rfl
  cases hheld

/-- No interleaving gets stuck if and only if the body fits into both pipes
and what the script holds while it waits. -/
theorem never_stuck_iff (hinput : 1 ≤ inputSize) (postData : Str) :
    (∀ state : Exchange inputSize outputSize, Reached postData state →
      ¬Stuck postData state) ↔
      postData.length ≤ inputSize + outputSize + 1 := by
  constructor
  · intro hnever
    by_contra hlong
    obtain ⟨state, hreached, hstuck⟩ :=
      @exists_stuck inputSize outputSize postData hinput (by omega)
    exact hnever state hreached hstuck
  · intro hshort state hreached hstuck
    have hlength := hstuck.length_le hreached.conserves
    omega

theorem never_stuck_short :
    (∀ state : Exchange 1 1, Reached "a=1".toList state →
      ¬Stuck "a=1".toList state) ↔ "a=1".toList.length ≤ 1 + 1 + 1 :=
  never_stuck_iff le_rfl _

/-- Four bytes through two pipes of one byte each. -/
theorem stuck_reached :
    ¬∀ state : Exchange 1 1, Reached "a=12".toList state →
      ¬Stuck "a=12".toList state := by
  intro hnever
  obtain ⟨state, hreached, hstuck⟩ :=
    @exists_stuck 1 1 "a=12".toList le_rfl (by decide)
  exact hnever state hreached hstuck

/-- A stuck exchange only ends when its time is over. -/
theorem Stuck.moves (h : Stuck postData state)
    (hmoves : Moves postData state next) : next.phase = .timedOut := by
  obtain ⟨⟨totalWritten, hphase, hless⟩, hinput, ⟨held, hscript, hheld⟩,
    houtput⟩ := h
  cases hmoves with
  | timeout => rfl
  | write hphase' hpos hle hput =>
      rename_i total written inputFd
      have hfits := inputFd.fits
      have hfull : state.inputFd.items.length = inputSize := hinput
      rw [hput, List.length_append, List.length_take, List.length_drop]
        at hfits
      omega
  | closeInput hphase' =>
      obtain rfl := ExecPhase.writing.inj (hphase.symm.trans hphase')
      exact absurd hless (Nat.lt_irrefl _)
  | read hphase' => cases hphase.symm.trans hphase'
  | endOfOutput hphase' => cases hphase.symm.trans hphase'
  | scriptRead hscript' =>
      exact absurd (Copier.copying.inj (hscript.symm.trans hscript')) hheld
  | scriptWrite hscript' hpos hle hput =>
      rename_i other n fd
      have hfits := fd.fits
      have hfull : state.fd.items.length = outputSize := houtput
      rw [hput, List.length_append, List.length_take] at hfits
      omega
  | scriptExit _ _ hphase' => cases hphase.symm.trans hphase'

theorem exists_moves_writing {totalWritten : Nat}
    (hphase : state.phase = .writing totalWritten)
    (hle : totalWritten ≤ postData.length)
    (hroom : totalWritten < postData.length → ¬state.inputFd.Full) :
    ∃ next, Moves postData state next ∧ next.phase ≠ .timedOut := by
  cases Nat.lt_or_eq_of_le hle with
  | inl hless =>
      have hfits := state.inputFd.fits
      have hfull : state.inputFd.items.length ≠ inputSize := hroom hless
      obtain ⟨inputFd, -, hitems⟩ := @Pipe.exists_put _ _ state.inputFd
        ((postData.drop totalWritten).take 1) (by
          rw [List.length_take]
          omega)
      exact ⟨_, .write hphase Nat.one_pos hless hitems, nofun⟩
  | inr heq =>
      subst heq
      exact ⟨_, .closeInput hphase, nofun⟩

theorem exists_moves_reading (hphase : state.phase = .reading)
    (hfd : state.fd.items ≠ []) :
    ∃ next, Moves postData state next ∧ next.phase ≠ .timedOut :=
  ⟨_, .read hphase Nat.one_pos (by decide) (List.length_pos_iff.mpr hfd),
    by simp [hphase]⟩

/-- An exchange that is not stuck goes on in time. -/
theorem Reached.progress (h : Reached postData state)
    (hinput : 1 ≤ inputSize) (houtput : 1 ≤ outputSize)
    (hended : state.phase ≠ .ended) (htimedOut : state.phase ≠ .timedOut)
    (hstuck : ¬Stuck postData state) :
    ∃ next, Moves postData state next ∧ next.phase ≠ .timedOut := by
  obtain ⟨-, hwriting, -, -⟩ := h.conserves
  cases hscript : state.script with
  | exited =>
      cases hphase : state.phase with
      | writing totalWritten => exact absurd hscript (hwriting _ hphase).2.2
      | reading =>
          by_cases hfd : state.fd.items = []
          · exact ⟨_, .endOfOutput hphase hfd hscript, nofun⟩
          · exact exists_moves_reading hphase hfd
      | ended => exact absurd hphase hended
      | timedOut => exact absurd hphase htimedOut
  | copying held =>
      by_cases hheld : held = []
      · subst hheld
        by_cases hempty : state.inputFd.items = []
        · cases hphase : state.phase with
          | writing totalWritten =>
              refine exists_moves_writing hphase (hwriting _ hphase).1
                fun _ hfull => ?_
              have hsize : state.inputFd.items.length = inputSize := hfull
              rw [hempty, List.length_nil] at hsize
              omega
          | reading =>
              exact ⟨_, .scriptExit hscript hempty hphase, by simp [hphase]⟩
          | ended => exact absurd hphase hended
          | timedOut => exact absurd hphase htimedOut
        · exact ⟨_, .scriptRead hscript Nat.one_pos
            (List.length_pos_iff.mpr hempty), htimedOut⟩
      · by_cases hfull : state.fd.Full
        · cases hphase : state.phase with
          | writing totalWritten =>
              exact exists_moves_writing hphase (hwriting _ hphase).1
                fun hless hinputFull => hstuck
                  ⟨⟨_, hphase, hless⟩, hinputFull, ⟨held, hscript, hheld⟩,
                    hfull⟩
          | reading =>
              refine exists_moves_reading hphase fun hempty => ?_
              have hsize : state.fd.items.length = outputSize := hfull
              rw [hempty, List.length_nil] at hsize
              omega
          | ended => exact absurd hphase hended
          | timedOut => exact absurd hphase htimedOut
        · obtain ⟨byte, rest, rfl⟩ := List.exists_cons_of_ne_nil hheld
          obtain ⟨fd, -, hitems⟩ := Pipe.exists_put_one hfull byte
          exact ⟨_, .scriptWrite hscript Nat.one_pos
            (Nat.succ_le_succ (Nat.zero_le _)) hitems, htimedOut⟩

end Exchange

end Webserv
