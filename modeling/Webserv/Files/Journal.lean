import Mathlib.Data.List.Count

namespace Webserv.Files

/-! A journal of what some writers do to files, each of which has one name, and
what it says about the bytes of a file. -/

inductive JournalEntry (Writer Path Symbol : Type)
  /-- A file is created, or truncated. -/
  | opened (writer : Writer) (path : Path)
  /-- Symbols behind those of the file that the writer has opened last. -/
  | written (writer : Writer) (symbols : List Symbol)
  | removed (path : Path)
  deriving DecidableEq, Repr

variable {Writer Path Symbol : Type} [DecidableEq Writer] [DecidableEq Path]

/-- One file: the writer that writes to it, and what it holds. -/
structure Ledger (Writer Symbol : Type) where
  writer : Option Writer := none
  content : Option (List Symbol)
  deriving DecidableEq, Repr

namespace Ledger

def opened (ledger : Ledger Writer Symbol) (writer : Writer)
    (here : Bool) : Ledger Writer Symbol :=
  if here then { writer := some writer, content := some [] }
  else if ledger.writer = some writer then { ledger with writer := none }
  else ledger

def written (ledger : Ledger Writer Symbol) (writer : Writer)
    (symbols : List Symbol) : Ledger Writer Symbol :=
  if ledger.writer = some writer then
    { ledger with content := ledger.content.map (· ++ symbols) }
  else ledger

def note (path : Path) (ledger : Ledger Writer Symbol) :
    JournalEntry Writer Path Symbol → Ledger Writer Symbol
  | .opened writer other => ledger.opened writer (other = path)
  | .written writer symbols => ledger.written writer symbols
  | .removed other =>
      if other = path then { ledger with content := none } else ledger

/-- What the journal says about the file, from what it held before. -/
def replay (path : Path) (ledger : Ledger Writer Symbol)
    (journal : List (JournalEntry Writer Path Symbol)) : Ledger Writer Symbol :=
  journal.foldl (note path) ledger

@[simp] theorem replay_append (path : Path) (ledger : Ledger Writer Symbol)
    (journal more : List (JournalEntry Writer Path Symbol)) :
    replay path ledger (journal ++ more) =
      replay path (replay path ledger journal) more :=
  List.foldl_append

@[simp] theorem written_writer (ledger : Ledger Writer Symbol)
    (writer : Writer) (symbols : List Symbol) :
    (ledger.written writer symbols).writer = ledger.writer := by
  unfold written
  split
  · rfl
  · rfl

@[simp] theorem written_nil (ledger : Ledger Writer Symbol)
    (writer : Writer) : ledger.written writer [] = ledger := by
  unfold written
  split
  · cases ledger
    simp
  · rfl

theorem opened_writer_of_ne (ledger : Ledger Writer Symbol)
    {writer other : Writer} (hne : other ≠ writer) (here : Bool) :
    (ledger.opened writer here).writer = some other ↔
      here = false ∧ ledger.writer = some other := by
  unfold opened
  cases here with
  | true => simp [hne.symm]
  | false =>
      by_cases hmine : ledger.writer = some writer
      · simp [hmine, hne.symm]
      · simp [hmine]

end Ledger

/-! The files of one writer. -/

def openedPath? : JournalEntry Writer Path Symbol → Option Path
  | .opened _ path => some path
  | _ => none

def openings (journal : List (JournalEntry Writer Path Symbol)) : List Path :=
  journal.filterMap openedPath?

omit [DecidableEq Writer] [DecidableEq Path] in
theorem openings_append (journal more : List (JournalEntry Writer Path Symbol)) :
    openings (journal ++ more) = openings journal ++ openings more :=
  List.filterMap_append

def OpenedOnce (path : Path) (journal : List (JournalEntry Writer Path Symbol)) :
    Prop :=
  (openings journal).count path ≤ 1

instance (path : Path) (journal : List (JournalEntry Writer Path Symbol)) :
    Decidable (OpenedOnce path journal) :=
  inferInstanceAs (Decidable (_ ≤ _))

omit [DecidableEq Writer] in
theorem OpenedOnce.earlier {path : Path}
    {journal more : List (JournalEntry Writer Path Symbol)}
    (h : OpenedOnce path (journal ++ more)) : OpenedOnce path journal := by
  unfold OpenedOnce at h ⊢
  rw [openings_append, List.count_append] at h
  omega

omit [DecidableEq Writer] in
theorem OpenedOnce.around {writer : Writer} {path : Path}
    {before after : List (JournalEntry Writer Path Symbol)}
    (h : OpenedOnce path (before ++ .opened writer path :: after)) :
    path ∉ openings before ∧ path ∉ openings after := by
  unfold OpenedOnce at h
  rw [openings_append, List.count_append, show openings
    (JournalEntry.opened writer path :: after) = path :: openings after from rfl,
    List.count_cons_self] at h
  constructor
  · exact List.count_eq_zero.mp (by omega)
  · exact List.count_eq_zero.mp (by omega)

/-- The newest file in front, with what the writer has brought into it. -/
def noteFile (writer : Writer) (files : List (Path × List Symbol)) :
    JournalEntry Writer Path Symbol → List (Path × List Symbol)
  | .opened other path =>
      if other = writer then (path, []) :: files else files
  | .written other symbols =>
      if other = writer then
        match files with
        | [] => []
        | (path, content) :: rest => (path, content ++ symbols) :: rest
      else files
  | .removed _ => files

def filesFrom (writer : Writer) (files : List (Path × List Symbol))
    (journal : List (JournalEntry Writer Path Symbol)) :
    List (Path × List Symbol) :=
  journal.foldl (noteFile writer) files

def filesOf (writer : Writer) (journal : List (JournalEntry Writer Path Symbol)) :
    List (Path × List Symbol) :=
  filesFrom writer [] journal

omit [DecidableEq Path] in
theorem filesFrom_append (writer : Writer)
    (files : List (Path × List Symbol))
    (journal more : List (JournalEntry Writer Path Symbol)) :
    filesFrom writer files (journal ++ more) =
      filesFrom writer (filesFrom writer files journal) more :=
  List.foldl_append

omit [DecidableEq Path] in
theorem mem_filesFrom {writer : Writer} {files : List (Path × List Symbol)}
    {journal : List (JournalEntry Writer Path Symbol)} {path : Path}
    (h : path ∈ (filesFrom writer files journal).map Prod.fst) :
    path ∈ files.map Prod.fst ∨
      JournalEntry.opened writer path ∈ journal := by
  induction journal generalizing files with
  | nil => exact .inl h
  | cons entry rest ih =>
      have hrest := ih h
      cases hrest with
      | inr hlater => exact .inr (List.mem_cons_of_mem _ hlater)
      | inl hnoted =>
          cases entry with
          | opened other new =>
              simp only [noteFile] at hnoted
              split at hnoted
              · rename_i hmine
                subst hmine
                cases List.mem_cons.mp hnoted with
                | inl hnew => exact .inr (by simp [hnew])
                | inr hold => exact .inl hold
              · exact .inl hnoted
          | written other symbols =>
              simp only [noteFile] at hnoted
              split at hnoted
              · cases files with
                | nil => exact .inl hnoted
                | cons file files => exact .inl hnoted
              · exact .inl hnoted
          | removed other => exact .inl hnoted

/-! A file that is opened once. -/

/-- The ledger of a path and the files of the writer that has opened it: the
file is the newest and still written to, or it is complete. -/
inductive Agree (writer : Writer) (path : Path) :
    Ledger Writer Symbol → List (Path × List Symbol) → Prop
  | newest {content : List Symbol} {rest : List (Path × List Symbol)} :
      path ∉ rest.map Prod.fst →
      Agree writer path ⟨some writer, some content⟩ ((path, content) :: rest)
  | complete {content : List Symbol} {file : Path × List Symbol}
      {rest : List (Path × List Symbol)} : file.1 ≠ path →
      (∀ symbols, (path, symbols) ∈ rest → symbols = content) →
      Agree writer path ⟨none, some content⟩ (file :: rest)

def Leaves (path : Path) (entry : JournalEntry Writer Path Symbol) : Prop :=
  (∀ writer, entry ≠ .opened writer path) ∧ entry ≠ .removed path

theorem Agree.note {writer : Writer} {path : Path}
    {ledger : Ledger Writer Symbol} {files : List (Path × List Symbol)}
    (h : Agree writer path ledger files)
    {entry : JournalEntry Writer Path Symbol} (hleaves : Leaves path entry) :
    Agree writer path (ledger.note path entry)
      (noteFile writer files entry) := by
  obtain ⟨hopens, hremoves⟩ := hleaves
  cases entry with
  | opened other new =>
      have hnew : new ≠ path := by
        rintro rfl
        exact hopens other rfl
      simp only [Ledger.note, Ledger.opened, noteFile, hnew, decide_false,
        Bool.false_eq_true, if_false]
      by_cases hmine : other = writer
      · subst hmine
        rw [if_pos rfl]
        cases h with
        | newest hrest =>
            rw [if_pos rfl]
            refine .complete hnew fun symbols hmem => ?_
            cases List.mem_cons.mp hmem with
            | inl heq => exact (Prod.mk.inj heq).2
            | inr hlater =>
                exact absurd (List.mem_map_of_mem hlater) hrest
        | complete hfile hall =>
            rw [if_neg (by simp)]
            refine .complete hnew fun symbols hmem => ?_
            cases List.mem_cons.mp hmem with
            | inl heq => exact absurd (congrArg Prod.fst heq).symm hfile
            | inr hlater => exact hall symbols hlater
      · rw [if_neg hmine]
        cases h with
        | newest hrest =>
            rw [if_neg (by simpa using Ne.symm hmine)]
            exact .newest hrest
        | complete hfile hall =>
            rw [if_neg (by simp)]
            exact .complete hfile hall
  | written other symbols =>
      simp only [Ledger.note, Ledger.written, noteFile]
      by_cases hmine : other = writer
      · subst hmine
        rw [if_pos rfl]
        cases h with
        | newest hrest =>
            rw [if_pos rfl]
            exact .newest hrest
        | complete hfile hall =>
            rw [if_neg (by simp)]
            exact .complete hfile hall
      · rw [if_neg hmine]
        cases h with
        | newest hrest =>
            rw [if_neg (by simpa using Ne.symm hmine)]
            exact .newest hrest
        | complete hfile hall =>
            rw [if_neg (by simp)]
            exact .complete hfile hall
  | removed other =>
      have hother : other ≠ path := by
        rintro rfl
        exact hremoves rfl
      simp only [Ledger.note, noteFile, if_neg hother]
      exact h

theorem Agree.replay {writer : Writer} {path : Path}
    {journal : List (JournalEntry Writer Path Symbol)}
    (hleaves : ∀ entry ∈ journal, Leaves path entry)
    {ledger : Ledger Writer Symbol} {files : List (Path × List Symbol)}
    (h : Agree writer path ledger files) :
    Agree writer path (ledger.replay path journal)
      (filesFrom writer files journal) := by
  induction journal generalizing ledger files with
  | nil => exact h
  | cons entry rest ih =>
      exact ih (fun other hother =>
        hleaves other (List.mem_cons_of_mem _ hother))
        (h.note (hleaves entry List.mem_cons_self))

omit [DecidableEq Writer] [DecidableEq Path] in
theorem Agree.content {writer : Writer} {path : Path}
    {ledger : Ledger Writer Symbol} {files : List (Path × List Symbol)}
    (h : Agree writer path ledger files) {symbols : List Symbol}
    (hfile : (path, symbols) ∈ files) : ledger.content = some symbols := by
  cases h with
  | newest hrest =>
      cases List.mem_cons.mp hfile with
      | inl heq => rw [(Prod.mk.inj heq).2]
      | inr hlater => exact absurd (List.mem_map_of_mem hlater) hrest
  | complete hother hall =>
      cases List.mem_cons.mp hfile with
      | inl heq => exact absurd (congrArg Prod.fst heq).symm hother
      | inr hlater => rw [hall symbols hlater]

/-- The journal holds what a writer has brought into a file, if no one else has
opened the file and it has not been removed. -/
theorem content_of_mem_filesOf {writer : Writer} {path : Path}
    {symbols : List Symbol} {journal : List (JournalEntry Writer Path Symbol)}
    (honce : OpenedOnce path journal)
    (hremoved : JournalEntry.removed path ∉ journal)
    (hfile : (path, symbols) ∈ filesOf writer journal)
    (start : Ledger Writer Symbol) :
    (start.replay path journal).content = some symbols := by
  have hmem : JournalEntry.opened writer path ∈ journal :=
    (mem_filesFrom (List.mem_map_of_mem hfile)).resolve_left (by simp)
  obtain ⟨before, after, rfl⟩ := List.append_of_mem hmem
  obtain ⟨hbefore, hafter⟩ := honce.around
  have hleaves : ∀ entry ∈ after, Leaves path entry := by
    intro entry hentry
    constructor
    · rintro other rfl
      exact hafter (List.mem_filterMap.mpr ⟨_, hentry, rfl⟩)
    · rintro rfl
      exact hremoved (by simp [hentry])
  have hnew : path ∉ (filesOf writer before).map Prod.fst := by
    intro hfiles
    have hopened := (mem_filesFrom hfiles).resolve_left (by simp)
    exact hbefore (List.mem_filterMap.mpr ⟨_, hopened, rfl⟩)
  have hopened : ((start.replay path before).note path
      (.opened writer path) : Ledger Writer Symbol) =
        ⟨some writer, some []⟩ := by
    simp [Ledger.note, Ledger.opened]
  have hagree : Agree writer path
      (start.replay path (before ++ .opened writer path :: after))
      (filesOf writer (before ++ .opened writer path :: after)) := by
    rw [Ledger.replay_append, filesOf, filesFrom_append]
    change Agree writer path (((start.replay path before).note path
      (.opened writer path)).replay path after) (filesFrom writer
        (noteFile writer (filesOf writer before) (.opened writer path)) after)
    rw [hopened]
    apply Agree.replay hleaves
    simp only [noteFile, if_pos]
    exact .newest hnew
  exact hagree.content hfile

end Webserv.Files
