import Webserv.Config.Parts

namespace Webserv

open Cxx Coding Machine Reading

/-! Which accesses of the parser are out of range. -/

theorem cutComment_eq_nil_iff {line : Str} (hfull : fullLine line = true) :
    cutComment line = [] ↔ line.head? = some '#' := by
  rw [cutComment, if_pos hfull]
  cases line with
  | nil => simp [fullLine] at hfull
  | cons c rest => simp [List.takeWhile_cons]

theorem lines_ne_nil {text : Str} (h : Filled text) : getlines text ≠ [] := by
  intro hnil
  unfold Filled at h
  rw [hnil] at h
  exact h rfl

theorem getParts_of_not_filled {text : Str} (h : ¬Filled text) :
    getParts text = .ok none := by
  unfold getParts
  by_cases hlines : getlines text = []
  · rw [if_pos hlines]
  · rw [if_neg hlines]
    simp only
    rw [if_pos (not_not.mp h)]

theorem mem_trimBy_iff {drop : Char → Bool} {c : Char} {text : Str}
    (hkeep : drop c = false) : c ∈ trimBy drop text ↔ c ∈ text := by
  have hdrop : ∀ text : Str, c ∈ text.dropWhile drop ↔ c ∈ text := by
    intro text
    constructor
    · exact fun hmem => (List.dropWhile_sublist drop).subset hmem
    · intro hmem
      rw [← List.takeWhile_append_dropWhile (p := drop) (l := text)] at hmem
      cases List.mem_append.mp hmem with
      | inl hfront =>
          have hdropped := List.mem_takeWhile_imp hfront
          rw [hkeep] at hdropped
          cases hdropped
      | inr hback => exact hback
  rw [trimBy, List.mem_reverse, hdrop, List.mem_reverse, hdrop]

theorem getParts_of_filled {text : Str} (h : Filled text) :
    getParts text =
      if cutComment (lastLine text) = [] then .error .badSlot
      else if ';' ∈ cutComment (lastLine text) then .ok none
      else if ∀ part ∈ getpieces (gluedText text),
          part ≠ [] ∧ checkEmpt part = true then
        .ok (some (getpieces (gluedText text)))
      else .ok none := by
  have hget : ((getlines text).map cutComment)[lastFullLine 0 0
      (getlines text)]? = some (cutComment (lastLine text)) := by
    rw [List.getElem?_map, h.lastLine.1]
    rfl
  unfold getParts
  rw [if_neg (lines_ne_nil h)]
  simp only
  rw [if_neg h, hget]
  simp only
  unfold trimstr
  by_cases hcut : cutComment (lastLine text) = []
  · rw [if_pos hcut, if_pos hcut]
    rfl
  · rw [if_neg hcut, if_neg hcut]
    have htrim : (';' ∈ trimBy (· = ' ') (cutComment (lastLine text))) ↔
        ';' ∈ cutComment (lastLine text) := mem_trimBy_iff (by decide)
    change (if ';' ∈ trimBy (· = ' ') (cutComment (lastLine text)) then _
      else _) = _
    by_cases hsemicolon : ';' ∈ cutComment (lastLine text)
    · rw [if_pos (htrim.mpr hsemicolon), if_pos hsemicolon]
      rfl
    · rw [if_neg (fun hmem => hsemicolon (htrim.mp hmem)),
        if_neg hsemicolon]
      change (if ((getpieces (gluedText text)).any _) = true then _
        else _) = _
      by_cases hparts : ∀ part ∈ getpieces (gluedText text),
          part ≠ [] ∧ checkEmpt part = true
      · rw [if_neg (by simpa using hparts), if_pos hparts]
        rfl
      · rw [if_pos (by_contra fun hall => hparts (by simpa using hall)),
          if_neg hparts]
        rfl

theorem getParts_eq_some_iff {text : Str} {parts : List Str} :
    getParts text = .ok (some parts) ↔
      Admitted text ∧ (lastLine text).head? ≠ some '#' ∧
        parts = getpieces (gluedText text) := by
  by_cases hfilled : Filled text
  · have hhash := cutComment_eq_nil_iff hfilled.lastLine.2
    rw [getParts_of_filled hfilled]
    split
    · rename_i hcut
      exact ⟨fun h => (by cases h),
        fun ⟨_, hne, _⟩ => absurd (hhash.mp hcut) hne⟩
    rename_i hcut
    split
    · rename_i hsemicolon
      exact ⟨fun h => (by cases h),
        fun ⟨hadmitted, _, _⟩ => absurd hsemicolon hadmitted.lastLine⟩
    rename_i hsemicolon
    split
    · rename_i hparts
      constructor
      · intro h
        exact ⟨⟨hfilled, hsemicolon, hparts⟩, fun hhead => hcut (hhash.mpr hhead),
          (Option.some.inj (Except.ok.inj h)).symm⟩
      · rintro ⟨-, -, rfl⟩
        rfl
    · rename_i hparts
      exact ⟨fun h => (by cases h),
        fun ⟨hadmitted, _, _⟩ => absurd hadmitted.parts hparts⟩
  · rw [getParts_of_not_filled hfilled]
    exact ⟨fun h => (by cases h),
      fun ⟨hadmitted, _, _⟩ => absurd hadmitted.filled hfilled⟩

theorem getParts_fault_iff {text : Str} :
    (∃ fault, getParts text = .error fault) ↔
      Filled text ∧ (lastLine text).head? = some '#' := by
  by_cases hfilled : Filled text
  · have hhash := cutComment_eq_nil_iff hfilled.lastLine.2
    rw [getParts_of_filled hfilled]
    split
    · rename_i hcut
      exact ⟨fun _ => ⟨hfilled, hhash.mp hcut⟩, fun _ => ⟨_, rfl⟩⟩
    rename_i hcut
    have hno : ¬(Filled text ∧ (lastLine text).head? = some '#') :=
      fun h => hcut (hhash.mpr h.2)
    split
    · exact ⟨fun ⟨_, h⟩ => (by cases h), fun h => absurd h hno⟩
    split
    · exact ⟨fun ⟨_, h⟩ => (by cases h), fun h => absurd h hno⟩
    · exact ⟨fun ⟨_, h⟩ => (by cases h), fun h => absurd h hno⟩
  · rw [getParts_of_not_filled hfilled]
    exact ⟨fun ⟨_, h⟩ => (by cases h), fun h => absurd h.1 hfilled⟩

section Dangling

variable {W : Type} [Os W] {world : W} {numbs : Nat → Int}

/-- A reading whose next access is out of range. -/
inductive Reading.Dangling (world : W) (numbs : Nat → Int) : Reading → Prop
  /-- A server block starts with its brace. -/
  | brace {servers : List ServerBlock} {rest : Str} {more : List Str} :
      Dangling world numbs ⟨servers, .between, ('{' :: rest) :: more⟩
  /-- An open block is followed by a part without a word. -/
  | blank {servers : List ServerBlock} {place : Nesting} {line : Str}
      {rest : List Str} : place ≠ .between → words line = [] →
      Dangling world numbs ⟨servers, place, line :: rest⟩
  /-- No part is left in an open block. -/
  | ended {servers : List ServerBlock} {place : Nesting} :
      place ≠ .between → Dangling world numbs ⟨servers, place, []⟩
  /-- A directive of an open block is the last part. -/
  | directive {servers : List ServerBlock} {server : ServerBlock}
      {line word : Str} {args : List Str} :
      words line = word :: args → word.head? ≠ some '}' →
      word ≠ "location".toList →
      (serverDirective world (numbs 1) server (word :: args)).isSome = true →
      Dangling world numbs ⟨servers, .inside server, [line]⟩
  | routeDirective {servers : List ServerBlock} {server : ServerBlock}
      {route : RouteBlock} {line word : Str} {args : List Str} :
      words line = word :: args → word.head? ≠ some '}' →
      (routeDirective world route (word :: args)).isSome = true →
      Dangling world numbs ⟨servers, .location server route, [line]⟩

theorem checkLine_error_iff {line : Str} {fault : Fault} :
    checkLine line = .error fault ↔
      fault = .badSlot ∧ ∃ rest, line = '{' :: rest := by
  by_cases hmem : '{' ∈ line
  · obtain ⟨front, back, rfl, hfront⟩ := List.eq_append_cons_of_mem hmem
    rw [checkLine_append hfront]
    by_cases hnil : front = []
    · subst hnil
      constructor
      · intro h
        exact ⟨(Except.error.inj h).symm, back, rfl⟩
      · rintro ⟨rfl, -⟩
        rfl
    · rw [if_neg hnil]
      constructor
      · intro h
        split at h <;> cases h
      · rintro ⟨-, rest, hrest⟩
        obtain ⟨c, tail, rfl⟩ := List.exists_cons_of_ne_nil hnil
        obtain rfl := (List.cons.inj hrest).1
        exact absurd List.mem_cons_self hfront
  · unfold checkLine
    rw [splitBrace_none hmem]
    constructor
    · intro h
      cases h
    · rintro ⟨-, rest, rfl⟩
      exact absurd List.mem_cons_self hmem

theorem checkFirstLine_error_iff {list : List Str} {fault : Fault} :
    checkFirstLine list = .error fault ↔ fault = .badSlot ∧ list = [] := by
  unfold checkFirstLine
  split
  · exact ⟨fun h => ⟨(Except.error.inj h).symm, rfl⟩, fun ⟨h, _⟩ => h ▸ rfl⟩
  · split
    · exact ⟨fun h => (by cases h), fun ⟨_, h⟩ => (by cases h)⟩
    split
    · split
      · exact ⟨fun h => (by cases h), fun ⟨_, h⟩ => (by cases h)⟩
      split <;> exact ⟨fun h => (by cases h), fun ⟨_, h⟩ => (by cases h)⟩
    · exact ⟨fun h => (by cases h), fun ⟨_, h⟩ => (by cases h)⟩

theorem Reading.behindDirective_outside_iff {reading : Reading}
    {rest : List Str} {result : Option (Nesting × Bool)} :
    reading.behindDirective rest result = .halt .outside ↔
      rest = [] ∧ result.isSome = true := by
  cases result with
  | none => simp [behindDirective]
  | some result =>
      obtain ⟨place, status⟩ := result
      by_cases hrest : rest = []
      · simp [behindDirective, hrest]
      · rw [behindDirective_next hrest]
        cases status <;> simp [hrest]

theorem Reading.openMove_outside_iff {reading : Reading}
    {server : ServerBlock} {line : Str} {rest : List Str} :
    reading.openMove server line rest = .halt .outside ↔ words line = [] := by
  unfold openMove
  cases hfirst : checkFirstLine (words line) with
  | error fault => simpa using (checkFirstLine_error_iff.mp hfirst).2
  | ok first =>
      have hne : words line ≠ [] := by
        intro hnil
        rw [hnil] at hfirst
        cases hfirst
      cases first <;> simp [hne]

theorem Reading.closeServer_ne_outside {reading : Reading}
    {server : ServerBlock} {parts : List Str} :
    reading.closeServer server parts ≠ .halt .outside := by
  unfold closeServer
  simp only
  split <;> simp

theorem Reading.move_outside_iff {reading : Reading} :
    reading.move world numbs = .halt .outside ↔
      reading.Dangling world numbs := by
  constructor
  · intro h
    obtain ⟨servers, place, parts⟩ := reading
    cases parts with
    | nil =>
        cases place with
        | between => cases h
        | inside server => exact .ended (by simp)
        | behind server => exact .ended (by simp)
        | location server route => exact .ended (by simp)
    | cons line rest =>
        cases place with
        | between =>
            change betweenMove _ line rest = _ at h
            unfold betweenMove at h
            split at h
            · cases h
            split at h
            · rename_i hline
              obtain ⟨-, more, rfl⟩ := checkLine_error_iff.mp hline
              exact .brace
            · cases h
            · cases h
        | inside server =>
            change insideMove world numbs _ server line rest = _ at h
            unfold insideMove at h
            split at h
            · exact .blank (by simp) ‹_›
            rename_i word args hwords
            split at h
            · split at h
              · split at h
                · exact absurd h closeServer_ne_outside
                · cases h
              · exact absurd h closeServer_ne_outside
            rename_i hclose
            split at h
            · rw [openMove_outside_iff.mp h] at hwords
              cases hwords
            · rename_i hlocation
              obtain ⟨rfl, hsome⟩ := behindDirective_outside_iff.mp h
              rw [Option.isSome_map] at hsome
              exact .directive hwords hclose hlocation hsome
        | behind server =>
            exact .blank (by simp) (openMove_outside_iff.mp h)
        | location server route =>
            change locationMove world _ server route line rest = _ at h
            unfold locationMove at h
            split at h
            · exact .blank (by simp) ‹_›
            rename_i word args hwords
            split at h
            · split at h <;> cases h
            · rename_i hclose
              obtain ⟨rfl, hsome⟩ := behindDirective_outside_iff.mp h
              rw [Option.isSome_map] at hsome
              exact .routeDirective hwords hclose hsome
  · intro h
    cases h with
    | brace =>
        rename_i servers rest more
        change betweenMove ⟨servers, .between, _⟩ ('{' :: rest) more = _
        unfold betweenMove
        have hwords : words ('{' :: rest) ≠ [] := by
          intro hnil
          have hflat := flatten_words ('{' :: rest)
          rw [hnil] at hflat
          simp [isspace] at hflat
        rw [if_neg hwords,
          checkLine_error_iff.mpr ⟨(rfl : Fault.badSlot = .badSlot), rest, rfl⟩]
    | blank hplace hwords =>
        rename_i servers place line rest
        cases place with
        | between => exact absurd rfl hplace
        | inside server =>
            change insideMove world numbs _ server line rest = _
            unfold insideMove
            rw [hwords]
        | behind server => exact openMove_outside_iff.mpr hwords
        | location server route =>
            change locationMove world _ server route line rest = _
            unfold locationMove
            rw [hwords]
    | ended hplace =>
        rename_i servers place
        cases place with
        | between => exact absurd rfl hplace
        | inside server => rfl
        | behind server => rfl
        | location server route => rfl
    | directive hwords hclose hlocation hsome =>
        change insideMove world numbs _ _ _ _ = _
        unfold insideMove
        simp only [hwords]
        rw [if_neg hclose, if_neg hlocation]
        exact behindDirective_outside_iff.mpr
          ⟨rfl, by rw [Option.isSome_map]; exact hsome⟩
    | routeDirective hwords hclose hsome =>
        change locationMove world _ _ _ _ _ = _
        unfold locationMove
        simp only [hwords]
        rw [if_neg hclose]
        exact behindDirective_outside_iff.mpr
          ⟨rfl, by rw [Option.isSome_map]; exact hsome⟩

theorem halts_outside_iff {reading : Reading} :
    Halts (move world numbs) reading .outside ↔
      ∃ last, Steps (move world numbs) reading last ∧
        last.Dangling world numbs := by
  rw [halts_iff]
  simp only [move_outside_iff]

/-- The parser faults exactly where the reader runs off. -/
theorem setServer_fault_iff {parts : List Str} :
    (∃ fault, setServer world numbs parts = .error fault) ↔
      ∃ world', setDefaultPage world = (world', true) ∧
        Halts (move world' numbs) (start parts) .outside := by
  cases hpage : setDefaultPage world with
  | mk world' found =>
      cases found with
      | false =>
          have hrun : setServer world numbs parts =
              .ok (world', { status := false }) := by
            unfold setServer
            rw [hpage]
            rfl
          rw [hrun]
          simp
      | true =>
          obtain ⟨result, hresult, hconcludes⟩ :=
            @setServer_concludes W _ numbs world world' parts hpage
          rw [hresult]
          cases result with
          | error fault =>
              cases fault with
              | badSlot =>
                  exact ⟨fun _ => ⟨world', rfl, hconcludes⟩, fun _ => ⟨_, rfl⟩⟩
              | outOfRange => cases hconcludes
              | diverges => cases hconcludes
          | ok conf =>
              constructor
              · rintro ⟨fault, hfault⟩
                cases hfault
              · rintro ⟨other, hsame, houtside⟩
                obtain ⟨rfl, -⟩ := Prod.mk.inj hsame
                obtain ⟨-, -, hhalts⟩ | ⟨-, hhalts⟩ := hconcludes
                · cases hhalts.unique houtside
                · cases hhalts.unique houtside

/-- A file is read in bounds exactly if no comment starts its last full line,
unless that is its first line, and the reader of its parts comes to no
dangling reading. -/
theorem configure_inBounds_iff (world : W) (numbs : Nat → Int) (text : Str) :
    (∀ fault, configure world numbs text ≠ .error fault) ↔
      ¬(Filled text ∧ (lastLine text).head? = some '#') ∧
        (Admitted text → ∀ world', setDefaultPage world = (world', true) →
          ∀ reading, Steps (move world' numbs)
            (start (getpieces (gluedText text))) reading →
              ¬reading.Dangling world' numbs) := by
  have hnot : (∀ fault, configure world numbs text ≠ .error fault) ↔
      ¬∃ fault, configure world numbs text = .error fault := by
    simp
  rw [hnot]
  by_cases hhash : Filled text ∧ (lastLine text).head? = some '#'
  · obtain ⟨fault, hfault⟩ := getParts_fault_iff.mpr hhash
    have hrun : configure world numbs text = .error fault := by
      unfold configure
      rw [hfault]
      rfl
    simp [hhash, hrun]
  · rw [not_iff_comm, not_and_or, not_not, or_iff_right hhash]
    cases hparts : getParts text with
    | error fault => exact absurd (getParts_fault_iff.mp ⟨fault, hparts⟩) hhash
    | ok found =>
        cases found with
        | none =>
            have hno : ¬Admitted text := by
              intro hadmitted
              have hsome := getParts_eq_some_iff.mpr ⟨hadmitted,
                fun hhead => hhash ⟨hadmitted.filled, hhead⟩, rfl⟩
              rw [hparts] at hsome
              cases hsome
            have hrun := @configure_of_none W _ world numbs text hparts
            simp [hno, hrun]
        | some parts =>
            obtain ⟨hadmitted, -, rfl⟩ := getParts_eq_some_iff.mp hparts
            have hrun : (∃ fault, configure world numbs text =
                .error fault) ↔ ∃ fault, setServer world numbs
                  (getpieces (gluedText text)) = .error fault := by
              unfold configure
              rw [hparts]
              change (∃ fault, (setServer world numbs
                (getpieces (gluedText text)) >>= _) = .error fault) ↔ _
              cases setServer world numbs (getpieces (gluedText text)) with
              | error fault =>
                  exact ⟨fun _ => ⟨fault, rfl⟩, fun _ => ⟨fault, rfl⟩⟩
              | ok result =>
                  constructor
                  · rintro ⟨fault, hfault⟩
                    cases hfault
                  · rintro ⟨fault, hfault⟩
                    cases hfault
            rw [hrun, setServer_fault_iff]
            simp only [halts_outside_iff]
            constructor
            · intro h
              by_contra hno
              exact h fun _ world' hpage reading hsteps hdangling =>
                hno ⟨world', hpage, reading, hsteps, hdangling⟩
            · rintro ⟨world', hpage, reading, hsteps, hdangling⟩ hall
              exact hall hadmitted world' hpage reading hsteps hdangling

end Dangling

/-- A server block that is not closed. -/
def openText : Str := "\nserver \x7b listen 80\n".toList

theorem configure_openText :
    ¬∀ fault, configure pageDisk (fun _ => 0) openText ≠ .error fault := by
  intro hall
  obtain ⟨world', hpage⟩ := setDefaultPage_pageDisk
  have hparts : getParts openText =
      .ok (some ["server \x7b listen 80".toList]) := by decide
  have hloop : setServerLoop world' (fun _ => 0)
      (turns ["server \x7b listen 80".toList]) {}
        ⟨["server \x7b listen 80".toList], 0⟩ = .error .badSlot := rfl
  refine hall .badSlot ?_
  rw [configure_of_parts hparts hpage, hloop]
  rfl

end Webserv
