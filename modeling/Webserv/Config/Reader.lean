import Webserv.Coding.Words
import Webserv.Config.Blocks
import Webserv.Machine.Halting

namespace Webserv

open Cxx Coding Machine

/-! What the four loops of the configuration parser do together: a reader
that takes one directive or one brace in each move. -/

inductive Nesting
  /-- Where a server block can start. -/
  | between
  | inside (server : ServerBlock)
  /-- In a server block, right behind a location. -/
  | behind (server : ServerBlock)
  | location (server : ServerBlock) (route : RouteBlock)
  deriving DecidableEq, Repr

structure Reading where
  servers : List ServerBlock
  place : Nesting
  parts : List Str
  deriving DecidableEq, Repr

inductive Verdict
  | accepted (servers : List ServerBlock)
  | rejected
  /-- A part or a word is read that is not there. -/
  | outside
  deriving DecidableEq, Repr

namespace Reading

abbrev Next := Move Reading Verdict

def start (parts : List Str) : Reading :=
  { servers := [], place := .between, parts := parts }

def behindDirective (reading : Reading) (rest : List Str) :
    Option (Nesting × Bool) → Next
  | none => .halt .rejected
  | some (place, status) =>
      if rest = [] then .halt .outside
      else if status = false then .halt .rejected
      else .step { reading with place := place, parts := rest }

def betweenMove (reading : Reading) (line : Str) (rest : List Str) : Next :=
  if words line = [] then .halt (.accepted reading.servers)
  else
    match checkLine line with
    | .error _ => .halt .outside
    | .ok none => .halt .rejected
    | .ok (some text) =>
        .step { reading with place := .inside {}, parts := text :: rest }

def openMove (reading : Reading) (server : ServerBlock) (line : Str)
    (rest : List Str) : Next :=
  match checkFirstLine (words line) with
  | .error _ => .halt .outside
  | .ok .ends => .step { reading with place := .inside server }
  | .ok .invalid => .halt .rejected
  | .ok (.opens uri text) =>
      .step { reading with
        place := .location server { uri := uri }, parts := text :: rest }

def closeServer (reading : Reading) (server : ServerBlock)
    (parts : List Str) : Next :=
  let (server, status) := server.checkStatus
  if status = false then .halt .rejected
  else
    .step ⟨reading.servers ++ [server], .between, parts⟩

section Move

variable {W : Type} [Os W]

def insideMove (world : W) (numbs : Nat → Int) (reading : Reading)
    (server : ServerBlock) (line : Str) (rest : List Str) : Next :=
  match words line with
  | [] => .halt .outside
  | word :: args =>
      if word.head? = some '}' then
        if word = "\x7d".toList ∧ args = [] then
          if rest = [] then reading.closeServer server [[' ']]
          else .halt .rejected
        else reading.closeServer server (behindBrace word args :: rest)
      else if word = "location".toList then
        reading.openMove server line rest
      else
        reading.behindDirective rest
          ((serverDirective world (numbs (rest.length + 1)) server
            (word :: args)).map fun (server, status) =>
              (.inside server, status))

def locationMove (world : W) (reading : Reading) (server : ServerBlock)
    (route : RouteBlock) (line : Str) (rest : List Str) : Next :=
  match words line with
  | [] => .halt .outside
  | word :: args =>
      if word.head? = some '}' then
        if word = "\x7d".toList ∧ args = [] then .halt .rejected
        else
          .step { reading with
            place := .behind
              { server with routes := server.routes ++ [route] }
            parts := behindBrace word args :: rest }
      else
        reading.behindDirective rest
          ((routeDirective world route (word :: args)).map
            fun (route, status) => (.location server route, status))

def move (world : W) (numbs : Nat → Int) (reading : Reading) : Next :=
  match reading.place, reading.parts with
  | .between, [] => .halt (.accepted reading.servers)
  | .between, line :: rest => reading.betweenMove line rest
  | .inside server, line :: rest =>
      reading.insideMove world numbs server line rest
  | .behind server, line :: rest => reading.openMove server line rest
  | .location server route, line :: rest =>
      reading.locationMove world server route line rest
  | _, [] => .halt .outside

end Move

end Reading

/-! The words of the parts that are rewritten. -/

theorem words_append_spaceBefore {word : Str} {rest : List Str}
    (hword : SolidWord word) (hrest : ∀ other ∈ rest, SolidWord other) :
    words (word ++ spaceBefore rest) = word :: rest := by
  induction rest generalizing word with
  | nil => simp [spaceBefore, hword.words_eq]
  | cons next rest ih =>
      have hnext := ih (hrest next List.mem_cons_self)
        fun other hother => hrest other (List.mem_cons_of_mem _ hother)
      have htext : spaceBefore (next :: rest) =
          ' ' :: (next ++ spaceBefore rest) := rfl
      rw [htext, words_append_space _ _ (by decide), hword.words_eq, hnext]
      rfl

theorem words_spaceBefore {list : List Str}
    (h : ∀ word ∈ list, SolidWord word) : words (spaceBefore list) = list := by
  cases list with
  | nil => exact words_nil
  | cons word rest =>
      have htext : spaceBefore (word :: rest) =
          ' ' :: (word ++ spaceBefore rest) := rfl
      rw [htext, words_space_cons _ (by decide)]
      exact words_append_spaceBefore (h word List.mem_cons_self)
        fun other hother => h other (List.mem_cons_of_mem _ hother)

theorem words_spaceBehind {list : List Str}
    (h : ∀ word ∈ list, SolidWord word) : words (spaceBehind list) = list := by
  induction list with
  | nil => exact words_nil
  | cons word rest ih =>
      have htext : spaceBehind (word :: rest) =
          word ++ ' ' :: spaceBehind rest := by
        simp [spaceBehind]
      rw [htext, words_append_space _ _ (by decide),
        (h word List.mem_cons_self).words_eq,
        ih fun other hother => h other (List.mem_cons_of_mem _ hother)]
      rfl

/-- The words behind the brace that the first word starts with. -/
def behindWords (word : Str) (args : List Str) : List Str :=
  if 1 < word.length then word.tail :: args else args

theorem words_behindBrace {word : Str} {args : List Str}
    (h : ∀ other ∈ word :: args, SolidWord other) :
    words (behindBrace word args) = behindWords word args := by
  have hargs : ∀ other ∈ args, SolidWord other := fun other hother =>
    h other (List.mem_cons_of_mem _ hother)
  unfold behindBrace behindWords
  by_cases hlength : 1 < word.length
  · rw [if_pos hlength, if_pos hlength]
    refine words_spaceBehind fun other hother => ?_
    cases List.mem_cons.mp hother with
    | inl hsame =>
        subst hsame
        refine ⟨?_, fun c hc =>
          (h word List.mem_cons_self).noSpace c (List.mem_of_mem_tail hc)⟩
        rw [← List.length_pos_iff, List.length_tail]
        omega
    | inr hmem => exact hargs other hmem
  · rw [if_neg hlength, if_neg hlength]
    have htext : spaceBehind ([' '] :: args) =
        ' ' :: ' ' :: spaceBehind args := rfl
    rw [htext, words_space_cons _ (by decide),
      words_space_cons _ (by decide), words_spaceBehind hargs]

theorem solid_behindBrace {line word : Str} {args : List Str}
    (h : words line = word :: args) :
    solid (behindBrace word args) < solid line := by
  have hsolid : ∀ other ∈ word :: args, SolidWord other := fun other hother =>
    solidWord_of_mem_words (h ▸ hother)
  have hne := (hsolid word List.mem_cons_self).ne_nil
  have hpos := List.length_pos_iff.mpr hne
  rw [solid_eq_sum, solid_eq_sum line, h, words_behindBrace hsolid,
    behindWords]
  by_cases hlength : 1 < word.length
  · simp [hlength]
    omega
  · simp [hlength]
    omega

theorem checkFirstLine_other {word : Str} (args : List Str)
    (hname : word ≠ "location".toList) (hbrace : word ≠ "location\x7b".toList) :
    checkFirstLine (word :: args) = .ok .ends := by
  unfold checkFirstLine
  simp only
  rw [if_pos ⟨hname, hbrace⟩]

theorem checkFirstLine_opens {list : List Str} {uri text : Str}
    (h : checkFirstLine list = .ok (.opens uri text)) :
    ∃ word front first rest, list = word :: front ++ first :: rest ∧
      (word = "location".toList ∨ word = "location\x7b".toList) ∧
      (front = [uri, "\x7b".toList] ∨ front = [uri ++ ['{']]) ∧
      hasBrace uri = false ∧ uri.head? = some '/' ∧
      text = spaceBefore (first :: rest) := by
  unfold checkFirstLine at h
  split at h
  · cases h
  rename_i word args
  split at h
  · cases h
  rename_i hname
  have hword : word = "location".toList ∨ word = "location\x7b".toList := by
    by_contra hother
    exact hname (not_or.mp hother)
  split at h
  rotate_left
  · cases h
  rename_i given brace first rest
  have hopen : ∀ {address : Str} {more : List Str},
      openLocation address more = .opens uri text →
        address = uri ∧ hasBrace uri = false ∧ uri.head? = some '/' ∧
          text = spaceBefore more := by
    intro address more hopen
    unfold openLocation at hopen
    split at hopen
    · cases hopen
    split at hopen
    · cases hopen
    · rename_i hbrace hslash
      obtain ⟨rfl, rfl⟩ := FirstLine.opens.inj hopen
      exact ⟨rfl, by simpa using hbrace, by simpa using hslash, rfl⟩
  split at h
  · rename_i hlast
    obtain ⟨huri, hbrace, hslash, htext⟩ := hopen (Except.ok.inj h)
    refine ⟨word, [uri ++ ['{']], brace, first :: rest, ?_, hword, .inr rfl,
      hbrace, hslash, htext⟩
    rw [← huri, List.dropLast_append_getLast? _ hlast]
    rfl
  split at h
  · cases h
  · rename_i hbraceWord
    obtain ⟨huri, hbrace, hslash, htext⟩ := hopen (Except.ok.inj h)
    refine ⟨word, [uri, "\x7b".toList], first, rest, ?_, hword, .inl rfl, hbrace,
      hslash, htext⟩
    rw [huri, not_not.mp hbraceWord]
    rfl

theorem solid_openLocation {line uri text : Str}
    (h : checkFirstLine (words line) = .ok (.opens uri text)) :
    solid text < solid line := by
  obtain ⟨word, front, first, rest, hwords, hname, -, -, -, rfl⟩ :=
    checkFirstLine_opens h
  have hsolid : ∀ other ∈ first :: rest, SolidWord other :=
    fun other hother => @solidWord_of_mem_words line _ (by
      rw [hwords]
      exact List.mem_append_right _ hother)
  have hpos : 0 < word.length := by
    cases hname with
    | inl hword => rw [hword]; decide
    | inr hword => rw [hword]; decide
  rw [solid_eq_sum, solid_eq_sum line, words_spaceBefore hsolid, hwords]
  simp only [List.map_append, List.sum_append, List.map_cons, List.sum_cons]
  omega

theorem splitBrace_none {line : Str} (h : '{' ∉ line) :
    splitBrace line = [line] := by
  have hnone : search? ['{'] line = none :=
    search?_eq_none_iff.mpr fun hoccurs =>
      h (hoccurs.subset List.mem_cons_self)
  rw [splitBrace, hnone]

theorem splitBrace_some {front : Str} (h : '{' ∉ front) (back : Str) :
    splitBrace (front ++ '{' :: back) = [front, back] := by
  rw [splitBrace, search?_first h]
  simp

theorem checkLine_append {front : Str} (h : '{' ∉ front) (back : Str) :
    checkLine (front ++ '{' :: back) =
      if front = [] then .error .badSlot
      else if trimBy (· = ' ') front = "server".toList then
        .ok (some (' ' :: back))
      else .ok none := by
  unfold checkLine
  rw [splitBrace_some h]
  unfold trimstr
  simp only
  by_cases hfront : front = []
  · rw [if_pos hfront, if_pos hfront]
    rfl
  · rw [if_neg hfront, if_neg hfront]
    change (if trimBy (· = ' ') front ≠ "server".toList then _ else _) = _
    by_cases hserver : trimBy (· = ' ') front = "server".toList
    · rw [if_neg (not_not.mpr hserver), if_pos hserver]
      rfl
    · rw [if_pos hserver, if_neg hserver]
      rfl

theorem checkLine_eq_ok {line : Str} {text : Option Str}
    (h : checkLine line = .ok text) (hsome : text ≠ none) :
    ∃ front back, line = front ++ '{' :: back ∧ '{' ∉ front ∧
      trimBy (· = ' ') front = "server".toList ∧ text = some (' ' :: back) := by
  by_cases hmem : '{' ∈ line
  · obtain ⟨front, back, rfl, hfront⟩ := List.eq_append_cons_of_mem hmem
    rw [checkLine_append hfront] at h
    split at h
    · cases h
    split at h
    · rename_i hserver
      exact ⟨front, back, rfl, hfront, hserver, (Except.ok.inj h).symm⟩
    · exact absurd (Except.ok.inj h).symm hsome
  · unfold checkLine at h
    rw [splitBrace_none hmem] at h
    exact absurd (Except.ok.inj h).symm hsome

theorem solid_checkLine {line text : Str}
    (h : checkLine line = .ok (some text)) : solid text < solid line := by
  obtain ⟨front, back, rfl, -, -, htext⟩ := checkLine_eq_ok h (by simp)
  obtain rfl := Option.some.inj htext
  simp only [solid, List.countP_append, List.countP_cons, isspace]
  simp
  omega

/-! The moves, one rule for each of them. -/

section Moves

variable {W : Type} [Os W] {world : W} {numbs : Nat → Int}

inductive Reading.Moves (world : W) (numbs : Nat → Int) :
    Reading → Reading → Prop
  | opens {servers : List ServerBlock} {line text : Str} {rest : List Str} :
      words line ≠ [] → checkLine line = .ok (some text) →
      Moves world numbs ⟨servers, .between, line :: rest⟩
        ⟨servers, .inside {}, text :: rest⟩
  | directive {servers : List ServerBlock} {server server' : ServerBlock}
      {line word : Str} {args rest : List Str} :
      words line = word :: args → word.head? ≠ some '}' →
      word ≠ "location".toList →
      serverDirective world (numbs (rest.length + 1)) server (word :: args) =
        some (server', true) → rest ≠ [] →
      Moves world numbs ⟨servers, .inside server, line :: rest⟩
        ⟨servers, .inside server', rest⟩
  | closes {servers : List ServerBlock} {server server' : ServerBlock}
      {line word : Str} {args rest : List Str} :
      words line = word :: args → word.head? = some '}' →
      ¬(word = "\x7d".toList ∧ args = []) →
      server.checkStatus = (server', true) →
      Moves world numbs ⟨servers, .inside server, line :: rest⟩
        ⟨servers ++ [server'], .between, behindBrace word args :: rest⟩
  | ends {servers : List ServerBlock} {server server' : ServerBlock}
      {line : Str} :
      words line = ["\x7d".toList] → server.checkStatus = (server', true) →
      Moves world numbs ⟨servers, .inside server, [line]⟩
        ⟨servers ++ [server'], .between, [[' ']]⟩
  | opensLocation {servers : List ServerBlock} {place : Nesting}
      {server : ServerBlock} {line uri text : Str} {rest : List Str} :
      place = .behind server ∨
        (place = .inside server ∧
          (words line).head? = some "location".toList) →
      checkFirstLine (words line) = .ok (.opens uri text) →
      Moves world numbs ⟨servers, place, line :: rest⟩
        ⟨servers, .location server { uri := uri }, text :: rest⟩
  | leaves {servers : List ServerBlock} {server : ServerBlock} {line : Str}
      {rest : List Str} :
      checkFirstLine (words line) = .ok .ends →
      Moves world numbs ⟨servers, .behind server, line :: rest⟩
        ⟨servers, .inside server, line :: rest⟩
  | routeDirective {servers : List ServerBlock} {server : ServerBlock}
      {route route' : RouteBlock} {line word : Str} {args rest : List Str} :
      words line = word :: args → word.head? ≠ some '}' →
      routeDirective world route (word :: args) = some (route', true) →
      rest ≠ [] →
      Moves world numbs ⟨servers, .location server route, line :: rest⟩
        ⟨servers, .location server route', rest⟩
  | closesLocation {servers : List ServerBlock} {server : ServerBlock}
      {route : RouteBlock} {line word : Str} {args rest : List Str} :
      words line = word :: args → word.head? = some '}' →
      ¬(word = "\x7d".toList ∧ args = []) →
      Moves world numbs ⟨servers, .location server route, line :: rest⟩
        ⟨servers,
          .behind { server with routes := server.routes ++ [route] },
          behindBrace word args :: rest⟩

theorem Reading.behindDirective_to {reading next : Reading}
    {rest : List Str} {result : Option (Nesting × Bool)}
    (h : reading.behindDirective rest result = .step next) :
    ∃ place, result = some (place, true) ∧ rest ≠ [] ∧
      next = { reading with place := place, parts := rest } := by
  unfold behindDirective at h
  split at h
  · cases h
  split at h
  · cases h
  split at h
  · cases h
  · rename_i hrest hstatus
    obtain rfl := Move.step.inj h
    rw [Bool.not_eq_false] at hstatus
    exact ⟨_, by rw [hstatus], hrest, rfl⟩

theorem Reading.closeServer_to {reading next : Reading}
    {server : ServerBlock} {parts : List Str}
    (h : reading.closeServer server parts = .step next) :
    ∃ server', server.checkStatus = (server', true) ∧
      next = ⟨reading.servers ++ [server'], .between, parts⟩ := by
  unfold closeServer at h
  cases hstatus : server.checkStatus with
  | mk server' status =>
      simp only [hstatus] at h
      split at h
      · cases h
      · rename_i htrue
        obtain rfl := Move.step.inj h
        rw [Bool.not_eq_false] at htrue
        exact ⟨server', by rw [htrue], rfl⟩

theorem Reading.openMove_to {reading next : Reading} {server : ServerBlock}
    {line : Str} {rest : List Str}
    (h : reading.openMove server line rest = .step next) :
    (checkFirstLine (words line) = .ok .ends ∧
      next = { reading with place := .inside server }) ∨
    ∃ uri text, checkFirstLine (words line) = .ok (.opens uri text) ∧
      next = { reading with
        place := .location server { uri := uri }, parts := text :: rest } := by
  unfold openMove at h
  split at h
  · cases h
  · rename_i hends
    exact .inl ⟨hends, (Move.step.inj h).symm⟩
  · cases h
  · rename_i hopens
    exact .inr ⟨_, _, hopens, (Move.step.inj h).symm⟩

theorem checkFirstLine_ends {list : List Str}
    (h : checkFirstLine list = .ok .ends) :
    ∃ word args, list = word :: args ∧ word ≠ "location".toList ∧
      word ≠ "location\x7b".toList := by
  unfold checkFirstLine at h
  split at h
  · cases h
  rename_i word args
  split at h
  · rename_i hname
    exact ⟨word, args, rfl, hname.1, hname.2⟩
  split at h
  · split at h
    · unfold openLocation at h
      split at h
      · cases h
      · split at h <;> cases h
    · split at h
      · cases h
      · unfold openLocation at h
        split at h
        · cases h
        · split at h <;> cases h
  · cases h

theorem Reading.moves_of_move {reading next : Reading}
    (h : reading.move world numbs = .step next) :
    Moves world numbs reading next := by
  obtain ⟨servers, place, parts⟩ := reading
  cases place with
  | between =>
      cases parts with
      | nil => cases h
      | cons line rest =>
          change betweenMove _ line rest = _ at h
          unfold betweenMove at h
          split at h
          · cases h
          rename_i hwords
          split at h
          · cases h
          · cases h
          · rename_i text hline
            obtain rfl := Move.step.inj h
            exact .opens hwords hline
  | inside server =>
      cases parts with
      | nil => cases h
      | cons line rest =>
          change insideMove world numbs _ server line rest = _ at h
          unfold insideMove at h
          split at h
          · cases h
          rename_i word args hwords
          split at h
          · rename_i hclose
            split at h
            · rename_i halone
              obtain ⟨rfl, rfl⟩ := halone
              split at h
              · rename_i hrest
                obtain ⟨server', hstatus, rfl⟩ := closeServer_to h
                subst hrest
                exact .ends hwords hstatus
              · cases h
            · rename_i halone
              obtain ⟨server', hstatus, rfl⟩ := closeServer_to h
              exact .closes hwords hclose halone hstatus
          rename_i hclose
          split at h
          · rename_i hlocation
            have hhead : (words line).head? = some "location".toList := by
              rw [hwords, hlocation]
              rfl
            obtain ⟨hends, -⟩ | ⟨uri, text, hopens, rfl⟩ := openMove_to h
            · obtain ⟨other, more, hother, hname, -⟩ :=
                checkFirstLine_ends hends
              rw [hwords] at hother
              exact absurd ((List.cons.inj hother).1.symm.trans hlocation)
                hname
            · exact .opensLocation (.inr ⟨rfl, hhead⟩) hopens
          · rename_i hlocation
            obtain ⟨place, hresult, hrest, rfl⟩ := behindDirective_to h
            obtain ⟨⟨server', status⟩, hdirective, hplace⟩ :=
              Option.map_eq_some_iff.mp hresult
            obtain ⟨rfl, rfl⟩ := Prod.mk.inj hplace
            exact .directive hwords hclose hlocation hdirective hrest
  | behind server =>
      cases parts with
      | nil => cases h
      | cons line rest =>
          obtain ⟨hends, rfl⟩ | ⟨uri, text, hopens, rfl⟩ := openMove_to h
          · exact .leaves hends
          · exact .opensLocation (.inl rfl) hopens
  | location server route =>
      cases parts with
      | nil => cases h
      | cons line rest =>
          change locationMove world _ server route line rest = _ at h
          unfold locationMove at h
          split at h
          · cases h
          rename_i word args hwords
          split at h
          · rename_i hclose
            split at h
            · cases h
            · rename_i halone
              obtain rfl := Move.step.inj h
              exact .closesLocation hwords hclose halone
          · rename_i hclose
            obtain ⟨place, hresult, hrest, rfl⟩ := behindDirective_to h
            obtain ⟨⟨route', status⟩, hdirective, hplace⟩ :=
              Option.map_eq_some_iff.mp hresult
            obtain ⟨rfl, rfl⟩ := Prod.mk.inj hplace
            exact .routeDirective hwords hclose hdirective hrest

theorem Reading.Moves.move {reading next : Reading}
    (h : Moves world numbs reading next) :
    reading.move world numbs = .step next := by
  cases h with
  | opens hwords hline =>
      change betweenMove _ _ _ = _
      unfold betweenMove
      rw [if_neg hwords, hline]
  | directive hwords hclose hlocation hdirective hrest =>
      change insideMove _ _ _ _ _ _ = _
      unfold insideMove
      simp only [hwords]
      rw [if_neg hclose, if_neg hlocation, hdirective, Option.map_some,
        behindDirective, if_neg hrest]
      rfl
  | closes hwords hclose halone hstatus =>
      change insideMove _ _ _ _ _ _ = _
      unfold insideMove closeServer
      simp only [hwords]
      rw [if_pos hclose, if_neg halone, hstatus]
      rfl
  | ends hwords hstatus =>
      change insideMove _ _ _ _ _ _ = _
      unfold insideMove closeServer
      simp only [hwords]
      rw [if_pos (by decide), if_pos trivial, hstatus]
      rfl
  | opensLocation hplace hopens =>
      obtain rfl | ⟨rfl, hhead⟩ := hplace
      · change openMove _ _ _ _ = _
        rw [openMove, hopens]
      · obtain ⟨args, hwords⟩ := List.head?_eq_some_iff.mp hhead
        change insideMove _ _ _ _ _ _ = _
        unfold insideMove
        simp only [hwords]
        rw [if_neg (by decide), if_pos trivial, openMove, hopens]
  | leaves hends =>
      change openMove _ _ _ _ = _
      rw [openMove, hends]
  | routeDirective hwords hclose hdirective hrest =>
      change locationMove _ _ _ _ _ _ = _
      unfold locationMove
      simp only [hwords]
      rw [if_neg hclose, hdirective, Option.map_some, behindDirective,
        if_neg hrest]
      rfl
  | closesLocation hwords hclose halone =>
      change locationMove _ _ _ _ _ _ = _
      unfold locationMove
      simp only [hwords]
      rw [if_pos hclose, if_neg halone]

def extent (parts : List Str) : Nat := (parts.map solid).sum + parts.length

@[simp] theorem extent_nil : extent [] = 0 := rfl

@[simp] theorem extent_cons (line : Str) (rest : List Str) :
    extent (line :: rest) = solid line + 1 + extent rest := by
  simp [extent]
  omega

/-- The moves make the text shorter, or leave a location behind. -/
def Reading.size (reading : Reading) : Nat :=
  2 * extent reading.parts +
    match reading.place with
    | .behind _ => 1
    | _ => 0

theorem Reading.Moves.size_lt {reading next : Reading}
    (h : Moves world numbs reading next) : next.size < reading.size := by
  cases h with
  | opens _ hline =>
      have hless := solid_checkLine hline
      simp only [size, extent_cons]
      omega
  | directive =>
      simp only [size, extent_cons]
      omega
  | closes hwords =>
      have hless := solid_behindBrace hwords
      simp only [size, extent_cons]
      omega
  | ends hwords =>
      rename_i line _
      have hblank : solid [' '] = 0 := by decide
      have hbrace : solid line = 1 := by
        rw [solid_eq_sum, hwords]
        rfl
      simp only [size, extent_cons, extent_nil, hblank, hbrace]
      decide
  | opensLocation hplace hopens =>
      have hless := solid_openLocation hopens
      simp only [size, extent_cons]
      omega
  | leaves =>
      simp only [size]
      omega
  | routeDirective =>
      simp only [size, extent_cons]
      omega
  | closesLocation hwords =>
      have hless := solid_behindBrace hwords
      simp only [size, extent_cons]
      omega

theorem Reading.size_lt_of_move {reading next : Reading}
    (h : reading.move world numbs = .step next) : next.size < reading.size :=
  (moves_of_move h).size_lt

theorem Reading.exists_halts (world : W) (numbs : Nat → Int)
    (reading : Reading) : ∃ verdict, Halts (move world numbs) reading verdict :=
  Machine.exists_halts (fun _ _ => size_lt_of_move) reading

end Moves

end Webserv
