import Webserv.Config.Reader

namespace Webserv

open Cxx Coding Machine Reading

/-! The loops of the parser, with their cursor, take the moves of the
reader. -/

namespace Cursor

/-- What is in front of the cursor. -/
def parts (cursor : Cursor) : List Str := cursor.lines.drop cursor.i

variable {cursor : Cursor} {text : Str} {rest : List Str}

theorem length_parts (cursor : Cursor) :
    cursor.parts.length = cursor.lines.length - cursor.i := List.length_drop

theorem line_cons (h : cursor.parts = text :: rest) :
    cursor.line = .ok text := by
  have hget : cursor.lines[cursor.i]? = some text := by
    have hhead := congrArg List.head? h
    rwa [parts, List.head?_drop] at hhead
  rw [line, hget]

theorem line_nil (h : cursor.parts = []) : cursor.line = .error .badSlot := by
  have hget : cursor.lines[cursor.i]? = none := by
    have hhead := congrArg List.head? h
    rwa [parts, List.head?_drop] at hhead
  rw [line, hget]

theorem getWords_cons (h : cursor.parts = text :: rest) :
    cursor.getWords = .ok (words text) := by
  rw [getWords, line_cons h]
  rfl

theorem getWords_nil (h : cursor.parts = []) :
    cursor.getWords = .error .badSlot := by
  rw [getWords, line_nil h]
  rfl

theorem next_parts (h : cursor.parts = text :: rest) :
    cursor.next.parts = rest := by
  have htail := congrArg List.tail h
  rwa [parts, List.tail_drop] at htail

theorem setLine_parts (h : cursor.parts = text :: rest) (text' : Str) :
    (cursor.setLine text').parts = text' :: rest := by
  have hlt : cursor.i < cursor.lines.length := by
    have hlength := cursor.length_parts
    rw [h, List.length_cons] at hlength
    omega
  have hnext := next_parts h
  unfold next parts at hnext
  simp only at hnext
  unfold setLine parts
  simp only
  rw [List.drop_eq_getElem_cons (by simpa using hlt), List.getElem_set_self,
    List.drop_set_of_lt (by omega), hnext]

theorem i_lt (h : cursor.parts = text :: rest) :
    cursor.i < cursor.lines.length := by
  have hlength := cursor.length_parts
  rw [h, List.length_cons] at hlength
  omega

end Cursor

section Refinement

variable {W : Type} [Os W] {world : W} {numbs : Nat → Int} {α : Type}

/-- A call that starts at a reading ends where the reader gets to, with the
cursor on a part. -/
def Follows (world : W) (numbs : Nat → Int) (reading : Reading)
    (reached : α → List Str → Prop) :
    Except Fault (α × Cursor × Bool) → Prop
  | .ok (value, cursor, true) =>
      cursor.parts ≠ [] ∧ reached value cursor.parts
  | .ok (_, cursor, false) =>
      cursor.parts ≠ [] ∧ Halts (move world numbs) reading .rejected
  | .error .badSlot => Halts (move world numbs) reading .outside
  | .error _ => False

theorem Follows.steps {reading next : Reading}
    {reached reached' : α → List Str → Prop}
    {result : Except Fault (α × Cursor × Bool)}
    (h : Follows world numbs next reached result)
    (hsteps : Steps (move world numbs) reading next)
    (hreached : ∀ value parts, reached value parts → reached' value parts) :
    Follows world numbs reading reached' result := by
  cases result with
  | error fault =>
      cases fault with
      | badSlot => exact hsteps.halts h
      | outOfRange => exact h
      | diverges => exact h
  | ok value =>
      obtain ⟨value, cursor, status⟩ := value
      cases status with
      | false => exact ⟨h.1, hsteps.halts h.2⟩
      | true => exact ⟨h.1, hreached _ _ h.2⟩

theorem Follows.error {β : Type} {reading next : Reading} {fault : Fault}
    {reached : α → List Str → Prop}
    (h : Follows world numbs next reached (.error fault))
    (hmove : move world numbs reading = .step next)
    (reached' : β → List Str → Prop) :
    Follows world numbs reading reached' (.error fault) := by
  cases fault with
  | badSlot => exact Halts.step hmove h
  | outOfRange => exact h
  | diverges => exact h

theorem Follows.step {reading next : Reading}
    {reached reached' : α → List Str → Prop}
    {result : Except Fault (α × Cursor × Bool)}
    (h : Follows world numbs next reached result)
    (hmove : move world numbs reading = .step next)
    (hreached : ∀ value parts, reached value parts → reached' value parts) :
    Follows world numbs reading reached' result :=
  h.steps (.single hmove) hreached

theorem behindDirective_next {reading : Reading} {rest : List Str}
    {place : Nesting} {status : Bool} (hrest : rest ≠ []) :
    reading.behindDirective rest (some (place, status)) =
      if status = false then .halt .rejected
      else .step { reading with place := place, parts := rest } := by
  rw [behindDirective, if_neg hrest]

theorem fillRestLoop_stops {fuel : Nat} (server : ServerBlock)
    {cursor : Cursor} {line : Str} {rest : List Str} (list : List Str)
    (hparts : cursor.parts = line :: rest) (hfuel : 0 < fuel) :
    fillRestLoop world numbs fuel server cursor list false =
      .ok (server, cursor, false) := by
  obtain ⟨fuel, rfl⟩ := Nat.exists_eq_succ_of_ne_zero hfuel.ne'
  unfold fillRestLoop
  rw [if_neg (Nat.not_le.mpr (Cursor.i_lt hparts)), if_pos rfl]

theorem fillRouteLoop_stops {fuel : Nat} (route : RouteBlock)
    {cursor : Cursor} {line : Str} {rest : List Str} (list : List Str)
    (hparts : cursor.parts = line :: rest) (hfuel : 0 < fuel) :
    fillRouteLoop world fuel route cursor list false =
      .ok (route, cursor, false) := by
  obtain ⟨fuel, rfl⟩ := Nat.exists_eq_succ_of_ne_zero hfuel.ne'
  unfold fillRouteLoop
  rw [if_neg (Nat.not_le.mpr (Cursor.i_lt hparts)), if_pos rfl]

theorem fillRouteLoop_follows {fuel : Nat} {servers : List ServerBlock}
    {server : ServerBlock} {route : RouteBlock} {cursor : Cursor} {line : Str}
    {rest : List Str} (hparts : cursor.parts = line :: rest)
    (hfuel : extent (line :: rest) ≤ fuel) :
    Follows world numbs ⟨servers, .location server route, line :: rest⟩
      (fun route' parts => Steps (move world numbs)
        ⟨servers, .location server route, line :: rest⟩
        ⟨servers, .behind { server with routes := server.routes ++ [route'] },
          parts⟩)
      (fillRouteLoop world fuel route cursor (words line) true) := by
  induction fuel generalizing route cursor line rest with
  | zero =>
      rw [extent_cons] at hfuel
      omega
  | succ fuel ih =>
      have hmove : move world numbs
          ⟨servers, .location server route, line :: rest⟩ =
            locationMove world ⟨servers, .location server route, line :: rest⟩
              server route line rest := rfl
      unfold locationMove at hmove
      have hhere : cursor.parts ≠ [] := by
        rw [hparts]
        exact List.cons_ne_nil _ _
      unfold fillRouteLoop
      rw [if_neg (Nat.not_le.mpr (Cursor.i_lt hparts)), if_neg (by decide)]
      cases hwords : words line with
      | nil =>
          rw [hwords] at hmove
          exact .halt hmove
      | cons word args =>
          rw [hwords] at hmove
          simp only at hmove ⊢
          by_cases hclose : word.head? = some '}'
          · rw [if_pos hclose] at hmove ⊢
            by_cases halone : word = "\x7d".toList ∧ args = []
            · rw [if_pos halone] at hmove ⊢
              exact ⟨hhere, .halt hmove⟩
            · rw [if_neg halone] at hmove ⊢
              have hset := Cursor.setLine_parts hparts (behindBrace word args)
              simp only [Follows, hset]
              exact ⟨List.cons_ne_nil _ _, .single hmove⟩
          · rw [if_neg hclose] at hmove ⊢
            cases hdirective : routeDirective world route (word :: args) with
            | none =>
                rw [hdirective] at hmove
                exact ⟨hhere, .halt hmove⟩
            | some result =>
                obtain ⟨route', status⟩ := result
                rw [hdirective] at hmove
                simp only [Option.map_some] at hmove ⊢
                have hnext := Cursor.next_parts hparts
                cases rest with
                | nil =>
                    rw [Cursor.getWords_nil hnext]
                    exact .halt hmove
                | cons line' rest' =>
                    rw [Cursor.getWords_cons hnext]
                    rw [behindDirective_next (List.cons_ne_nil _ _)] at hmove
                    rw [extent_cons, extent_cons] at hfuel
                    cases status with
                    | false =>
                        change Follows _ _ _ _ (fillRouteLoop world fuel
                          route' cursor.next (words line') false)
                        rw [fillRouteLoop_stops route' _ hnext (by omega)]
                        exact ⟨by rw [hnext]; exact List.cons_ne_nil _ _,
                          .halt hmove⟩
                    | true =>
                        have hrun := @ih route' cursor.next line' rest' hnext
                          (by rw [extent_cons]; omega)
                        exact hrun.step hmove fun _ _ hreached =>
                          hreached.head hmove

theorem fillRoute_follows {fuel : Nat} {servers : List ServerBlock}
    {server : ServerBlock} {route : RouteBlock} {cursor : Cursor} {line : Str}
    {rest : List Str} (hparts : cursor.parts = line :: rest)
    (hfuel : extent (line :: rest) ≤ fuel) :
    Follows world numbs ⟨servers, .location server route, line :: rest⟩
      (fun route' parts => Steps (move world numbs)
        ⟨servers, .location server route, line :: rest⟩
        ⟨servers, .behind { server with routes := server.routes ++ [route'] },
          parts⟩)
      (fillRoute world fuel route cursor) := by
  unfold fillRoute
  rw [Cursor.getWords_cons hparts]
  exact fillRouteLoop_follows hparts hfuel

def ServerBlock.addRoutes (server : ServerBlock) (routes : List RouteBlock) :
    ServerBlock :=
  { server with routes := server.routes ++ routes }

theorem parsRoutes_follows {fuel : Nat} {servers : List ServerBlock}
    {server : ServerBlock} {place : Nesting} {routes : List RouteBlock}
    {cursor : Cursor} {line : Str} {rest : List Str}
    (hparts : cursor.parts = line :: rest)
    (hfuel : extent (line :: rest) ≤ fuel)
    (hplace : place = .behind (server.addRoutes routes) ∨
      (place = .inside (server.addRoutes routes) ∧
        (words line).head? = some "location".toList)) :
    Follows world numbs ⟨servers, place, line :: rest⟩
      (fun routes' parts => Steps (move world numbs)
        ⟨servers, place, line :: rest⟩
        ⟨servers, .inside (server.addRoutes routes'), parts⟩)
      (parsRoutes world fuel routes cursor true) := by
  induction fuel generalizing place routes cursor line rest with
  | zero =>
      rw [extent_cons] at hfuel
      omega
  | succ fuel ih =>
      have hopen : move world numbs ⟨servers, place, line :: rest⟩ =
          openMove ⟨servers, place, line :: rest⟩ (server.addRoutes routes) line
            rest := by
        obtain rfl | ⟨rfl, hhead⟩ := hplace
        · rfl
        · obtain ⟨args, hwords⟩ := List.head?_eq_some_iff.mp hhead
          change insideMove _ _ _ _ _ _ = _
          unfold insideMove
          simp only [hwords]
          rw [if_neg (by decide), if_pos trivial]
      unfold openMove at hopen
      have hhere : cursor.parts ≠ [] := by
        rw [hparts]
        exact List.cons_ne_nil _ _
      unfold parsRoutes
      rw [if_neg (Nat.not_le.mpr (Cursor.i_lt hparts)), if_neg (by decide),
        Cursor.getWords_cons hparts]
      change Follows _ _ _ _ (checkFirstLine (words line) >>= _)
      cases hfirst : checkFirstLine (words line) with
      | error fault =>
          have hslot : fault = .badSlot := by
            unfold checkFirstLine at hfirst
            split at hfirst
            · exact (Except.error.inj hfirst).symm
            · split at hfirst
              · cases hfirst
              · split at hfirst
                · split at hfirst
                  · cases hfirst
                  · split at hfirst <;> cases hfirst
                · cases hfirst
          rw [hfirst] at hopen
          subst hslot
          exact .halt hopen
      | ok first =>
          rw [hfirst] at hopen
          cases first with
          | ends =>
              simp only at hopen
              refine ⟨hhere, ?_⟩
              rw [hparts]
              exact .single hopen
          | invalid => exact ⟨hhere, .halt hopen⟩
          | opens uri text =>
              simp only at hopen
              have hset := Cursor.setLine_parts hparts text
              have hless := solid_openLocation hfirst
              rw [extent_cons] at hfuel
              have hroute := @fillRoute_follows W _ world numbs fuel servers
                (server.addRoutes routes) { uri := uri } (cursor.setLine text)
                text rest hset (by rw [extent_cons]; omega)
              change Follows _ _ _ _ (fillRoute world fuel { uri := uri }
                (cursor.setLine text) >>= _)
              cases hfill : fillRoute world fuel { uri := uri }
                  (cursor.setLine text) with
              | error fault =>
                  rw [hfill] at hroute
                  exact hroute.error hopen _
              | ok result =>
                  obtain ⟨route, cursor', status⟩ := result
                  rw [hfill] at hroute
                  cases status with
                  | false => exact ⟨hroute.1, .step hopen hroute.2⟩
                  | true =>
                      have hsteps : Steps (move world numbs)
                          ⟨servers, place, line :: rest⟩
                          ⟨servers, .behind (server.addRoutes
                            (routes ++ [route])), cursor'.parts⟩ := by
                        have hadd : server.addRoutes (routes ++ [route]) =
                            { server.addRoutes routes with
                              routes := (server.addRoutes routes).routes ++
                                [route] } := by
                          simp [ServerBlock.addRoutes]
                        rw [hadd]
                        exact Steps.head hopen hroute.2
                      obtain ⟨line', rest', hparts'⟩ :=
                        List.exists_cons_of_ne_nil hroute.1
                      have hsize := hroute.2.measure_le fun _ _ =>
                        size_lt_of_move
                      rw [hparts'] at hsteps hsize
                      simp only [size, extent_cons] at hsize
                      have hrun := @ih _ (routes ++ [route]) cursor' line'
                        rest' hparts' (by rw [extent_cons]; omega) (.inl rfl)
                      exact hrun.steps hsteps fun _ _ hreached =>
                        hsteps.trans hreached

theorem parsRoutes_ends {fuel : Nat} {routes routes' : List RouteBlock}
    {cursor cursor' : Cursor} {line : Str} {rest : List Str}
    (h : parsRoutes world fuel routes cursor true = .ok (routes', cursor', true))
    (hparts : cursor'.parts = line :: rest) :
    (words line).head? ≠ some "location".toList := by
  induction fuel generalizing routes cursor with
  | zero => cases h
  | succ fuel ih =>
      unfold parsRoutes at h
      split at h
      · rename_i hend
        obtain ⟨rfl, rfl, -⟩ := Prod.mk.inj (Except.ok.inj h)
        exact absurd (Cursor.i_lt hparts) (Nat.not_lt.mpr hend)
      rw [if_neg (by decide)] at h
      obtain ⟨list, hlist, hfirst⟩ := bind_ok h
      obtain ⟨first, hcheck, hnext⟩ := bind_ok hfirst
      cases first with
      | ends =>
          obtain ⟨rfl, rfl, -⟩ := Prod.mk.inj (Except.ok.inj hnext)
          rw [Cursor.getWords_cons hparts] at hlist
          obtain rfl := Except.ok.inj hlist
          obtain ⟨word, args, hwords, hname, -⟩ := checkFirstLine_ends hcheck
          rw [hwords]
          exact fun hhead => hname (Option.some.inj hhead)
      | invalid =>
          obtain ⟨-, -, -⟩ := Prod.mk.inj (Except.ok.inj hnext)
      | opens uri text =>
          obtain ⟨⟨route, cursor, status⟩, hfill, hrest⟩ := bind_ok hnext
          cases status with
          | false =>
              obtain ⟨-, -, -⟩ := Prod.mk.inj (Except.ok.inj hrest)
          | true => exact ih hrest

theorem steps_size_lt {reading next : Reading}
    (h : Steps (move world numbs) reading next) (hne : reading ≠ next) :
    next.size < reading.size := by
  cases h using Relation.ReflTransGen.head_induction_on with
  | refl => exact absurd rfl hne
  | head hmove hrest =>
      exact Nat.lt_of_le_of_lt
        (Steps.measure_le (fun _ _ => size_lt_of_move) hrest)
        (size_lt_of_move hmove)

theorem fillRestLoop_follows {fuel : Nat} {servers : List ServerBlock}
    {server : ServerBlock} {cursor : Cursor} {line : Str} {rest : List Str}
    (hparts : cursor.parts = line :: rest)
    (hfuel : extent (line :: rest) < fuel) :
    Follows world numbs ⟨servers, .inside server, line :: rest⟩
      (fun server' parts => ∃ last : Reading, last.servers = servers ∧
        Steps (move world numbs) ⟨servers, .inside server, line :: rest⟩ last ∧
        move world numbs last = last.closeServer server' parts)
      (fillRestLoop world numbs fuel server cursor (words line) true) := by
  induction fuel generalizing server cursor line rest with
  | zero => omega
  | succ fuel ih =>
      have hmove : move world numbs ⟨servers, .inside server, line :: rest⟩ =
          insideMove world numbs ⟨servers, .inside server, line :: rest⟩ server
            line rest := rfl
      unfold insideMove at hmove
      have hlt := Cursor.i_lt hparts
      have hlength := cursor.length_parts
      rw [hparts, List.length_cons] at hlength
      have hhere : cursor.parts ≠ [] := by
        rw [hparts]
        exact List.cons_ne_nil _ _
      unfold fillRestLoop
      rw [if_neg (Nat.not_le.mpr hlt), if_neg (by decide)]
      cases hwords : words line with
      | nil =>
          rw [hwords] at hmove
          exact .halt hmove
      | cons word args =>
          rw [hwords] at hmove
          simp only at hmove ⊢
          by_cases hclose : word.head? = some '}'
          · rw [if_pos hclose] at hmove ⊢
            by_cases halone : word = "\x7d".toList ∧ args = []
            · rw [if_pos halone] at hmove ⊢
              have hset := Cursor.setLine_parts hparts [' ']
              by_cases hrest : rest = []
              · rw [if_pos hrest] at hmove
                have hlast : ¬cursor.i < cursor.lines.length - 1 := by
                  rw [hrest, List.length_nil] at hlength
                  omega
                simp only [hlast, decide_false, Bool.not_false, Follows, hset]
                exact ⟨List.cons_ne_nil _ _, _, rfl, .refl _,
                  by rw [hmove, hrest]⟩
              · rw [if_neg hrest] at hmove
                have hpos := List.length_pos_iff.mpr hrest
                have hlast : cursor.i < cursor.lines.length - 1 := by omega
                simp only [hlast, decide_true, Bool.not_true, Follows, hset]
                exact ⟨List.cons_ne_nil _ _, .halt hmove⟩
            · rw [if_neg halone] at hmove ⊢
              have hset := Cursor.setLine_parts hparts (behindBrace word args)
              simp only [Follows, hset]
              exact ⟨List.cons_ne_nil _ _, _, rfl, .refl _, hmove⟩
          · rw [if_neg hclose] at hmove ⊢
            by_cases hlocation : word = "location".toList
            · rw [if_pos hlocation] at hmove ⊢
              have hhead : (words line).head? = some "location".toList := by
                rw [hwords, hlocation]
                rfl
              have hnil : server.addRoutes [] = server := by
                simp [ServerBlock.addRoutes]
              have hroutes := @parsRoutes_follows W _ world numbs fuel servers
                server (.inside server) [] cursor line rest hparts (by omega)
                  (.inr ⟨by rw [hnil], hhead⟩)
              change Follows _ _ _ _
                (parsRoutes world fuel [] cursor true >>= _)
              cases hpars : parsRoutes world fuel [] cursor true with
              | error fault =>
                  rw [hpars] at hroutes
                  cases fault with
                  | badSlot => exact hroutes
                  | outOfRange => exact hroutes
                  | diverges => exact hroutes
              | ok result =>
                  obtain ⟨routes, cursor', status⟩ := result
                  rw [hpars] at hroutes
                  change Follows _ _ _ _ (cursor'.getWords >>= _)
                  cases status with
                  | false =>
                      obtain ⟨line', rest', hparts'⟩ :=
                        List.exists_cons_of_ne_nil hroutes.1
                      rw [Cursor.getWords_cons hparts']
                      change Follows _ _ _ _ (fillRestLoop world numbs fuel _
                        cursor' (words line') false)
                      rw [extent_cons] at hfuel
                      rw [fillRestLoop_stops _ _ hparts' (by omega)]
                      exact hroutes
                  | true =>
                      obtain ⟨hne, hsteps⟩ := hroutes
                      obtain ⟨line', rest', hparts'⟩ :=
                        List.exists_cons_of_ne_nil hne
                      rw [Cursor.getWords_cons hparts']
                      rw [hparts'] at hsteps
                      have hends := parsRoutes_ends hpars hparts'
                      have hless := steps_size_lt hsteps fun hsame => by
                        have hline := (List.cons.inj
                          (congrArg Reading.parts hsame)).1
                        exact hends (hline ▸ hhead)
                      simp only [size, extent_cons] at hless
                      rw [extent_cons] at hfuel
                      have hrun := @ih (server.addRoutes routes) cursor' line'
                        rest' hparts' (by rw [extent_cons]; omega)
                      refine hrun.steps hsteps fun _ _ hreached => ?_
                      obtain ⟨last, hservers, hmore, hlast⟩ := hreached
                      exact ⟨last, hservers, hsteps.trans hmore, hlast⟩
            · rw [if_neg hlocation] at hmove ⊢
              rw [← hlength]
              cases hdirective : serverDirective world (numbs (rest.length + 1))
                  server (word :: args) with
              | none =>
                  rw [hdirective] at hmove
                  exact ⟨hhere, .halt hmove⟩
              | some result =>
                  obtain ⟨server', status⟩ := result
                  rw [hdirective] at hmove
                  simp only [Option.map_some] at hmove ⊢
                  have hnext := Cursor.next_parts hparts
                  cases rest with
                  | nil =>
                      rw [Cursor.getWords_nil hnext]
                      exact .halt hmove
                  | cons line' rest' =>
                      rw [Cursor.getWords_cons hnext]
                      rw [behindDirective_next (List.cons_ne_nil _ _)] at hmove
                      rw [extent_cons, extent_cons] at hfuel
                      cases status with
                      | false =>
                          change Follows _ _ _ _ (fillRestLoop world numbs fuel
                            server' cursor.next (words line') false)
                          rw [fillRestLoop_stops server' _ hnext (by omega)]
                          exact ⟨by rw [hnext]; exact List.cons_ne_nil _ _,
                            .halt hmove⟩
                      | true =>
                          have hrun := @ih server' cursor.next line' rest' hnext
                            (by rw [extent_cons]; omega)
                          refine hrun.step hmove fun _ _ hreached => ?_
                          obtain ⟨last, hservers, hsteps, hlast⟩ := hreached
                          exact ⟨last, hservers, hsteps.head hmove, hlast⟩

theorem checkLine_fault {line : Str} {fault : Fault}
    (h : checkLine line = .error fault) : fault = .badSlot := by
  unfold checkLine trimstr at h
  split at h
  · rename_i first back hsplit
    split at h
    · exact (Except.error.inj h).symm
    · change (if _ then _ else _) = _ at h
      split at h <;> cases h
  · cases h

theorem parsServer_follows {fuel : Nat} {servers : List ServerBlock}
    {cursor : Cursor} {line : Str} {rest : List Str}
    (hparts : cursor.parts = line :: rest) (hwords : words line ≠ [])
    (hfuel : extent (line :: rest) ≤ fuel) :
    Follows world numbs ⟨servers, .between, line :: rest⟩
      (fun server parts => Steps (move world numbs)
        ⟨servers, .between, line :: rest⟩
        ⟨servers ++ [server], .between, parts⟩)
      (parsServer world numbs fuel cursor) := by
  have hmove : move world numbs ⟨servers, .between, line :: rest⟩ =
      betweenMove ⟨servers, .between, line :: rest⟩ line rest := rfl
  unfold betweenMove at hmove
  rw [if_neg hwords] at hmove
  have hhere : cursor.parts ≠ [] := by
    rw [hparts]
    exact List.cons_ne_nil _ _
  unfold parsServer
  rw [Cursor.line_cons hparts]
  change Follows _ _ _ _ (checkLine line >>= _)
  cases hline : checkLine line with
  | error fault =>
      rw [hline] at hmove
      rw [checkLine_fault hline]
      exact .halt hmove
  | ok text =>
      rw [hline] at hmove
      cases text with
      | none => exact ⟨hhere, .halt hmove⟩
      | some text =>
          simp only at hmove
          have hset := Cursor.setLine_parts hparts text
          have hless := solid_checkLine hline
          rw [extent_cons] at hfuel
          have hfill := @fillRestLoop_follows W _ world numbs fuel servers {}
            (cursor.setLine text) text rest hset
            (by rw [extent_cons]; omega)
          change Follows _ _ _ _ (fillRest world numbs fuel {}
            (cursor.setLine text) >>= _)
          have hrest : fillRest world numbs fuel {} (cursor.setLine text) =
              fillRestLoop world numbs fuel {} (cursor.setLine text)
                (words text) true := by
            unfold fillRest
            rw [Cursor.getWords_cons hset]
            rfl
          rw [hrest]
          cases hloop : fillRestLoop world numbs fuel {} (cursor.setLine text)
              (words text) true with
          | error fault =>
              rw [hloop] at hfill
              exact hfill.error hmove _
          | ok result =>
              obtain ⟨server, cursor', status⟩ := result
              rw [hloop] at hfill
              cases status with
              | false => exact ⟨hfill.1, .step hmove hfill.2⟩
              | true =>
                  obtain ⟨hne, last, hservers, hsteps, hlast⟩ := hfill
                  unfold closeServer at hlast
                  change Follows _ _ _ _ (.ok (server.checkStatus.1, cursor',
                    server.checkStatus.2))
                  generalize server.checkStatus = checked at hlast ⊢
                  obtain ⟨server', closed⟩ := checked
                  cases closed with
                  | false =>
                      exact ⟨hne, .step hmove (hsteps.halts (.halt hlast))⟩
                  | true =>
                      refine ⟨hne, Steps.head hmove (hsteps.trans ?_)⟩
                      rw [← hservers]
                      exact .single hlast

def Confile.holding (servers : List ServerBlock) : Confile :=
  { servers := servers, numberOfServer := servers.length }

def Concludes (world : W) (numbs : Nat → Int) (reading : Reading) :
    Except Fault Confile → Prop
  | .ok conf =>
      (conf.status = true ∧ conf = Confile.holding conf.servers ∧
        Halts (move world numbs) reading (.accepted conf.servers)) ∨
      (conf.status = false ∧ Halts (move world numbs) reading .rejected)
  | .error .badSlot => Halts (move world numbs) reading .outside
  | .error _ => False

theorem Concludes.steps {reading next : Reading}
    {result : Except Fault Confile} (h : Concludes world numbs next result)
    (hsteps : Steps (move world numbs) reading next) :
    Concludes world numbs reading result := by
  cases result with
  | error fault =>
      cases fault with
      | badSlot => exact hsteps.halts h
      | outOfRange => exact h
      | diverges => exact h
  | ok conf =>
      obtain ⟨hstatus, hconf, hhalts⟩ | ⟨hstatus, hhalts⟩ := h
      · exact .inl ⟨hstatus, hconf, hsteps.halts hhalts⟩
      · exact .inr ⟨hstatus, hsteps.halts hhalts⟩

theorem setServerLoop_concludes {fuel : Nat} {servers : List ServerBlock}
    {cursor : Cursor} (hfuel : extent cursor.parts < fuel) :
    Concludes world numbs ⟨servers, .between, cursor.parts⟩
      (setServerLoop world numbs fuel (Confile.holding servers) cursor) := by
  induction fuel generalizing servers cursor with
  | zero => omega
  | succ fuel ih =>
      unfold setServerLoop
      cases hparts : cursor.parts with
      | nil =>
          have hend : cursor.lines.length ≤ cursor.i :=
            List.drop_eq_nil_iff.mp hparts
          rw [if_pos hend]
          exact .inl ⟨rfl, rfl, .halt rfl⟩
      | cons line rest =>
          have hmove : move world numbs ⟨servers, .between, line :: rest⟩ =
              betweenMove ⟨servers, .between, line :: rest⟩ line rest := rfl
          unfold betweenMove at hmove
          rw [if_neg (Nat.not_le.mpr (Cursor.i_lt hparts)),
            Cursor.getWords_cons hparts]
          change Concludes _ _ _ (if words line = [] then _ else _)
          by_cases hwords : words line = []
          · rw [if_pos hwords] at hmove ⊢
            exact .inl ⟨rfl, rfl, .halt hmove⟩
          · rw [if_neg hwords]
            rw [hparts] at hfuel
            have hserver := @parsServer_follows W _ world numbs fuel servers
              cursor line rest hparts hwords (by omega)
            change Concludes _ _ _ (parsServer world numbs fuel cursor >>= _)
            cases hpars : parsServer world numbs fuel cursor with
            | error fault =>
                rw [hpars] at hserver
                cases fault with
                | badSlot => exact hserver
                | outOfRange => exact hserver
                | diverges => exact hserver
            | ok result =>
                obtain ⟨server, cursor', status⟩ := result
                rw [hpars] at hserver
                cases status with
                | false => exact .inr ⟨rfl, hserver.2⟩
                | true =>
                    obtain ⟨-, hsteps⟩ := hserver
                    have hless := steps_size_lt hsteps fun hsame => by
                      have hlength := congrArg (fun reading : Reading =>
                        reading.servers.length) hsame
                      simp at hlength
                    simp only [size] at hless
                    have hrun := @ih (servers ++ [server]) cursor' (by omega)
                    have hconf : ({ Confile.holding servers with
                        servers := servers ++ [server]
                        numberOfServer := servers.length + 1
                        status := true } : Confile) =
                          Confile.holding (servers ++ [server]) := by
                      simp [Confile.holding]
                    rw [← hconf] at hrun
                    exact hrun.steps hsteps

theorem extent_lt_turns (parts : List Str) : extent parts < turns parts := by
  have hle : extent parts ≤ (parts.map List.length).sum + parts.length := by
    induction parts with
    | nil => exact Nat.le_refl _
    | cons part parts ih =>
        have hpart := solid_le_length part
        simp only [extent_cons, List.map_cons, List.sum_cons, List.length_cons]
        omega
  unfold turns
  omega

theorem setServer_of_page {world world' : W} {parts : List Str}
    (hpage : setDefaultPage world = (world', true)) :
    setServer world numbs parts =
      (setServerLoop world' numbs (turns parts) {} ⟨parts, 0⟩).map
        (world', ·) := by
  unfold setServer
  rw [hpage]
  rfl

theorem setServer_concludes {world world' : W} {parts : List Str}
    (hpage : setDefaultPage world = (world', true)) :
    ∃ result, setServer world numbs parts = result.map (world', ·) ∧
      Concludes world' numbs (start parts) result := by
  refine ⟨setServerLoop world' numbs (turns parts) {} ⟨parts, 0⟩,
    setServer_of_page hpage, ?_⟩
  exact @setServerLoop_concludes W _ world' numbs (turns parts) []
    ⟨parts, 0⟩ (extent_lt_turns parts)

theorem setServer_of_halts {world world' : W} {parts : List Str}
    {servers : List ServerBlock} (hpage : setDefaultPage world = (world', true))
    (h : Halts (move world' numbs) (start parts) (.accepted servers)) :
    setServer world numbs parts = .ok (world', Confile.holding servers) := by
  obtain ⟨result, hresult, hconcludes⟩ :=
    @setServer_concludes W _ numbs world world' parts hpage
  rw [hresult]
  cases result with
  | error fault =>
      cases fault with
      | badSlot => cases h.unique hconcludes
      | outOfRange => cases hconcludes
      | diverges => cases hconcludes
  | ok conf =>
      obtain ⟨-, hconf, hhalts⟩ | ⟨-, hhalts⟩ := hconcludes
      · obtain rfl := Verdict.accepted.inj (h.unique hhalts)
        rw [hconf]
        rfl
      · cases h.unique hhalts

theorem setDefaultPage_opened {opened : W}
    (hdirectory : Os.access world "html".toList .exists = true)
    (hopen : Os.openWrite world "html/index.html".toList = some opened) :
    (setDefaultPage world).2 = true := by
  have hopened : ({} : OFStream).openFile world "html/index.html".toList =
      (⟨some "html/index.html".toList, false⟩, opened) := by
    unfold OFStream.openFile
    rw [if_neg (by decide), hopen]
  unfold setDefaultPage
  generalize defaultPage = page
  rw [hopened, hdirectory, if_neg (by decide)]
  rfl

theorem setServer_accepted {world world' : W} {parts : List Str}
    {conf : Confile} (h : setServer world numbs parts = .ok (world', conf))
    (haccepted : conf.status = true) :
    setDefaultPage world = (world', true) ∧
      conf = Confile.holding conf.servers ∧
      Halts (move world' numbs) (start parts) (.accepted conf.servers) := by
  cases hpage : setDefaultPage world with
  | mk after found =>
      cases found with
      | false =>
          unfold setServer at h
          rw [hpage] at h
          obtain ⟨-, rfl⟩ := Prod.mk.inj (Except.ok.inj h)
          cases haccepted
      | true =>
          obtain ⟨result, hresult, hconcludes⟩ :=
            @setServer_concludes W _ numbs world after parts hpage
          rw [h] at hresult
          cases result with
          | error fault => cases hresult
          | ok conf' =>
              obtain ⟨rfl, rfl⟩ := Prod.mk.inj (Except.ok.inj hresult)
              obtain ⟨-, hconf, hhalts⟩ | ⟨hstatus, -⟩ := hconcludes
              · exact ⟨rfl, hconf, hhalts⟩
              · rw [hstatus] at haccepted
                cases haccepted

end Refinement

end Webserv
