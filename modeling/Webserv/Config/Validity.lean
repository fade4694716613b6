import Webserv.Config.Refinement
import Webserv.Disk

namespace Webserv

open Cxx Coding Machine Reading

/-! What holds of the blocks of an accepted configuration. -/

structure RouteBlock.Sound (route : RouteBlock) : Prop where
  slash : route.uri.head? = some '/'
  noBrace : hasBrace route.uri = false
  hasMethod : route.methods ≠ []
  methods : ∀ method ∈ route.methods, method = "GET".toList ∨
    method = "POST".toList ∨ method = "DELETE".toList
  redirections : ∀ entry ∈ route.redirections, entry.1 ∈ redirectionCodes

/-- What holds of a server block while it is filled. -/
structure ServerBlock.Admissible (server : ServerBlock) : Prop where
  ports : ∀ port ∈ server.port, 1 ≤ port ∧ port ≤ 65535
  errorPages : ∀ entry ∈ server.errorPages, entry.1 ∈ errorCodes
  routes : ∀ route ∈ server.routes, route.Sound

structure ServerBlock.Sound (server : ServerBlock) : Prop
    extends server.Admissible where
  hasHost : server.host ≠ []
  hasPort : server.port ≠ []

/-! The values that the parsers admit. -/

theorem mem_codeAssign {key : Int} {value : Str} {map : List (Int × Str)}
    {entry : Int × Str} (h : entry ∈ codeAssign key value map) :
    entry = (key, value) ∨ entry ∈ map := by
  induction map with
  | nil => exact .inl (List.mem_singleton.mp h)
  | cons head rest ih =>
      obtain ⟨k, v⟩ := head
      unfold codeAssign at h
      split at h
      · cases List.mem_cons.mp h with
        | inl hsame => exact .inl hsame
        | inr hmem => exact .inr (List.mem_cons_of_mem _ hmem)
      split at h
      · exact List.mem_cons.mp h
      · cases List.mem_cons.mp h with
        | inl hsame => exact .inr (hsame ▸ List.mem_cons_self)
        | inr hmem =>
            cases ih hmem with
            | inl hnew => exact .inl hnew
            | inr hold => exact .inr (List.mem_cons_of_mem _ hold)

theorem mem_codeInsert {key : Int} {value : Str} {map : List (Int × Str)}
    {entry : Int × Str} (h : entry ∈ codeInsert key value map) :
    entry = (key, value) ∨ entry ∈ map := by
  induction map with
  | nil => exact .inl (List.mem_singleton.mp h)
  | cons head rest ih =>
      obtain ⟨k, v⟩ := head
      unfold codeInsert at h
      split at h
      · exact .inr h
      split at h
      · exact List.mem_cons.mp h
      · cases List.mem_cons.mp h with
        | inl hsame => exact .inr (hsame ▸ List.mem_cons_self)
        | inr hmem =>
            cases ih hmem with
            | inl hnew => exact .inl hnew
            | inr hold => exact .inr (List.mem_cons_of_mem _ hold)

theorem mem_codeInsertAll {entries map : List (Int × Str)}
    {entry : Int × Str} (h : entry ∈ codeInsertAll entries map) :
    entry ∈ entries ∨ entry ∈ map := by
  unfold codeInsertAll at h
  induction entries generalizing map with
  | nil => exact .inr h
  | cons head rest ih =>
      cases ih h with
      | inl hmem => exact .inl (List.mem_cons_of_mem _ hmem)
      | inr hmem =>
          cases mem_codeInsert hmem with
          | inl hsame => exact .inl (hsame ▸ List.mem_cons_self)
          | inr hold => exact .inr hold

theorem errorPageCodes_mem {page : Str} {list : List Str}
    {pages : List (Int × Str)} (hpages : ∀ entry ∈ pages, entry.1 ∈ errorCodes) :
    ∀ entry ∈ (errorPageCodes page list pages).1, entry.1 ∈ errorCodes := by
  induction list generalizing pages with
  | nil => exact hpages
  | cons word rest ih =>
      unfold errorPageCodes
      split
      · exact hpages
      split
      · exact hpages
      · rename_i hcode
        refine ih fun entry hentry => ?_
        cases mem_codeAssign hentry with
        | inl hsame => exact hsame ▸ not_not.mp hcode
        | inr hmem => exact hpages entry hmem

theorem getRedirection_mem (list : List Str) :
    ∀ entry ∈ (getRedirection list).1, entry.1 ∈ redirectionCodes := by
  unfold getRedirection
  split
  · split
    · simp
    split
    · simp
    split
    · simp
    · rename_i hcode
      intro entry hentry
      rw [List.mem_singleton.mp hentry]
      exact not_not.mp hcode
  · simp

theorem parsPort_range {list : List Str} (h : 0 < (parsPort list).1) :
    1 ≤ (parsPort list).1 ∧ (parsPort list).1 ≤ 65535 := by
  unfold parsPort at h ⊢
  split
  · simp only at h ⊢
    split
    · simp_all
    split
    · simp_all
    · omega
  · simp at h

theorem parsMethodsLoop_mem {list methods : List Str}
    (hmethods : ∀ method ∈ methods, method = "GET".toList ∨
      method = "POST".toList ∨ method = "DELETE".toList) :
    ∀ method ∈ (parsMethodsLoop list methods).1, method = "GET".toList ∨
      method = "POST".toList ∨ method = "DELETE".toList := by
  induction list generalizing methods with
  | nil => exact hmethods
  | cons word rest ih =>
      unfold parsMethodsLoop
      split
      · exact ih hmethods
      split
      · exact hmethods
      split
      · exact hmethods
      · rename_i hallowed
        refine ih fun method hmethod => ?_
        cases List.mem_append.mp hmethod with
        | inl hmem => exact hmethods method hmem
        | inr hmem =>
            rw [List.mem_singleton.mp hmem]
            by_contra hother
            exact hallowed ⟨fun h => hother (.inl h),
              fun h => hother (.inr (.inl h)),
              fun h => hother (.inr (.inr h))⟩

theorem parsMethodsLoop_keeps {list methods : List Str} {method : Str}
    (h : method ∈ methods) : method ∈ (parsMethodsLoop list methods).1 := by
  induction list generalizing methods with
  | nil => exact h
  | cons word rest ih =>
      unfold parsMethodsLoop
      split
      · exact ih h
      split
      · exact h
      split
      · exact h
      · exact ih (List.mem_append_left _ h)

theorem parsMethods_ne_nil {list : List Str} (hne : list ≠ [])
    (h : (parsMethods list).2 = true) : (parsMethods list).1 ≠ [] := by
  obtain ⟨name, rest, rfl⟩ := List.exists_cons_of_ne_nil hne
  cases rest with
  | nil => cases h
  | cons word rest =>
      have hmethods : parsMethods (name :: word :: rest) =
          parsMethodsLoop (word :: rest) [] := rfl
      rw [hmethods] at h ⊢
      unfold parsMethodsLoop at h ⊢
      rw [if_neg List.not_mem_nil] at h ⊢
      split at h
      · cases h
      split at h
      · cases h
      · rename_i hbrace hallowed
        rw [if_neg hbrace, if_neg hallowed]
        exact List.ne_nil_of_mem
          (parsMethodsLoop_keeps (List.mem_append_right _ List.mem_cons_self))

section Moves

variable {W : Type} [Os W] {world : W} {numbs : Nat → Int}

theorem parsErrorPages_mem (list : List Str) :
    ∀ entry ∈ (parsErrorPages world list).1, entry.1 ∈ errorCodes := by
  unfold parsErrorPages
  split
  · simp
  simp only
  split
  · simp
  split
  · simp
  split
  · simp
  split
  · simp
  · exact errorPageCodes_mem (by simp)

theorem routeDirective_sound {route route' : RouteBlock} {list : List Str}
    (hroute : route.Sound) (hne : list ≠ [])
    (h : routeDirective world route list = some (route', true)) :
    route'.Sound := by
  unfold routeDirective at h
  simp only at h
  split at h
  · obtain ⟨rfl, hstatus⟩ := Prod.mk.inj (Option.some.inj h)
    exact { hroute with
      hasMethod := parsMethods_ne_nil hne hstatus
      methods := by
        change ∀ method ∈ (parsMethods list).1, _
        unfold parsMethods
        split
        · simp
        · exact parsMethodsLoop_mem (by simp) }
  split at h
  · obtain ⟨rfl, -⟩ := Prod.mk.inj (Option.some.inj h)
    exact { hroute with }
  split at h
  · obtain ⟨rfl, -⟩ := Prod.mk.inj (Option.some.inj h)
    exact { hroute with }
  split at h
  · obtain ⟨rfl, -⟩ := Prod.mk.inj (Option.some.inj h)
    exact { hroute with }
  split at h
  · obtain ⟨rfl, -⟩ := Prod.mk.inj (Option.some.inj h)
    exact { hroute with }
  split at h
  · obtain ⟨rfl, -⟩ := Prod.mk.inj (Option.some.inj h)
    exact { hroute with }
  split at h
  · obtain ⟨rfl, -⟩ := Prod.mk.inj (Option.some.inj h)
    exact { hroute with
      redirections := fun entry hentry => by
        cases mem_codeInsertAll hentry with
        | inl hmem => exact getRedirection_mem _ entry hmem
        | inr hmem => exact hroute.redirections entry hmem }
  · cases h

theorem serverDirective_admissible {numb : Int} {server server' : ServerBlock}
    {list : List Str} {status : Bool} (hserver : server.Admissible)
    (h : serverDirective world numb server list = some (server', status)) :
    server'.Admissible := by
  unfold serverDirective at h
  simp only at h
  split at h
  · obtain ⟨rfl, -⟩ := Prod.mk.inj (Option.some.inj h)
    exact { hserver with }
  split at h
  · obtain ⟨rfl, -⟩ := Prod.mk.inj (Option.some.inj h)
    unfold ServerBlock.setPort
    split
    · rename_i hpos
      exact { hserver with
        ports := fun port hport => by
          cases List.mem_append.mp hport with
          | inl hmem => exact hserver.ports port hmem
          | inr hmem =>
              rw [List.mem_singleton.mp hmem]
              exact parsPort_range hpos }
    · exact hserver
  split at h
  · obtain ⟨rfl, -⟩ := Prod.mk.inj (Option.some.inj h)
    exact { hserver with }
  split at h
  · obtain ⟨rfl, -⟩ := Prod.mk.inj (Option.some.inj h)
    exact { hserver with }
  split at h
  · obtain ⟨rfl, -⟩ := Prod.mk.inj (Option.some.inj h)
    exact { hserver with }
  split at h
  · obtain ⟨rfl, -⟩ := Prod.mk.inj (Option.some.inj h)
    exact { hserver with
      errorPages := fun entry hentry => by
        cases mem_codeInsertAll hentry with
        | inl hmem => exact parsErrorPages_mem _ entry hmem
        | inr hmem => exact hserver.errorPages entry hmem }
  split at h
  · obtain ⟨rfl, -⟩ := Prod.mk.inj (Option.some.inj h)
    exact { hserver with }
  · cases h

theorem checkStatus_sound {server server' : ServerBlock}
    (hserver : server.Admissible)
    (h : server.checkStatus = (server', true)) : server'.Sound := by
  unfold ServerBlock.checkStatus at h
  split at h
  · cases h
  split at h
  · cases h
  rename_i hhost hport
  split at h
  · obtain ⟨rfl, -⟩ := Prod.mk.inj h
    exact ⟨⟨hserver.ports, hserver.errorPages, hserver.routes⟩, hhost, hport⟩
  · obtain ⟨rfl, -⟩ := Prod.mk.inj h
    exact ⟨hserver, hhost, hport⟩

def Nesting.Sound : Nesting → Prop
  | .between => True
  | .inside server => server.Admissible
  | .behind server => server.Admissible
  | .location server route => server.Admissible ∧ route.Sound

structure Reading.Sound (reading : Reading) : Prop where
  servers : ∀ server ∈ reading.servers, server.Sound
  place : reading.place.Sound

theorem ServerBlock.admissible_empty : ({} : ServerBlock).Admissible := by
  constructor <;> simp

theorem Reading.Moves.sound {reading next : Reading} (hsound : reading.Sound)
    (h : Moves world numbs reading next) : next.Sound := by
  have hclosed : ∀ {servers : List ServerBlock} {server server' : ServerBlock},
      (∀ other ∈ servers, other.Sound) → server.Admissible →
        server.checkStatus = (server', true) →
          ∀ other ∈ servers ++ [server'], other.Sound := by
    intro servers server server' hservers hserver hstatus other hother
    cases List.mem_append.mp hother with
    | inl hmem => exact hservers other hmem
    | inr hmem =>
        rw [List.mem_singleton.mp hmem]
        exact checkStatus_sound hserver hstatus
  cases h with
  | opens => exact ⟨hsound.servers, ServerBlock.admissible_empty⟩
  | directive _ _ _ hdirective =>
      exact ⟨hsound.servers, serverDirective_admissible hsound.place hdirective⟩
  | closes _ _ _ hstatus =>
      exact ⟨hclosed hsound.servers hsound.place hstatus, trivial⟩
  | ends _ hstatus =>
      exact ⟨hclosed hsound.servers hsound.place hstatus, trivial⟩
  | opensLocation hplace hopens =>
      rename_i server _ _ _ _
      obtain ⟨-, -, -, -, -, -, -, hbrace, hslash, -⟩ :=
        checkFirstLine_opens hopens
      have hserver : Nesting.Sound (.inside server) := by
        obtain rfl | ⟨rfl, -⟩ := hplace
        · exact hsound.place
        · exact hsound.place
      refine ⟨hsound.servers, hserver, hslash, hbrace, ?_, ?_, ?_⟩
      · simp
      · simp
      · simp
  | leaves => exact ⟨hsound.servers, hsound.place⟩
  | routeDirective _ _ hdirective =>
      exact ⟨hsound.servers, hsound.place.1,
        routeDirective_sound hsound.place.2 (List.cons_ne_nil _ _)
          hdirective⟩
  | closesLocation =>
      obtain ⟨hserver, hroute⟩ := hsound.place
      refine ⟨hsound.servers, { hserver with routes := ?_ }⟩
      intro other hother
      cases List.mem_append.mp hother with
      | inl hmem => exact hserver.routes other hmem
      | inr hmem => exact List.mem_singleton.mp hmem ▸ hroute

theorem accepted_of_move {reading : Reading} {servers : List ServerBlock}
    (h : reading.move world numbs = .halt (.accepted servers)) :
    reading.place = .between ∧ reading.servers = servers := by
  have hdirective : ∀ {other : Reading} {rest : List Str}
      {result : Option (Nesting × Bool)},
      other.behindDirective rest result ≠ .halt (.accepted servers) := by
    intro other rest result hresult
    unfold behindDirective at hresult
    split at hresult
    · cases hresult
    split at hresult
    · cases hresult
    split at hresult <;> cases hresult
  have hclose : ∀ {other : Reading} {server : ServerBlock} {parts : List Str},
      other.closeServer server parts ≠ .halt (.accepted servers) := by
    intro other server parts hresult
    unfold closeServer at hresult
    simp only at hresult
    split at hresult <;> cases hresult
  have hopen : ∀ {other : Reading} {server : ServerBlock} {line : Str}
      {rest : List Str},
      other.openMove server line rest ≠ .halt (.accepted servers) := by
    intro other server line rest hresult
    unfold openMove at hresult
    split at hresult <;> cases hresult
  obtain ⟨done, place, parts⟩ := reading
  cases parts with
  | nil =>
      cases place with
      | between => exact ⟨rfl, Verdict.accepted.inj (Move.halt.inj h)⟩
      | inside server => cases h
      | behind server => cases h
      | location server route => cases h
  | cons line rest =>
      cases place with
      | between =>
          change betweenMove _ line rest = _ at h
          unfold betweenMove at h
          split at h
          · exact ⟨rfl, Verdict.accepted.inj (Move.halt.inj h)⟩
          split at h <;> cases h
      | inside server =>
          change insideMove world numbs _ server line rest = _ at h
          unfold insideMove at h
          split at h
          · cases h
          split at h
          · split at h
            · split at h
              · exact absurd h hclose
              · cases h
            · exact absurd h hclose
          split at h
          · exact absurd h hopen
          · exact absurd h hdirective
      | behind server => exact absurd h hopen
      | location server route =>
          change locationMove world _ server route line rest = _ at h
          unfold locationMove at h
          split at h
          · cases h
          split at h
          · split at h <;> cases h
          · exact absurd h hdirective

/-- A reading at whose front an error is flagged: by the parser of a
directive, at the first line of a location, or where a server is closed. -/
inductive Reading.Flagged (world : W) (numbs : Nat → Int) : Reading → Prop
  | directive {servers : List ServerBlock} {server server' : ServerBlock}
      {line word : Str} {args rest : List Str} :
      words line = word :: args → word.head? ≠ some '}' →
      word ≠ "location".toList →
      serverDirective world (numbs (rest.length + 1)) server (word :: args) =
        some (server', false) →
      Flagged world numbs ⟨servers, .inside server, line :: rest⟩
  | routeDirective {servers : List ServerBlock} {server : ServerBlock}
      {route route' : RouteBlock} {line word : Str} {args rest : List Str} :
      words line = word :: args → word.head? ≠ some '}' →
      routeDirective world route (word :: args) = some (route', false) →
      Flagged world numbs ⟨servers, .location server route, line :: rest⟩
  | firstLine {servers : List ServerBlock} {place : Nesting}
      {server : ServerBlock} {line : Str} {rest : List Str} :
      place = .behind server ∨
        (place = .inside server ∧
          (words line).head? = some "location".toList) →
      checkFirstLine (words line) = .ok .invalid →
      Flagged world numbs ⟨servers, place, line :: rest⟩
  | closing {servers : List ServerBlock} {server server' : ServerBlock}
      {line word : Str} {args rest : List Str} :
      words line = word :: args → word.head? = some '}' →
      server.checkStatus = (server', false) →
      Flagged world numbs ⟨servers, .inside server, line :: rest⟩

theorem Reading.Flagged.not_moves {reading next : Reading}
    (h : Flagged world numbs reading) : ¬Moves world numbs reading next := by
  intro hmoves
  cases h with
  | directive hwords hclose hlocation hdirective =>
      cases hmoves with
      | directive hwords' _ _ hdirective' =>
          obtain ⟨rfl, rfl⟩ := List.cons.inj (hwords.symm.trans hwords')
          rw [hdirective] at hdirective'
          cases hdirective'
      | closes hwords' hclose' =>
          obtain ⟨rfl, rfl⟩ := List.cons.inj (hwords.symm.trans hwords')
          exact hclose hclose'
      | ends hwords' =>
          obtain ⟨rfl, rfl⟩ := List.cons.inj (hwords.symm.trans hwords')
          exact hclose rfl
      | opensLocation hplace =>
          obtain hplace | ⟨-, hhead⟩ := hplace
          · cases hplace
          · rw [hwords] at hhead
            exact hlocation (Option.some.inj hhead)
  | routeDirective hwords hclose hdirective =>
      cases hmoves with
      | routeDirective hwords' _ hdirective' =>
          obtain ⟨rfl, rfl⟩ := List.cons.inj (hwords.symm.trans hwords')
          rw [hdirective] at hdirective'
          cases hdirective'
      | closesLocation hwords' hclose' =>
          obtain ⟨rfl, rfl⟩ := List.cons.inj (hwords.symm.trans hwords')
          exact hclose hclose'
      | opensLocation hplace =>
          obtain hplace | ⟨hplace, -⟩ := hplace <;> cases hplace
  | firstLine hplace hinvalid =>
      obtain rfl | ⟨rfl, hhead⟩ := hplace
      · cases hmoves with
        | opensLocation _ hopens =>
            rw [hinvalid] at hopens
            cases hopens
        | leaves hends =>
            rw [hinvalid] at hends
            cases hends
      · obtain ⟨args, hlocation⟩ := List.head?_eq_some_iff.mp hhead
        cases hmoves with
        | directive hwords _ hname =>
            exact hname (List.cons.inj (hwords.symm.trans hlocation)).1
        | closes hwords hclose =>
            rw [(List.cons.inj (hwords.symm.trans hlocation)).1] at hclose
            cases hclose
        | ends hwords =>
            cases (List.cons.inj (hwords.symm.trans hlocation)).1
        | opensLocation _ hopens =>
            rw [hinvalid] at hopens
            cases hopens
  | closing hwords hclose hstatus =>
      cases hmoves with
      | directive hwords' hclose' =>
          obtain ⟨rfl, rfl⟩ := List.cons.inj (hwords.symm.trans hwords')
          exact hclose' hclose
      | closes _ _ _ hstatus' =>
          rw [hstatus] at hstatus'
          cases hstatus'
      | ends _ hstatus' =>
          rw [hstatus] at hstatus'
          cases hstatus'
      | opensLocation hplace =>
          obtain hplace | ⟨-, hhead⟩ := hplace
          · cases hplace
          · rw [hwords] at hhead
            rw [Option.some.inj hhead] at hclose
            cases hclose

theorem Reading.not_flagged {reading next : Reading}
    {servers : List ServerBlock}
    (h : Halts (move world numbs) reading (.accepted servers))
    (hsteps : Steps (move world numbs) reading next) :
    ¬Flagged world numbs next := by
  intro hflagged
  have hplace : next.place ≠ .between := by
    cases hflagged with
    | directive => simp
    | routeDirective => simp
    | firstLine hplace => obtain rfl | ⟨rfl, -⟩ := hplace <;> simp
    | closing => simp
  cases h.of_steps hsteps with
  | halt hmove => exact hplace (accepted_of_move hmove).1
  | step hmove _ => exact hflagged.not_moves (moves_of_move hmove)

theorem Reading.accepted_sound {parts : List Str}
    {servers : List ServerBlock}
    (h : Halts (move world numbs) (start parts) (.accepted servers)) :
    ∀ server ∈ servers, server.Sound := by
  obtain ⟨last, hsteps, hlast⟩ := h.last
  have hsound := hsteps.invariant
    (fun _ _ hsound hmove => (moves_of_move hmove).sound hsound)
    (⟨by simp [start], trivial⟩ : (start parts).Sound)
  obtain ⟨-, rfl⟩ := accepted_of_move hlast
  exact hsound.servers

/-- The servers of an accepted configuration are sound, and no error has been
flagged where they were read. -/
theorem setServer_sound {world' : W} {parts : List Str} {conf : Confile}
    (h : setServer world numbs parts = .ok (world', conf))
    (haccepted : conf.status = true) :
    (∀ server ∈ conf.servers, server.Sound) ∧
      ∀ reading, Steps (move world' numbs) (start parts) reading →
        ¬reading.Flagged world' numbs := by
  obtain ⟨-, -, hhalts⟩ := setServer_accepted h haccepted
  exact ⟨accepted_sound hhalts, fun _ hsteps => not_flagged hhalts hsteps⟩

end Moves

def pageDisk : Disk := .ofDirectories ["html".toList]

def plainParts : List Str :=
  ["server \x7b host 127.0.0.1".toList, " listen 80".toList,
    " location / \x7b return 301 /new".toList, "\x7d \x7d".toList]

def plainServer : ServerBlock where
  host := "127.0.0.1".toList
  port := [80]
  routes := [{ uri := "/".toList, redirections := [(301, "/new".toList)] }]

theorem setServerLoop_plainParts (world : Disk) :
    setServerLoop world (fun _ => 0) (turns plainParts) {} ⟨plainParts, 0⟩ =
      .ok (Confile.holding [plainServer]) := rfl

theorem setDefaultPage_pageDisk :
    ∃ world', setDefaultPage pageDisk = (world', true) := by
  obtain ⟨opened, hopened⟩ : ∃ opened,
      Os.openWrite pageDisk "html/index.html".toList = some opened := ⟨_, rfl⟩
  have hpage := setDefaultPage_opened (by decide) hopened
  cases hafter : setDefaultPage pageDisk with
  | mk world' found =>
      rw [hafter] at hpage
      obtain rfl : found = true := hpage
      exact ⟨world', rfl⟩

theorem setServer_plainParts :
    ∃ world', setServer pageDisk (fun _ => 0) plainParts =
      .ok (world', Confile.holding [plainServer]) := by
  obtain ⟨world', hpage⟩ := setDefaultPage_pageDisk
  refine ⟨world', ?_⟩
  rw [setServer_of_page hpage, setServerLoop_plainParts]
  rfl

theorem setServer_sound_plain : ∃ world', ∃ conf : Confile,
    setServer pageDisk (fun _ => 0) plainParts = .ok (world', conf) ∧
      conf.servers = [plainServer] ∧
      (∀ server ∈ conf.servers, server.Sound) ∧
      ∀ reading, Steps (move world' fun _ => 0) (start plainParts) reading →
        ¬reading.Flagged world' fun _ => 0 := by
  obtain ⟨world', hrun⟩ := setServer_plainParts
  exact ⟨world', Confile.holding [plainServer], hrun, rfl,
    setServer_sound hrun rfl⟩

end Webserv
