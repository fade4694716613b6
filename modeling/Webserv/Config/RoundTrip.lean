import Webserv.Config.Rendering
import Webserv.Config.Validity

namespace Webserv

open Cxx Coding Machine Reading

/-! The reader gets back from a text what it was rendered from. -/

section RoundTrip

variable {W : Type} [Os W] {world : W} {numbs : Nat → Int}

theorem ServerItem.Valid.serverDirective {item : ServerItem}
    (h : item.Valid world) (hno : ∀ uri items, item ≠ .location uri items)
    (numb : Int) (server : ServerBlock) :
    Webserv.serverDirective world numb server item.words =
      some (item.apply server, true) := by
  cases item with
  | host address =>
      exact congrArg (fun parsed : Str × Bool =>
        some (({ server with host := parsed.1 } : ServerBlock), parsed.2))
        (parsHost_text "host".toList address numb)
  | listen port =>
      have hport := parsPort_decimal "listen".toList h.1 h.2
      have hset : server.setPort (port : Int) =
          { server with port := server.port ++ [(port : Int)] } := by
        rw [ServerBlock.setPort, if_pos (by have := h.1; omega)]
      have hall := congrArg (fun parsed : Int × Bool =>
        some (server.setPort parsed.1, parsed.2)) hport
      simp only [hset] at hall
      exact hall
  | serverName name =>
      have hstatus : (parsServerNames ["server_name".toList, name]).2 =
          true := Option.some.inj h.2
      exact congrArg (fun parsed : Str × Bool =>
        some (({ server with serverNames := parsed.1 } : ServerBlock),
          parsed.2)) (parsServerNames_accepted hstatus)
  | index names =>
      have hstatus : (parsIndex ("index".toList :: names)).2 = true :=
        Option.some.inj h.2
      exact congrArg (fun parsed : List Str × Bool =>
        some (({ server with index := server.index ++ parsed.1 } :
          ServerBlock), parsed.2)) (parsIndex_accepted hstatus)
  | clientMaxBodySize size =>
      have hstatus : (parsCbs ["client_max_body_size".toList, size]).2 =
          true := Option.some.inj h.2
      exact congrArg (fun status : Bool =>
        some (({ server with
          clientBodySize :=
            (parsCbs ["client_max_body_size".toList, size]).1 } :
              ServerBlock), status)) hstatus
  | root path =>
      have hstatus : (getRoot world ["root".toList, path]).2 = true :=
        Option.some.inj h.2
      exact congrArg (fun parsed : Str × Bool =>
        some (({ server with serverRoot := parsed.1 } : ServerBlock),
          parsed.2)) (getRoot_accepted hstatus)
  | errorPage codes page =>
      have hstatus : (parsErrorPages world ("error_page".toList ::
          (codes ++ [page]))).2 = true := Option.some.inj h.2
      exact congrArg (fun parsed : List (Int × Str) × Bool =>
        some (({ server with
          errorPages := codeInsertAll parsed.1 server.errorPages } :
            ServerBlock), parsed.2)) (parsErrorPages_accepted hstatus)
  | location uri items => exact absurd rfl (hno uri items)

/-- Parts with these words. -/
def Spell (parts : List Str) (shape : List (List Str)) : Prop :=
  parts.map words = shape

theorem Spell.cons {parts : List Str} {list : List Str}
    {shape : List (List Str)} (h : Spell parts (list :: shape)) :
    ∃ line rest, parts = line :: rest ∧ words line = list ∧
      Spell rest shape := by
  obtain ⟨line, rest, rfl, hline, hrest⟩ := List.map_eq_cons_iff.mp h
  exact ⟨line, rest, rfl, hline, hrest⟩

theorem Spell.ne_nil {parts : List Str} {shape : List (List Str)}
    (h : Spell parts shape) (hne : shape ≠ []) : parts ≠ [] := by
  rintro rfl
  exact hne h.symm

theorem addWords_ne_nil {list : List Str} {shape : List (List Str)}
    (h : shape ≠ []) : addWords list shape ≠ [] := by
  obtain ⟨head, tail, rfl⟩ := List.exists_cons_of_ne_nil h
  exact List.cons_ne_nil _ _

theorem spell_behindBrace {line : Str} {args : List Str} {rest : List Str}
    {shape : List (List Str)} (hline : words line = "\x7d".toList :: args)
    (hrest : Spell rest shape) :
    Spell (behindBrace "\x7d".toList args :: rest) (args :: shape) := by
  have hwords : words (behindBrace "\x7d".toList args) = args := by
    rw [words_behindBrace fun other hother =>
      solidWord_of_mem_words (hline ▸ hother)]
    rfl
  rw [Spell, List.map_cons, hwords, hrest]

theorem RouteItem.name_ne_brace (item : RouteItem) :
    item.name.head? ≠ some '}' := by
  intro h
  cases item <;> cases h

theorem steps_routeItems {servers : List ServerBlock} {server : ServerBlock}
    {route : RouteBlock} {items : List RouteItem} {parts : List Str}
    {shape : List (List Str)} (hshape : shape ≠ [])
    (hvalid : ∀ item ∈ items, item.Valid world)
    (hparts : Spell parts (items.foldr (fun item => (item.words :: ·)) shape)) :
    ∃ parts', Spell parts' shape ∧ Steps (move world numbs)
      ⟨servers, .location server route, parts⟩
      ⟨servers, .location server (items.foldl RouteItem.apply route),
        parts'⟩ := by
  induction items generalizing route parts with
  | nil => exact ⟨parts, hparts, .refl _⟩
  | cons item items ih =>
      obtain ⟨line, rest, rfl, hline, hrest⟩ := hparts.cons
      have hne : rest ≠ [] := by
        refine hrest.ne_nil ?_
        cases items with
        | nil => exact hshape
        | cons => exact List.cons_ne_nil _ _
      have hitem := hvalid item List.mem_cons_self
      have hmove : Moves world numbs
          ⟨servers, .location server route, line :: rest⟩
          ⟨servers, .location server (item.apply route), rest⟩ :=
        .routeDirective hline item.name_ne_brace (hitem.routeDirective route)
          hne
      obtain ⟨parts', hparts', hsteps⟩ := @ih (item.apply route) rest
        (fun other hother => hvalid other (List.mem_cons_of_mem _ hother)) hrest
      exact ⟨parts', hparts', hsteps.head hmove.move⟩

theorem checkFirstLine_location {uri : Str} (huri : PlainWord uri)
    (hslash : uri.head? = some '/') (first : Str) (rest : List Str) :
    checkFirstLine ("location".toList :: uri :: "\x7b".toList :: first :: rest) =
      .ok (.opens uri (spaceBefore (first :: rest))) := by
  have hlast : uri.getLast? ≠ some '{' := fun hlast =>
    huri.noOpen (List.mem_of_getLast? hlast)
  have hbrace : hasBrace uri = false := by
    simp [hasBrace, huri.noOpen, huri.noClose]
  unfold checkFirstLine
  simp only
  rw [if_neg (by decide), if_neg hlast, if_neg (by decide), openLocation,
    if_neg (by simp [hbrace]), if_neg (by simp [hslash])]

/-- A place where the next directive or brace of a server is read. -/
def Nesting.InServer (server : ServerBlock) (place : Nesting) : Prop :=
  place = .inside server ∨ place = .behind server

theorem steps_location {servers : List ServerBlock} {server : ServerBlock}
    {place : Nesting} (hplace : place.InServer server) {uri : Str}
    {items : List RouteItem} {parts : List Str} {args : List Str}
    {shape : List (List Str)} (hargs : args ≠ [])
    (hvalid : (ServerItem.location uri items).Valid world)
    (hparts : Spell parts
      ((ServerItem.location uri items).shape (args :: shape))) :
    ∃ parts', Spell parts' (args :: shape) ∧ Steps (move world numbs)
      ⟨servers, place, parts⟩
      ⟨servers, .behind ((ServerItem.location uri items).apply server),
        parts'⟩ := by
  obtain ⟨huri, hslash, hne, hitems⟩ := hvalid
  obtain ⟨item, more, rfl⟩ := List.exists_cons_of_ne_nil hne
  obtain ⟨line, rest, rfl, hline, hrest⟩ := hparts.cons
  have hsolid : ∀ word ∈ item.words, SolidWord word := fun word hword =>
    ((hitems item List.mem_cons_self).plainWords word hword).1
  have hopens : Moves world numbs ⟨servers, place, line :: rest⟩
      ⟨servers, .location server { uri := uri },
        spaceBefore item.words :: rest⟩ := by
    refine .opensLocation ?_
      (hline ▸ checkFirstLine_location huri hslash item.name item.arguments)
    cases hplace with
    | inl hinside => exact .inr ⟨hinside, hline ▸ rfl⟩
    | inr hbehind => exact .inl hbehind
  have hbody : Spell (spaceBefore item.words :: rest)
      ((item :: more).foldr (fun item => (item.words :: ·))
        (addWords ["\x7d".toList] (args :: shape))) := by
    rw [Spell, List.map_cons, words_spaceBefore hsolid, hrest]
    rfl
  obtain ⟨parts', hparts', hsteps⟩ := @steps_routeItems W _ world numbs
    servers server { uri := uri } (item :: more) _ _
    (List.cons_ne_nil _ _) hitems hbody
  obtain ⟨last, rest', rfl, hlast, hrest'⟩ := hparts'.cons
  have hcloses : Moves world numbs
      ⟨servers, .location server (locationBlock uri (item :: more)),
        last :: rest'⟩
      ⟨servers, .behind
        { server with
          routes := server.routes ++ [locationBlock uri (item :: more)] },
        behindBrace "\x7d".toList args :: rest'⟩ :=
    .closesLocation hlast rfl fun halone => hargs halone.2
  exact ⟨_, spell_behindBrace hlast hrest',
    (hsteps.head hopens.move).trans (.single hcloses.move)⟩

theorem steps_inside {servers : List ServerBlock} {server : ServerBlock}
    {place : Nesting} (hplace : place.InServer server) {line word : Str}
    {args rest : List Str} (hline : words line = word :: args)
    (hlocation : word ≠ "location".toList)
    (hbrace : word ≠ "location\x7b".toList) :
    Steps (move world numbs) ⟨servers, place, line :: rest⟩
      ⟨servers, .inside server, line :: rest⟩ := by
  obtain rfl | rfl := hplace
  · exact .refl _
  · have hleaves : Moves world numbs ⟨servers, .behind server, line :: rest⟩
        ⟨servers, .inside server, line :: rest⟩ := by
      refine .leaves ?_
      rw [hline]
      exact checkFirstLine_other args hlocation hbrace
    exact .single hleaves.move

theorem ServerItem.name_plain (item : ServerItem) :
    item.name.head? ≠ some '}' ∧ item.name ≠ "location\x7b".toList := by
  constructor
  · intro h
    cases item <;> cases h
  · intro h
    cases item <;> cases h

theorem ServerItem.name_location {item : ServerItem}
    (h : ∀ uri items, item ≠ .location uri items) :
    item.name ≠ "location".toList ∧
      ∀ parts, item.shape parts = item.words :: parts := by
  cases item with
  | location uri items => exact absurd rfl (h uri items)
  | host => exact ⟨nofun, fun _ => rfl⟩
  | listen => exact ⟨nofun, fun _ => rfl⟩
  | serverName => exact ⟨nofun, fun _ => rfl⟩
  | index => exact ⟨nofun, fun _ => rfl⟩
  | clientMaxBodySize => exact ⟨nofun, fun _ => rfl⟩
  | root => exact ⟨nofun, fun _ => rfl⟩
  | errorPage => exact ⟨nofun, fun _ => rfl⟩

/-- Parts the first of which has a word. -/
def Fronted (parts : List (List Str)) : Prop :=
  ∃ args rest, args ≠ [] ∧ parts = args :: rest

theorem Fronted.ne_nil {parts : List (List Str)} (h : Fronted parts) :
    parts ≠ [] := by
  obtain ⟨args, rest, -, rfl⟩ := h
  exact List.cons_ne_nil _ _

theorem fronted_addWords {front : List Str} {parts : List (List Str)}
    (hfront : front ≠ []) (hparts : parts ≠ []) :
    Fronted (addWords front parts) := by
  obtain ⟨part, rest, rfl⟩ := List.exists_cons_of_ne_nil hparts
  exact ⟨front ++ part, rest, by simp [hfront], rfl⟩

theorem ServerItem.fronted_shape (item : ServerItem)
    {parts : List (List Str)} (hparts : parts ≠ []) :
    Fronted (item.shape parts) := by
  by_cases hlocation : ∃ uri items, item = .location uri items
  · obtain ⟨uri, items, rfl⟩ := hlocation
    refine fronted_addWords (List.cons_ne_nil _ _) ?_
    cases items with
    | nil => exact addWords_ne_nil hparts
    | cons => exact List.cons_ne_nil _ _
  · have hname := @ServerItem.name_location item
      fun uri items h => hlocation ⟨uri, items, h⟩
    exact ⟨item.words, parts, List.cons_ne_nil _ _, hname.2 parts⟩

theorem fronted_items (items : List ServerItem) {parts : List (List Str)}
    (hparts : parts ≠ []) :
    Fronted (items.foldr ServerItem.shape (addWords ["\x7d".toList] parts)) := by
  induction items with
  | nil => exact fronted_addWords (List.cons_ne_nil _ _) hparts
  | cons item items ih => exact item.fronted_shape ih.ne_nil

theorem steps_serverItems {servers : List ServerBlock} {server : ServerBlock}
    {place : Nesting} (hplace : place.InServer server)
    {items : List ServerItem} {parts : List Str} {shape : List (List Str)}
    (hshape : shape ≠ []) (hvalid : ∀ item ∈ items, item.Valid world)
    (hparts : Spell parts
      (items.foldr ServerItem.shape (addWords ["\x7d".toList] shape))) :
    ∃ parts', Spell parts' (addWords ["\x7d".toList] shape) ∧
      Steps (move world numbs) ⟨servers, place, parts⟩
        ⟨servers, .inside (items.foldl ServerItem.apply server), parts'⟩ := by
  induction items generalizing server place parts with
  | nil =>
      obtain ⟨args, more, rfl⟩ := List.exists_cons_of_ne_nil hshape
      obtain ⟨line, rest, rfl, hline, hrest⟩ := hparts.cons
      exact ⟨line :: rest, hparts,
        steps_inside hplace hline (by decide) (by decide)⟩
  | cons item items ih =>
      have hitem := hvalid item List.mem_cons_self
      have hitems : ∀ other ∈ items, other.Valid world := fun other hother =>
        hvalid other (List.mem_cons_of_mem _ hother)
      obtain ⟨args, more, hargs, hmore⟩ := fronted_items items hshape
      by_cases hlocation : ∃ uri items, item = .location uri items
      · obtain ⟨uri, inner, rfl⟩ := hlocation
        rw [List.foldr_cons, hmore] at hparts
        obtain ⟨between, hbetween, hread⟩ := @steps_location W _ world numbs
          servers server place hplace uri inner parts args more hargs hitem
          hparts
        obtain ⟨parts', hparts', hsteps⟩ :=
          @ih _ _ (.inr rfl) between hitems (hmore ▸ hbetween)
        exact ⟨parts', hparts', hread.trans hsteps⟩
      · have hno : ∀ uri inner, item ≠ .location uri inner :=
          fun uri inner h => hlocation ⟨uri, inner, h⟩
        obtain ⟨hname, hitemShape⟩ := ServerItem.name_location hno
        rw [List.foldr_cons, hitemShape] at hparts
        obtain ⟨line, rest, rfl, hline, hrest⟩ := hparts.cons
        have hne : rest ≠ [] :=
          hrest.ne_nil (fronted_items items hshape).ne_nil
        have hmove : Moves world numbs
            ⟨servers, .inside server, line :: rest⟩
            ⟨servers, .inside (item.apply server), rest⟩ :=
          .directive hline item.name_plain.1 hname
            (hitem.serverDirective hno _ server) hne
        obtain ⟨parts', hparts', hsteps⟩ :=
          @ih _ _ (.inl rfl) rest hitems hrest
        exact ⟨parts', hparts', (steps_inside hplace hline hname
          item.name_plain.2).trans (hsteps.head hmove.move)⟩

/-! The checks at the end of a server. -/

theorem foldl_apply_of_mem {P : ServerBlock → Prop} {items : List ServerItem}
    {item : ServerItem} (hitem : item ∈ items)
    (hsets : ∀ server, P (item.apply server))
    (hkeeps : ∀ other ∈ items, ∀ server, P server → P (other.apply server))
    (server : ServerBlock) : P (items.foldl ServerItem.apply server) := by
  obtain ⟨front, back, rfl⟩ := List.append_of_mem hitem
  rw [List.foldl_append, List.foldl_cons]
  refine List.foldlRecOn back ServerItem.apply (hsets _) ?_
  intro server hserver other hother
  exact hkeeps other
    (List.mem_append_right _ (List.mem_cons_of_mem _ hother)) server hserver

theorem ServerItem.apply_host_ne_nil (item : ServerItem)
    {server : ServerBlock} (h : server.host ≠ []) :
    (item.apply server).host ≠ [] := by
  cases item with
  | host address => exact (ServerItem.address_plainWord address).ne_nil
  | listen => exact h
  | serverName => exact h
  | index => exact h
  | clientMaxBodySize => exact h
  | root => exact h
  | errorPage => exact h
  | location => exact h

theorem ServerItem.apply_port_ne_nil (item : ServerItem)
    {server : ServerBlock} (h : server.port ≠ []) :
    (item.apply server).port ≠ [] := by
  cases item with
  | listen port => exact List.append_ne_nil_of_right_ne_nil _ (by simp)
  | host => exact h
  | serverName => exact h
  | index => exact h
  | clientMaxBodySize => exact h
  | root => exact h
  | errorPage => exact h
  | location => exact h

theorem ConfigServer.Valid.checkStatus {server : ConfigServer}
    (h : server.Valid world) :
    (server.items.foldl ServerItem.apply {}).checkStatus =
      (server.block, true) := by
  obtain ⟨address, hhost⟩ := h.host
  obtain ⟨port, hlisten⟩ := h.listen
  have hhostSet : (server.items.foldl ServerItem.apply {}).host ≠ [] :=
    foldl_apply_of_mem (P := fun server => server.host ≠ []) hhost
      (fun _ => (ServerItem.address_plainWord address).ne_nil)
      (fun other _ _ => other.apply_host_ne_nil) {}
  have hportSet : (server.items.foldl ServerItem.apply {}).port ≠ [] :=
    foldl_apply_of_mem (P := fun server => server.port ≠ []) hlisten
      (fun server => List.append_ne_nil_of_right_ne_nil _ (by simp))
      (fun other _ _ => other.apply_port_ne_nil) {}
  unfold ServerBlock.checkStatus ConfigServer.block
  rw [if_neg hhostSet, if_neg hportSet]
  cases hroute : (server.items.foldl ServerItem.apply {}).routes.find?
      (·.uri = "/".toList) with
  | some route =>
      simp only [hroute]
      rfl
  | none => simp only [hroute]

/-! One server after the other. -/

/-- Parts that start with a server, and what stands behind its brace. -/
def OpensServer (parts : List Str) (shape : List (List Str)) : Prop :=
  ∃ blanks back rest, (∀ c ∈ blanks, c = ' ') ∧
    parts = (blanks ++ "server \x7b".toList ++ back) :: rest ∧
    Spell (back :: rest) shape

theorem checkLine_server {blanks : Str} (h : ∀ c ∈ blanks, c = ' ')
    (back : Str) :
    checkLine (blanks ++ "server \x7b".toList ++ back) =
      .ok (some (' ' :: back)) := by
  have htext : blanks ++ "server \x7b".toList ++ back =
      (blanks ++ "server ".toList) ++ '{' :: back := by
    rw [List.append_assoc, List.append_assoc]
    rfl
  have hno : '{' ∉ blanks ++ "server ".toList := by
    intro hmem
    cases List.mem_append.mp hmem with
    | inl hblanks => cases h _ hblanks
    | inr hname => exact absurd hname (by decide)
  have htrim : trimBy (· = ' ') (blanks ++ "server ".toList) =
      "server".toList := by
    rw [trimBy, List.dropWhile_append_of_pos
      fun c hc => decide_eq_true (h c hc)]
    rfl
  have hne : blanks ++ "server ".toList ≠ [] := by simp
  unfold checkLine
  rw [htext, splitBrace_some hno]
  simp only
  rw [trimstr, if_neg hne, htrim]
  rfl

theorem OpensServer.moves {servers : List ServerBlock} {parts : List Str}
    {shape : List (List Str)} (h : OpensServer parts shape) :
    ∃ parts', Spell parts' shape ∧
      Moves world numbs ⟨servers, .between, parts⟩
        ⟨servers, .inside {}, parts'⟩ := by
  obtain ⟨blanks, back, rest, hblanks, rfl, hspell⟩ := h
  refine ⟨(' ' :: back) :: rest, ?_, .opens ?_ (checkLine_server hblanks back)⟩
  · rw [Spell, List.map_cons, words_space_cons back (by decide)]
    exact hspell
  · intro hwords
    have hflat := flatten_words (blanks ++ "server \x7b".toList ++ back)
    rw [hwords] at hflat
    have hmem : 's' ∈ (blanks ++ "server \x7b".toList ++ back).filter
        fun c => !isspace c := by
      refine List.mem_filter.mpr ⟨?_, by decide⟩
      exact List.mem_append_left _ (List.mem_append_right _ (by decide))
    rw [← hflat] at hmem
    exact List.not_mem_nil hmem

theorem opensServer_behindBrace {args : List Str} {rest : List Str}
    {shape : List (List Str)} (hsolid : ∀ word ∈ args, SolidWord word)
    (hrest : Spell rest shape) :
    OpensServer (behindBrace "\x7d".toList ("server".toList :: "\x7b".toList :: args)
      :: rest) (args :: shape) := by
  refine ⟨[' ', ' '], ' ' :: spaceBehind args, rest, ?_, rfl, ?_⟩
  · intro c hc
    simpa using hc
  · rw [Spell, List.map_cons, words_space_cons _ (by decide),
      words_spaceBehind hsolid, hrest]

/-- What stands behind the last brace, or in the next server. -/
def serversShape (servers : List ConfigServer) : List (List Str) :=
  servers.foldr ConfigServer.shape [[]]

theorem serversShape_ne_nil (servers : List ConfigServer) :
    serversShape servers ≠ [] := by
  cases servers with
  | nil => exact List.cons_ne_nil _ _
  | cons server more =>
      exact addWords_ne_nil (fronted_items _ (serversShape_ne_nil more)).ne_nil

theorem steps_server {server : ConfigServer} {shape : List (List Str)}
    {done : List ServerBlock} {parts : List Str} (hshape : shape ≠ [])
    (hvalid : server.Valid world)
    (hparts : OpensServer parts (server.items.foldr ServerItem.shape
      (addWords ["\x7d".toList] shape))) :
    ∃ parts', Spell parts' (addWords ["\x7d".toList] shape) ∧
      Steps (move world numbs) ⟨done, .between, parts⟩
        ⟨done, .inside (server.items.foldl ServerItem.apply {}), parts'⟩ := by
  obtain ⟨between, hbetween, hopens⟩ := @OpensServer.moves W _ world numbs
    done parts _ hparts
  obtain ⟨parts', hparts', hsteps⟩ := @steps_serverItems W _ world numbs
    done {} (.inside {}) (.inl rfl) server.items between shape hshape
    hvalid.items hbetween
  exact ⟨parts', hparts', hsteps.head hopens.move⟩

theorem halts_servers {server : ConfigServer} {more : List ConfigServer}
    {done : List ServerBlock} {parts : List Str}
    (hvalid : ∀ other ∈ server :: more, other.Valid world)
    (hparts : OpensServer parts (server.items.foldr ServerItem.shape
      (addWords ["\x7d".toList] (serversShape more)))) :
    Halts (move world numbs) ⟨done, .between, parts⟩
      (.accepted (done ++ (server :: more).map ConfigServer.block)) := by
  have hserver := hvalid server List.mem_cons_self
  obtain ⟨last, hlast, hsteps⟩ := @steps_server W _ world numbs server
    (serversShape more) done parts (serversShape_ne_nil more) hserver hparts
  refine hsteps.halts ?_
  cases more with
  | nil =>
      obtain ⟨line, rest, rfl, hline, hrest⟩ := hlast.cons
      obtain rfl := List.map_eq_nil_iff.mp hrest
      have hends : Moves world numbs
          ⟨done, .inside (server.items.foldl ServerItem.apply {}), [line]⟩
          ⟨done ++ [server.block], .between, [[' ']]⟩ :=
        .ends hline hserver.checkStatus
      exact .step hends.move (.halt rfl)
  | cons next more =>
      obtain ⟨args, shape, hargs, hnext⟩ :=
        fronted_items next.items (serversShape_ne_nil more)
      have hshape : serversShape (next :: more) =
          ("server".toList :: "\x7b".toList :: args) :: shape := by
        change addWords _ (next.items.foldr ServerItem.shape
          (addWords ["\x7d".toList] (serversShape more))) = _
        rw [hnext]
        rfl
      rw [hshape] at hlast
      obtain ⟨line, rest, rfl, hline, hrest⟩ := hlast.cons
      have hcloses : Moves world numbs
          ⟨done, .inside (server.items.foldl ServerItem.apply {}),
            line :: rest⟩
          ⟨done ++ [server.block], .between, behindBrace "\x7d".toList
            ("server".toList :: "\x7b".toList :: args) :: rest⟩ :=
        .closes hline rfl (fun halone => List.cons_ne_nil _ _ halone.2)
          hserver.checkStatus
      have hsolid : ∀ word ∈ args, SolidWord word := fun word hword =>
        @solidWord_of_mem_words line _ (by
          rw [hline]
          exact List.mem_append_right ["\x7d".toList, "server".toList,
            "\x7b".toList] hword)
      have hrun := @halts_servers next more (done ++ [server.block]) _
        (fun other hother => hvalid other (List.mem_cons_of_mem _ hother))
        (hnext ▸ opensServer_behindBrace hsolid hrest)
      rw [List.append_assoc] at hrun
      exact .step hcloses.move hrun
termination_by more.length

theorem opensServer_configText {server : ConfigServer}
    {more : List ConfigServer}
    (hvalid : ∀ other ∈ server :: more, other.Valid world) :
    OpensServer ((configText (server :: more)).splitOn ';')
      (server.items.foldr ServerItem.shape
        (addWords ["\x7d".toList] (serversShape more))) := by
  have hserver : server.text = "server \x7b".toList ++ ' ' ::
      unwords (server.items.map ServerItem.text ++ ["\x7d".toList]) := by
    rw [ConfigServer.text, blockText, List.append_assoc,
      unwords_append (List.cons_ne_nil _ _) (by simp)]
    rfl
  obtain ⟨back, hback⟩ : ∃ back, configText (server :: more) =
      "server \x7b".toList ++ ' ' :: back := by
    rw [configText, List.map_cons, hserver]
    cases more with
    | nil => exact ⟨_, rfl⟩
    | cons next more =>
        rw [unwords_cons _ (by simp), List.append_assoc]
        exact ⟨_, rfl⟩
  obtain ⟨part, rest, hparts⟩ := List.exists_cons_of_ne_nil
    (List.splitOn_ne_nil ';' back)
  have hsplit : (configText (server :: more)).splitOn ';' =
      ("server \x7b".toList ++ ' ' :: part) :: rest := by
    rw [hback, List.append_cons, splitOn_append_of_not_mem (by decide), hparts]
    rfl
  obtain ⟨args, shape, -, hitems⟩ :=
    fronted_items server.items (serversShape_ne_nil more)
  have hshape : pieces (configText (server :: more)) =
      addWords ["server".toList, "\x7b".toList] (server.items.foldr
        ServerItem.shape (addWords ["\x7d".toList] (serversShape more))) :=
    pieces_configText (List.cons_ne_nil _ _) hvalid
  have hwords : words "server \x7b".toList = ["server".toList, "\x7b".toList] := by
    decide
  rw [pieces, hsplit, List.map_cons, words_append_space _ _ (by decide),
    hwords, hitems] at hshape
  obtain ⟨hargs, hrest⟩ := List.cons.inj hshape
  refine ⟨[], ' ' :: part, rest, fun c hc => absurd hc List.not_mem_nil,
    hsplit, ?_⟩
  rw [hitems, Spell, List.map_cons, words_space_cons part (by decide),
    List.append_cancel_left hargs, hrest]

/-- A rendered configuration is accepted, and its servers are read back. -/
theorem setServer_configText {world world' : W} {servers : List ConfigServer}
    (hpage : setDefaultPage world = (world', true)) (hne : servers ≠ [])
    (hvalid : ∀ server ∈ servers, server.Valid world') :
    setServer world numbs ((configText servers).splitOn ';') =
      .ok (world', Confile.holding (servers.map ConfigServer.block)) := by
  obtain ⟨server, more, rfl⟩ := List.exists_cons_of_ne_nil hne
  refine setServer_of_halts hpage ?_
  exact @halts_servers W _ world' numbs server more [] _ hvalid
    (opensServer_configText hvalid)

end RoundTrip

def plainConfigServer : ConfigServer where
  items :=
    [.host ⟨127, 0, 0, 1⟩, .listen 80,
      .location "/".toList [.redirect "301".toList "/new".toList]]

theorem plainConfigServer_valid {W : Type} [Os W] (world : W) :
    plainConfigServer.Valid world where
  items := by
    have hplain : ∀ word ∈ ["/".toList, "301".toList, "/new".toList],
        PlainWord word := by
      simp only [List.mem_cons, List.not_mem_nil, or_false]
      rintro word (rfl | rfl | rfl) <;>
        exact ⟨⟨by decide, by decide⟩, by decide, by decide, by decide,
          by decide⟩
    simp only [plainConfigServer, List.mem_cons, List.not_mem_nil, or_false]
    rintro item (rfl | rfl | rfl)
    · trivial
    · exact ⟨by decide, by decide⟩
    · refine ⟨hplain _ (by simp), rfl, List.cons_ne_nil _ _, ?_⟩
      intro item hitem
      rw [List.mem_singleton.mp hitem]
      exact ⟨fun word hword => hplain word (List.mem_cons_of_mem _ hword), rfl⟩
  host := ⟨⟨127, 0, 0, 1⟩, List.mem_cons_self⟩
  listen := ⟨80, List.mem_cons_of_mem _ List.mem_cons_self⟩

theorem setServer_configText_plain : ∃ world',
    setServer pageDisk (fun _ => 0)
        ((configText [plainConfigServer]).splitOn ';') =
      .ok (world', Confile.holding [plainServer]) := by
  obtain ⟨world', hpage⟩ := setDefaultPage_pageDisk
  refine ⟨world', ?_⟩
  exact setServer_configText hpage (List.cons_ne_nil _ [])
    fun server hserver => by
      rw [List.mem_singleton.mp hserver]
      exact plainConfigServer_valid world'

end Webserv
