import Webserv.Buffers
import Webserv.Coding.Lines
import Webserv.Disk

namespace Webserv

open Cxx Coding

/-! A request head that is cut somewhere. -/

/-- A line behind the request line that `fill_headers_map` takes. -/
structure HeaderLine (line : Str) : Prop extends Solid line where
  noColon : line.head? ≠ some ':'
  noSpace : line.head? ≠ some ' '

structure RequestHead where
  line : Str
  headers : List Str
  deriving DecidableEq, Repr

namespace RequestHead

def text (head : RequestHead) : Str :=
  joinCrlf (head.line :: head.headers) ++ crlf

structure WellFormed (head : RequestHead) : Prop where
  line : '\n' ∉ head.line
  headers : ∀ header ∈ head.headers, HeaderLine header

variable {head : RequestHead}

theorem WellFormed.complete (h : head.WellFormed) :
    CompleteHead head.text :=
  search_blankLine h.line fun header hheader => (h.headers header hheader).toSolid

theorem WellFormed.noBreak (h : head.WellFormed) :
    ∀ line ∈ head.line :: head.headers, '\n' ∉ line := by
  intro line hline
  cases List.mem_cons.mp hline with
  | inl hfirst =>
      rw [hfirst]
      exact h.line
  | inr hheader => exact (h.headers line hheader).noBreak

theorem WellFormed.getlines_text (h : head.WellFormed) :
    getlines head.text = (head.line ++ ['\r']) ::
      (head.headers.map (· ++ ['\r']) ++ [['\r']]) := by
  unfold text
  rw [getlines_joinCrlf crlf h.noBreak]
  rfl

end RequestHead

/-! The keys that `fill_headers_map` enters. -/

def lineKey (line : Str) : Str :=
  match search? [':'] line with
  | some pos => line.take pos
  | none => line

/-- A line whose key is neither empty nor indented. -/
structure Taken (line : Str) : Prop where
  ne_nil : line ≠ []
  noColon : line.head? ≠ some ':'
  noSpace : line.head? ≠ some ' '

theorem lineKey_head {line : Str} (hne : line ≠ [])
    (hcolon : line.head? ≠ some ':') : (lineKey line).head? = line.head? := by
  obtain ⟨c, rest, rfl⟩ := List.exists_cons_of_ne_nil hne
  have hstarts : ¬[':'] <+: c :: rest := by
    intro hstarts
    exact hcolon (by rw [(List.cons_prefix_cons.mp hstarts).1]; rfl)
  unfold lineKey
  rw [search?_cons_of_not_starts hstarts]
  cases search? [':'] rest <;> rfl

theorem lineKey_ne_nil {line : Str} (hne : line ≠ [])
    (hcolon : line.head? ≠ some ':') : lineKey line ≠ [] := by
  intro hnil
  have hhead := lineKey_head hne hcolon
  rw [hnil] at hhead
  exact hne (List.head?_eq_none_iff.mp hhead.symm)

theorem headerEntry_key (line value : Str) :
    headerEntry line value = .ok (lineKey line,
      match search? [':'] line with
      | some pos => line.drop (pos + 1)
      | none => value) := by
  unfold headerEntry lineKey
  cases hpos : search? [':'] line with
  | none => rfl
  | some pos =>
      have hinside := search?_add_length_le hpos
      simp only
      rw [substr_zero, substrFrom_ok (by simpa using hinside)]
      rfl

theorem lookup_cons_eq (key value : Str) (map : List (Str × Str))
    (other : Str) :
    ((key, value) :: map).lookup other =
      if other = key then some value else map.lookup other := by
  rw [List.lookup_cons]
  by_cases hkey : other = key
  · simp [hkey]
  · rw [beq_false_of_ne hkey, if_neg hkey]

theorem lookup_mapAssign (key value : Str) (map : List (Str × Str))
    (other : Str) :
    (mapAssign key value map).lookup other =
      if other = key then some value else map.lookup other := by
  induction map with
  | nil => exact lookup_cons_eq ..
  | cons entry map ih =>
      obtain ⟨k, v⟩ := entry
      rw [mapAssign]
      by_cases hsame : key = k
      · subst hsame
        rw [if_pos rfl, lookup_cons_eq, lookup_cons_eq]
        by_cases hkey : other = key <;> simp [hkey]
      · rw [if_neg hsame]
        split
        · exact lookup_cons_eq ..
        · rw [lookup_cons_eq, lookup_cons_eq, ih]
          by_cases hother : other = k
          · rw [if_pos hother, if_pos hother,
              if_neg (hother ▸ Ne.symm hsame)]
          · rw [if_neg hother, if_neg hother]

theorem mapAssign_ne_nil (key value : Str) (map : List (Str × Str)) :
    mapAssign key value map ≠ [] := by
  cases map with
  | nil => simp [mapAssign]
  | cons first rest =>
      rw [mapAssign]
      split
      · simp
      · split <;> simp

def Client.HasHeader (client : Client) (key : Str) : Prop :=
  client.request.headersMap.lookup key ≠ none

theorem addHeader_map (client : Client) (key value : Str) :
    (addHeader client key value).request.headersMap =
      mapAssign key value client.request.headersMap := by
  unfold addHeader
  simp only
  split <;> rfl

theorem addHeader_hasHeader (client : Client) (key value other : Str) :
    (addHeader client key value).HasHeader other ↔
      other = key ∨ client.HasHeader other := by
  unfold Client.HasHeader
  rw [addHeader_map, lookup_mapAssign]
  by_cases hkey : other = key <;> simp [hkey]

section Parse

variable {W : Type} [Os W]

theorem fillHeadersLoop_cons (world : W) {line value entered : Str}
    (h : Taken line)
    (hentry : headerEntry line value = .ok (lineKey line, entered))
    (rest : List Str) (client : Client) :
    fillHeadersLoop world (line :: rest) value client =
      fillHeadersLoop world rest (trim (trimNonPrintable entered))
        (addHeader client (lineKey line)
          (trim (trimNonPrintable entered))) := by
  rw [fillHeadersLoop, if_neg h.ne_nil, hentry]
  simp only [bind, Except.bind]
  rw [if_neg (lineKey_ne_nil h.ne_nil h.noColon),
    if_neg (by rw [lineKey_head h.ne_nil h.noColon]; exact h.noSpace)]

theorem fillHeadersLoop_taken (world : W) {lines : List Str}
    (h : ∀ line ∈ lines, Taken line) (value : Str) {client : Client}
    (hmap : lines ≠ [] ∨ client.request.headersMap ≠ []) :
    ∃ client', fillHeadersLoop world lines value client =
        .ok (client', true) ∧
      ∀ key, client'.HasHeader key ↔
        (∃ line ∈ lines, key = lineKey line) ∨ client.HasHeader key := by
  induction lines generalizing value client with
  | nil =>
      rw [fillHeadersLoop, if_neg (hmap.resolve_left (by simp))]
      exact ⟨client, rfl, by simp⟩
  | cons line rest ih =>
      rw [fillHeadersLoop_cons world (h line List.mem_cons_self)
        (headerEntry_key line value)]
      generalize trim (trimNonPrintable _) = entered
      have hadded : (addHeader client (lineKey line)
          entered).request.headersMap ≠ [] := by
        rw [addHeader_map]
        exact mapAssign_ne_nil _ _ _
      obtain ⟨client', hfilled, hkeys⟩ := ih
        (fun other hother => h other (List.mem_cons_of_mem _ hother)) entered
        (.inr hadded)
      refine ⟨client', hfilled, fun key => ?_⟩
      rw [hkeys, addHeader_hasHeader]
      simp only [List.mem_cons, exists_eq_or_imp]
      rw [or_left_comm, or_assoc]

theorem answerRedirections_headersMap (world : W)
    (redirections : List (Int × Str)) (client : Client) :
    (answerRedirections world redirections client).request.headersMap =
      client.request.headersMap := by
  induction redirections generalizing client with
  | nil => rfl
  | cons entry rest ih =>
      obtain ⟨code, url⟩ := entry
      rw [answerRedirections, ih, setResponseError_request]
      rfl

theorem checkIfHaveRedirection_headersMap (world : W) (client : Client) :
    (checkIfHaveRedirection world client).request.headersMap =
      client.request.headersMap := by
  unfold checkIfHaveRedirection
  split
  · exact answerRedirections_headersMap ..
  · rfl

theorem parseContentLength_headersMap (world : W) (client : Client)
    (tmp : Str) :
    (parseContentLength world client tmp).request.headersMap =
      client.request.headersMap := by
  unfold parseContentLength
  simp only
  split
  · rw [setResponseError_request]
    rfl
  split
  · rw [setResponseError_request]
    rfl
  · rw [checkIfHaveRedirection_headersMap]
    rfl

theorem parseTarget_headersMap {world : W} {client client' : Client}
    {requestPath method : Str}
    (h : parseTarget world client requestPath method = .ok client') :
    client'.request.headersMap = client.request.headersMap := by
  unfold parseTarget at h
  obtain ⟨⟨block, located⟩, -, h⟩ := bind_ok h
  simp only [setPath_diskPath_eq] at h
  split at h
  · rw [← Except.ok.inj h, setResponseError_request]
    rfl
  split at h
  · rw [← Except.ok.inj h, parseContentLength_headersMap]
    rfl
  · rw [← Except.ok.inj h, checkIfHaveRedirection_headersMap]
    rfl

def Client.Refused (client : Client) : Prop :=
  client.response.readyToSend = true ∧ 400 ≤ client.response.responseStatus

theorem refused_setResponseError (world : W) (client : Client) {status : Int}
    (h : 400 ≤ status) : (setResponseError world client status).Refused :=
  ⟨by simp, by simpa using h⟩

/-- Up to the header lines, a request line is refused, ends the process, or
passes, whatever the lines behind it are. -/
theorem parseFields_cases (world : W) (client : Client)
    (method path version : Str) :
    (∃ answered : Client, answered.Refused ∧ ∀ lines,
      parseFields world client lines method path version =
        .ok answered) ∨
    (∃ fault, ∀ lines,
      parseFields world client lines method path version = .error fault) ∨
    ∃ pa, ∀ lines, parseFields world client lines method path version =
      (do
        let (client, filled) ←
          fillHeadersMap world (client.setPath pa) lines
        if filled = false then return client.setResponseIndex true
        parseTarget world client pa method) := by
  unfold parseFields
  split
  · split
    · exact .inl ⟨_, refused_setResponseError _ _ (by decide), fun _ => rfl⟩
    · exact .inl ⟨_, refused_setResponseError _ _ (by decide), fun _ => rfl⟩
  split
  · split
    · exact .inl ⟨_, refused_setResponseError _ _ (by decide), fun _ => rfl⟩
    · exact .inl ⟨_, refused_setResponseError _ _ (by decide), fun _ => rfl⟩
  split
  · exact .inl ⟨_, refused_setResponseError _ _ (by decide), fun _ => rfl⟩
  cases hresolved : outRootDir world client (removeslashes path) with
  | error fault => exact .inr (.inl ⟨fault, fun _ => rfl⟩)
  | ok resolved =>
      obtain ⟨client₁, resolved⟩ := resolved
      cases outRootDir_ok hresolved with
      | inl hrefused =>
          obtain ⟨rfl, rfl⟩ := hrefused
          exact .inl ⟨(setResponseError world client 400).setResponseIndex
            true, ⟨rfl, (refused_setResponseError world client
              (show (400 : Int) ≤ 400 by decide)).2⟩, fun _ => rfl⟩
      | inr hpasses =>
          obtain ⟨parts, -, rfl, rfl⟩ := hpasses
          exact .inr (.inr ⟨_, fun _ => rfl⟩)

theorem parseRequestLine_cons (world : W) (client : Client) (line : Str)
    (lines : List Str) :
    parseRequestLine world client (line :: lines) =
      if checkRequestLine line = false then
        .ok (setResponseError world client 400)
      else if (words line).getD 3 [] ≠ [] ∨ (words line).getD 0 [] = [] ∨
          (words line).getD 1 [] = [] ∨ (words line).getD 2 [] = [] then
        .ok (setResponseError world client 400)
      else
        parseFields world (client.setLine ((words line).getD 0 [])
          ((words line).getD 1 []) ((words line).getD 2 [])) lines
          ((words line).getD 0 []) ((words line).getD 1 [])
          ((words line).getD 2 []) := rfl

theorem parseRequestLine_cases (world : W) (client : Client) (line : Str) :
    (∃ answered : Client, answered.Refused ∧ ∀ lines,
      parseRequestLine world client (line :: lines) = .ok answered) ∨
    (∃ fault, ∀ lines,
      parseRequestLine world client (line :: lines) = .error fault) ∨
    ∃ client₁ pa method,
      client₁.request.headersMap = client.request.headersMap ∧
        client₁.request.method = method ∧
        client₁.keepAlive = client.keepAlive ∧ ∀ lines,
        parseRequestLine world client (line :: lines) = (do
          let (client, filled) ← fillHeadersMap world client₁ lines
          if filled = false then return client.setResponseIndex true
          parseTarget world client pa method) := by
  simp only [parseRequestLine_cons]
  split
  · exact .inl ⟨_, refused_setResponseError _ _ (by decide), fun _ => rfl⟩
  split
  · exact .inl ⟨_, refused_setResponseError _ _ (by decide), fun _ => rfl⟩
  rcases parseFields_cases world (client.setLine ((words line).getD 0 [])
      ((words line).getD 1 []) ((words line).getD 2 []))
      ((words line).getD 0 []) ((words line).getD 1 [])
      ((words line).getD 2 []) with hrefused | hfault | ⟨pa, hpasses⟩
  · exact .inl hrefused
  · exact .inr (.inl hfault)
  · refine .inr (.inr ⟨_, pa, _, ?_, ?_, ?_, hpasses⟩) <;> rfl

theorem parseRequestLine_alone {world : W} {client parsed : Client}
    (hmap : client.request.headersMap = []) {line : Str}
    (h : parseRequestLine world client [line] = .ok parsed) :
    parsed.Refused := by
  rcases parseRequestLine_cases world client line with
    ⟨answered, hrefused, hanswered⟩ | ⟨fault, hfault⟩ |
      ⟨client₁, pa, method, hmap₁, -, -, hpasses⟩
  · rw [hanswered] at h
    rw [← Except.ok.inj h]
    exact hrefused
  · rw [hfault] at h
    cases h
  · rw [hpasses, fillHeadersMap, fillHeadersLoop,
      if_pos (hmap₁.trans hmap)] at h
    rw [← Except.ok.inj h]
    exact ⟨rfl, (refused_setResponseError world client₁ (by decide)).2⟩

theorem parseRequestLine_taken {world : W} {client parsed : Client}
    (hmap : client.request.headersMap = []) {line : Str} {lines : List Str}
    (hne : lines ≠ []) (htaken : ∀ other ∈ lines, Taken other)
    (h : parseRequestLine world client (line :: lines) = .ok parsed) :
    (parsed.Refused ∧ ∀ lines',
      parseRequestLine world client (line :: lines') = .ok parsed) ∨
    ∀ key, parsed.HasHeader key ↔ ∃ other ∈ lines, key = lineKey other := by
  rcases parseRequestLine_cases world client line with
    ⟨answered, hrefused, hanswered⟩ | ⟨fault, hfault⟩ |
      ⟨client₁, pa, method, hmap₁, -, -, hpasses⟩
  · rw [hanswered] at h
    obtain rfl := Except.ok.inj h
    exact .inl ⟨hrefused, hanswered⟩
  · rw [hfault] at h
    cases h
  · right
    obtain ⟨client₂, hfilled, hkeys⟩ := @fillHeadersLoop_taken W _ world lines
      htaken [] client₁ (.inl hne)
    rw [hpasses, fillHeadersMap, hfilled] at h
    have htarget : client₂.request.headersMap = parsed.request.headersMap :=
      (parseTarget_headersMap h).symm
    have hnone : ∀ key, ¬client₁.HasHeader key := by
      intro key
      simp [Client.HasHeader, hmap₁, hmap]
    intro key
    have hsame : parsed.HasHeader key = client₂.HasHeader key := by
      simp only [Client.HasHeader, htarget]
    rw [hsame]
    exact (hkeys key).trans (or_iff_left (hnone key))

/-! A head that is cut before its last character. -/

theorem HeaderLine.part {header part : Str} (h : HeaderLine header)
    (hne : part ≠ []) (hpart : part <+: header ++ ['\r']) :
    Taken part ∧ lineKey part ≠ ['\r'] := by
  have hhead : part.head? = header.head? := by
    obtain ⟨c, rest, rfl⟩ := List.exists_cons_of_ne_nil hne
    obtain ⟨d, more, rfl⟩ := List.exists_cons_of_ne_nil h.ne_nil
    rw [(List.cons_prefix_cons.mp hpart).1]
    rfl
  have htaken : Taken part :=
    ⟨hne, hhead ▸ h.noColon, hhead ▸ h.noSpace⟩
  refine ⟨htaken, fun hkey => ?_⟩
  have hreturn := lineKey_head htaken.ne_nil htaken.noColon
  rw [hkey, hhead] at hreturn
  exact h.noReturn hreturn.symm

theorem RequestHead.WellFormed.getlines_cut {head : RequestHead}
    (h : head.WellFormed) {cut : Str} (hne : cut ≠ [])
    (hcut : cut <+: joinCrlf (head.line :: head.headers)) :
    (∃ line, getlines cut = [line]) ∨
      ∃ lines, getlines cut = (head.line ++ ['\r']) :: lines ∧
        lines ≠ [] ∧ ∀ part ∈ lines, part ≠ [] ∧
          ∃ header ∈ head.headers, part <+: header ++ ['\r'] := by
  obtain ⟨front, back, last, hlines, hread, hlast⟩ :=
    Coding.getlines_cut hcut h.noBreak
  cases front with
  | nil =>
      left
      rcases hlast with rfl | ⟨part, next, more, rfl, -⟩
      · exact absurd (getlines_eq_nil_iff.mp hread) hne
      · exact ⟨part, hread⟩
  | cons first front =>
      obtain ⟨rfl, hheaders⟩ := List.cons.inj hlines
      by_cases hnil : front.map (· ++ ['\r']) ++ last = []
      · left
        refine ⟨head.line ++ ['\r'], ?_⟩
        rw [hread, List.map_cons, List.cons_append, hnil]
      · right
        refine ⟨_, hread, hnil, fun part hpart => ?_⟩
        cases List.mem_append.mp hpart with
        | inl hwhole =>
            obtain ⟨header, hheader, rfl⟩ := List.mem_map.mp hwhole
            refine ⟨by simp, header, ?_, List.prefix_refl _⟩
            rw [hheaders]
            exact List.mem_append_left _ hheader
        | inr hcutLine =>
            rcases hlast with rfl | ⟨cutLine, next, more, rfl, hsome, rfl, hnext⟩
            · cases hcutLine
            · rw [List.mem_singleton.mp hcutLine]
              refine ⟨hsome, next, ?_, hnext⟩
              rw [hheaders]
              simp

theorem parseRequestLine_cut {world : W} {client parsed : Client}
    (hmap : client.request.headersMap = []) {head : RequestHead}
    (h : head.WellFormed) {cut : Str} (hne : cut ≠ [])
    (hcut : cut <+: joinCrlf (head.line :: head.headers))
    (hparsed : parseRequestLine world client (getlines cut) = .ok parsed) :
    parsed.Refused ∨ (¬parsed.HasHeader ['\r'] ∧ ∀ whole,
      parseRequestLine world client (getlines head.text) = .ok whole →
        whole.HasHeader ['\r']) := by
  rcases h.getlines_cut hne hcut with
    ⟨line, hread⟩ | ⟨lines, hread, hlines, hparts⟩
  · rw [hread] at hparsed
    exact .inl (parseRequestLine_alone hmap hparsed)
  rw [hread] at hparsed
  have hpart : ∀ part ∈ lines, Taken part ∧ lineKey part ≠ ['\r'] := by
    intro part hmem
    obtain ⟨hsome, header, hheader, hstarts⟩ := hparts part hmem
    exact (h.headers header hheader).part hsome hstarts
  cases parseRequestLine_taken hmap hlines (fun part hmem =>
    (hpart part hmem).1) hparsed with
  | inl hrefused => exact .inl hrefused.1
  | inr hkeys =>
      by_cases hrefused : parsed.Refused
      · exact .inl hrefused
      refine .inr ⟨fun hhas => ?_, fun whole hwhole => ?_⟩
      · obtain ⟨part, hmem, hkey⟩ := (hkeys _).mp hhas
        exact (hpart part hmem).2 hkey.symm
      rw [h.getlines_text] at hwhole
      have htaken : ∀ other ∈ head.headers.map (· ++ ['\r']) ++ [['\r']],
          Taken other := by
        intro other hother
        cases List.mem_append.mp hother with
        | inl hheader =>
            obtain ⟨header, hmem, rfl⟩ := List.mem_map.mp hheader
            exact ((h.headers header hmem).part (by simp)
              (List.prefix_refl _)).1
        | inr hblank =>
            rw [List.mem_singleton.mp hblank]
            exact ⟨by decide, by decide, by decide⟩
      cases parseRequestLine_taken hmap (by simp) htaken hwhole with
      | inl hanswered =>
          -- the refusal does not depend on the header lines
          have hsame := hanswered.2 lines
          rw [hparsed] at hsame
          rw [Except.ok.inj hsame] at hrefused
          exact absurd hanswered.1 hrefused
      | inr hall => exact (hall _).mpr ⟨['\r'], by simp, by decide⟩

/-- Without the blank line, all but the last four bytes of the buffer would be
the head; the cut is behind it all. -/
theorem parseRequest_cut (world : W) (client : Client) {cut : Str}
    (hnone : search? blankLine cut = none) (hlength : cut.length < 2 ^ 31) :
    parseRequest world (client.setSRequest cut) =
      if cut.length < 4 then
        .ok (setResponseError world
          (((client.setSRequest cut).setIndex true).setAlive false) 400)
      else
        parseRequestLine world
          (((client.setIndex true).setAlive false).setSRequest [])
          (getlines cut) := by
  have hsearch : search? "\r\n\r\n".toList (((client.setSRequest
      cut).setIndex true).setAlive false).request.sRequest = none := hnone
  unfold parseRequest
  simp only [hsearch]
  change (if int32 (sizeT ((cut.length : Int) - 4)) < 0 then _ else
    parseHead world (((client.setSRequest cut).setIndex true).setAlive false)
      cut (sizeT ((cut.length : Int) - 4))) = _
  by_cases hshort : cut.length < 4
  · have hnegative : int32 (sizeT ((cut.length : Int) - 4)) < 0 := by
      unfold int32 sizeT
      omega
    rw [if_pos hnegative, if_pos hshort]
  · have hsize : sizeT ((cut.length : Int) - 4) = cut.length - 4 := by
      unfold sizeT
      omega
    have hwhole : cut.length - 4 + 4 = cut.length := by omega
    rw [hsize, int32_of_lt (by omega), if_neg (by omega), if_neg hshort]
    unfold parseHead
    rw [hwhole, substrFrom_ok (Nat.le_refl _), substr_zero, List.drop_length,
      List.take_length]
    rfl

end Parse

/-! The whole request, cut and uncut. -/

/-- The buffers with the first ones put together, until the first buffer holds
as many bytes as are needed. -/
def gather (needed : Nat) : Str → List Str → List Str
  | first, [] => [first]
  | first, bytes :: rest =>
      if needed ≤ first.length then first :: bytes :: rest
      else gather needed (first ++ bytes) rest

theorem gather_of_le {needed : Nat} {first : Str}
    (h : needed ≤ first.length) (rest : List Str) :
    gather needed first rest = first :: rest := by
  cases rest with
  | nil => rfl
  | cons bytes rest => rw [gather, if_pos h]

theorem gather_split {needed : Nat} {first : Str} {rest : List Str}
    (h : needed ≤ (first ++ rest.flatten).length) :
    ∃ bytes more, gather needed first rest = bytes :: more ∧
      needed ≤ bytes.length ∧
      bytes ++ more.flatten = first ++ rest.flatten := by
  induction rest generalizing first with
  | nil => exact ⟨first, [], rfl, by simpa using h, rfl⟩
  | cons bytes rest ih =>
      by_cases hfirst : needed ≤ first.length
      · exact ⟨first, bytes :: rest, gather_of_le hfirst _, hfirst, rfl⟩
      · rw [gather, if_neg hfirst]
        obtain ⟨gathered, more, heq, hlength, hbytes⟩ :=
          @ih (first ++ bytes) (by simpa using h)
        exact ⟨gathered, more, heq, hlength, by simpa using hbytes⟩

namespace Client

def headFields (client : Client) : Str × Str × Str × List (Str × Str) :=
  (client.request.method, client.request.path, client.request.version,
    client.request.headersMap)

def outcome (client : Client) :
    (Str × Str × Str × List (Str × Str)) × Int :=
  (client.headFields, client.response.responseStatus)

end Client

section Cut

variable {W : Type} [Os W]

/-- The client ends up with the same fields and status as when the buffers up
to the blank line are one, and is refused at no buffer before that line. -/
structure CutAlike (process : Process W) (client : Client)
    (head : RequestHead) (first : Str) (rest : List Str) : Prop where
  outcome : (feed process client (first :: rest)).map (·.2.outcome) =
    (feed process client (gather head.text.length first rest)).map
      (·.2.outcome)
  quiet : ∀ front, front <+: first :: rest →
    front.flatten.length < head.text.length → ∀ process' client',
      feed process client front = .ok (process', client') →
        ¬client'.Refused

/-- The fields of the head are those of the head on its own. -/
def ParsedAlone (process : Process W) (client : Client) (head : RequestHead)
    (buffers : List Str) : Prop :=
  ∀ parsed, parseOnce process.world
      (client.setSRequest head.text).forgetLocation = .ok parsed →
    ∀ process' client', feed process client buffers =
      .ok (process', client') → client'.headFields = parsed.headFields

variable {process : Process W} {client : Client} {head : RequestHead}
  {first body : Str} {rest : List Str}

theorem cutAlike_of_whole (hformed : head.WellFormed)
    (hrequest : client.request = {}) (hresponse : client.response = {})
    (hopen : client.allRecv = false)
    (hbytes : first ++ rest.flatten = head.text ++ body)
    (hwhole : head.text.length ≤ first.length) :
    CutAlike process client head first rest ∧
      ParsedAlone process client head (first :: rest) := by
  obtain ⟨back, rfl⟩ : head.text <+: first :=
    List.prefix_of_prefix_length_le (List.prefix_append _ body)
      (hbytes ▸ List.prefix_append _ _) hwhole
  refine ⟨⟨?_, ?_⟩, ?_⟩
  · rw [gather_of_le hwhole]
  · intro front hfront hshort process' client' hfed
    cases front with
    | nil =>
        obtain ⟨-, rfl⟩ := Prod.mk.inj (Except.ok.inj hfed)
        rintro ⟨hready, -⟩
        rw [hresponse] at hready
        cases hready
    | cons bytes front =>
        obtain ⟨rfl, -⟩ := List.cons_prefix_cons.mp hfront
        simp only [List.flatten_cons, List.length_append] at hshort
        omega
  · intro parsed hparsed process' client' hfed
    have hfirst := parseOnce_append hrequest hformed.complete hparsed back
    obtain ⟨file, sRequest, hkept⟩ := feed_parsed hopen hfirst hfed
    unfold Client.headFields
    rw [hkept]
    rfl

theorem not_cutAlike_of_cut (hformed : head.WellFormed)
    (hrequest : client.request = {}) (hopen : client.allRecv = false)
    (hbytes : first ++ rest.flatten = head.text ++ body)
    (hfirst : first.length ≤ 16383)
    (hcut : first.length + 1 < head.text.length)
    (hreference : ∃ final,
      feed process client (gather head.text.length first rest) =
        .ok final) :
    ¬CutAlike process client head first rest := by
  rintro ⟨hsame, hquiet⟩
  obtain ⟨⟨process₂, client₂⟩, hreference⟩ := hreference
  rw [hreference] at hsame
  cases hfed : feed process client (first :: rest) with
  | error fault =>
      rw [hfed] at hsame
      cases hsame
  | ok final =>
  obtain ⟨process₁, client₁⟩ := final
  rw [hfed] at hsame
  have hfields : client₁.outcome = client₂.outcome := Except.ok.inj hsame
  -- the first call alone
  obtain ⟨process', client', hcall, hrest⟩ := feed_cons_ok hfed
  have hunrefused : ¬client'.Refused := by
    refine hquiet [first] ?_ ?_ process' client' ?_
    · exact ⟨rest, rfl⟩
    · rw [List.flatten_singleton]
      omega
    · rw [feed_cons hcall]
      rfl
  obtain ⟨parsed, hparsed, hdispatch⟩ : ∃ parsed,
      parseOnce process.world (client.setSRequest first).forgetLocation =
        .ok parsed ∧
      dispatchRequest process parsed = .ok (process', client') := by
    rcases receive_cases hcall with ⟨hall, -⟩ | ⟨-, hreceived⟩
    · rw [hopen] at hall
      cases hall
    · exact hreceived
  have haccepted : ¬parsed.Refused := by
    rintro ⟨hready, hstatus⟩
    rw [dispatchRequest_of_ready hready] at hdispatch
    obtain ⟨-, rfl⟩ := Prod.mk.inj (Except.ok.inj hdispatch)
    exact hunrefused ⟨hready, hstatus⟩
  -- the head that the first call has seen
  have hinHead : first <+: head.text :=
    List.prefix_of_prefix_length_le (hbytes ▸ List.prefix_append _ _)
      (List.prefix_append _ _) (by omega)
  have hlines : first <+: joinCrlf (head.line :: head.headers) := by
    refine List.prefix_of_prefix_length_le hinHead ?_ ?_
    · exact List.prefix_append _ _
    · have hlength : head.text.length =
          (joinCrlf (head.line :: head.headers)).length + 2 := by
        rw [RequestHead.text, List.length_append]
        rfl
      omega
  have hnone : search? blankLine first = none := by
    cases hfound : search? blankLine first with
    | none => rfl
    | some position =>
        obtain ⟨bodyStart, hsearch, hlength⟩ := hformed.complete
        obtain ⟨more, hmore⟩ := hinHead
        have hearly := @search?_append_of_some Char _ _ _ more _ hfound
        have hinside := search?_add_length_le hfound
        rw [hmore] at hearly
        have hposition : some position = some bodyStart :=
          hearly.symm.trans hsearch
        rw [Option.some.inj hposition] at hinside
        simp only [blankLine, crlf, List.length_append] at hinside
        change bodyStart + 4 ≤ first.length at hinside
        omega
  rw [parseOnce_fresh hrequest, parseRequest_cut _ _ hnone (by omega)]
    at hparsed
  split at hparsed
  · rw [← Except.ok.inj hparsed] at haccepted
    exact haccepted (refused_setResponseError _ _ (by decide))
  rename_i hlong
  have hmap : ((((client.forgetLocation).setIndex true).setAlive
      false).setSRequest []).request.headersMap = [] := by
    change client.request.headersMap = []
    rw [hrequest]
  have hne : first ≠ [] := by
    rintro rfl
    simp at hlong
  obtain ⟨hlacks, hwhole⟩ := (parseRequestLine_cut hmap hformed hne hlines
    hparsed).resolve_left haccepted
  obtain ⟨file, sRequest, hkept₁⟩ := feed_parsed hopen (by
    rw [parseOnce_fresh hrequest, parseRequest_cut _ _ hnone (by omega),
      if_neg hlong]
    exact hparsed) hfed
  -- the head that the reference call has seen
  obtain ⟨bytes, more, hgather, hneeded, hall⟩ :=
    @gather_split head.text.length first rest
      (by rw [hbytes, List.length_append]; omega)
  obtain ⟨back, rfl⟩ : head.text <+: bytes :=
    List.prefix_of_prefix_length_le (List.prefix_append _ body)
      (hbytes ▸ hall ▸ List.prefix_append _ _) hneeded
  rw [hgather] at hreference
  obtain ⟨whole, hwholeParsed, hkept₂⟩ : ∃ whole,
      parseRequestLine process.world
        ((client.forgetLocation.setIndex true).setAlive false)
        (getlines head.text) = .ok whole ∧
      client₂.request.headersMap = whole.request.headersMap := by
    obtain ⟨process₃, client₃, hcall₃, -⟩ := feed_cons_ok hreference
    rcases receive_cases hcall₃ with ⟨hall, -⟩ | ⟨-, parsed₃, hparsed₃, -⟩
    · rw [hopen] at hall
      cases hall
    obtain ⟨file, sRequest, hkept₂⟩ := feed_parsed hopen hparsed₃ hreference
    rw [parseOnce_fresh hrequest, parseRequest_append _ _ hformed.complete]
      at hparsed₃
    cases hline : parseRequestLine process.world
        ((client.forgetLocation.setIndex true).setAlive false)
        (getlines head.text) with
    | error fault =>
        rw [hline] at hparsed₃
        cases hparsed₃
    | ok plain =>
        rw [hline] at hparsed₃
        refine ⟨plain, rfl, ?_⟩
        rw [hkept₂, ← Except.ok.inj hparsed₃]
        rfl
  have hhas : (whole.setSRequest []).HasHeader ['\r'] := by
    apply hwhole
    rw [parseRequestLine_setSRequest, hwholeParsed]
    rfl
  have hmaps : client₁.request.headersMap = client₂.request.headersMap :=
    congrArg (fun outcome => outcome.1.2.2.2) hfields
  rw [hkept₁] at hmaps
  apply hlacks
  change parsed.request.headersMap.lookup ['\r'] ≠ none
  rw [show parsed.request.headersMap = client₂.request.headersMap from hmaps,
    hkept₂]
  exact hhas

/-- With the whole head in the first buffer the cuts behind it change neither
the fields of the head nor what they are compared with; a cut before the last
character of the head does. -/
theorem headCut_alike (hformed : head.WellFormed)
    (hrequest : client.request = {}) (hresponse : client.response = {})
    (hopen : client.allRecv = false)
    (hbytes : first ++ rest.flatten = head.text ++ body)
    (hfirst : first.length ≤ 16383) :
    (head.text.length ≤ first.length →
      CutAlike process client head first rest ∧
        ParsedAlone process client head (first :: rest)) ∧
    (first.length + 1 < head.text.length →
      (∃ final, feed process client (gather head.text.length first rest) =
        .ok final) →
      ¬CutAlike process client head first rest) := by
  constructor
  · intro hwhole
    exact cutAlike_of_whole hformed hrequest hresponse hopen hbytes hwhole
  · intro hcut hreference
    exact not_cutAlike_of_cut hformed hrequest hopen hbytes hfirst hcut
      hreference

end Cut

/-! A request without header lines, cut behind its first character. -/

def shortHead : RequestHead where
  line := "GET / HTTP/1.1".toList
  headers := []

def cutFirst : Str := "G".toList

def cutRest : List Str := ["ET / HTTP/1.1\r\n\r\n".toList]

def pageWorld : Disk where
  nodes :=
    [((false, 0, ["html".toList]), .directory),
      ((false, 0, ["html".toList, "index.html".toList]),
        .file "x".toList)]

def pageProcess : Process Disk := { world := pageWorld }

theorem wellFormed_shortHead : shortHead.WellFormed where
  line := show '\n' ∉ "GET / HTTP/1.1".toList by decide
  headers _ hheader := absurd hheader List.not_mem_nil

theorem status_shortHead :
    ((feed pageProcess (.connect 5 {})
      (gather shortHead.text.length cutFirst cutRest)).toOption.map
        (·.2.response.responseStatus)) = some 200 ∧
    ((feed pageProcess (.connect 5 {}) (cutFirst :: cutRest)).toOption.map
        (·.2.response.responseStatus)) = some 400 := by
  decide +kernel

theorem headCut_alike_short :
    ¬CutAlike pageProcess (.connect 5 {}) shortHead cutFirst cutRest := by
  have hbytes : cutFirst ++ cutRest.flatten = shortHead.text ++ [] := by
    decide
  have hcut : cutFirst.length + 1 < shortHead.text.length := by decide
  obtain ⟨final, hreference, -⟩ := ok_of_toOption_map status_shortHead.1
  exact (headCut_alike wellFormed_shortHead rfl rfl rfl hbytes
    (show cutFirst.length ≤ 16383 by decide)).2 hcut ⟨final, hreference⟩

/-- The first character alone is answered with a `400`, the whole head with
the page. -/
theorem cutAlike_fails_short :
    shortHead.WellFormed ∧ cutFirst ++ cutRest.flatten = shortHead.text ∧
      ((feed pageProcess (.connect 5 {}) [cutFirst]).toOption.map
        (·.2.response.responseStatus)) = some 400 ∧
      ¬CutAlike pageProcess (.connect 5 {}) shortHead cutFirst cutRest := by
  refine ⟨wellFormed_shortHead, by decide, by decide +kernel, ?_⟩
  rintro ⟨houtcome, -⟩
  obtain ⟨whole, hwhole, hok⟩ := ok_of_toOption_map status_shortHead.1
  obtain ⟨cut, hcut, hbad⟩ := ok_of_toOption_map status_shortHead.2
  rw [hwhole, hcut] at houtcome
  have hstatus := congrArg Prod.snd (Except.ok.inj houtcome)
  change cut.2.response.responseStatus = whole.2.response.responseStatus
    at hstatus
  rw [hok, hbad] at hstatus
  exact absurd hstatus (by decide)

end Webserv
