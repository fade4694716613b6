import Webserv.DotSegments

namespace Webserv

open Cxx
open Machine

/-! The first line of a request: the outcome it asks for, and the one that
`parse_request` stores. -/

def badMethod (method : Str) : Option Int :=
  if method = "GET".toList ∨ method = "POST".toList ∨
      method = "DELETE".toList then none
  else if method.all fun c => 'A' ≤ c ∧ c ≤ 'Z' then some 405
  else some 400

def badVersion (version : Str) : Option Int :=
  if version = "HTTP/1.1".toList then none
  else if "HTTP/".toList <+: version then some 505
  else some 400

def badTarget (target : Str) : Option Int :=
  if target.head? ≠ some '/' then some 400
  else if climb [] (pathNames target) = none then some 400
  else none

/-- The first of the outcomes for the tokens of a line, given those for a
version and for a target. -/
def firstOutcome (version target : Str → Option Int) (line : Str) :
    Option Int :=
  match words line with
  | [method, path, protocol] =>
      (badMethod method).or ((version protocol).or (target path))
  | _ => some 400

/-- The status of the answer to a first line, if it is not a good one. -/
def lineOutcome (line : Str) : Option Int :=
  firstOutcome badVersion badTarget line

/-! What the code compares. -/

def comparedVersion (version : Str) : Option Int :=
  if version = "HTTP/1.1".toList then none
  else if strncmp 5 (cStr version) "HTTP/".toList > 0 then some 400
  else some 505

def countedTarget (target : Str) : Option Int :=
  if target.head? ≠ some '/' then some 400
  else if cancel isParent [] (pathNames target) = none then some 400
  else none

def storedOutcome (line : Str) : Option Int :=
  firstOutcome comparedVersion countedTarget line

theorem words_ne_nil {line token : Str} (h : token ∈ words line) :
    token ≠ [] := by
  unfold words at h
  simpa using (List.mem_filter.mp h).2

theorem firstOutcome_of_ne {line : Str}
    (h : ∀ method path version, words line ≠ [method, path, version])
    (version target : Str → Option Int) :
    firstOutcome version target line = some 400 := by
  unfold firstOutcome
  split
  · rename_i method path protocol htokens
    exact absurd htokens (h method path protocol)
  · rfl

theorem tokens_cases (line : Str) :
    (∃ method path version, words line = [method, path, version] ∧
      method ≠ [] ∧ path ≠ [] ∧ version ≠ []) ∨
    ((words line).getD 3 [] ≠ [] ∨ (words line).getD 0 [] = [] ∨
      (words line).getD 1 [] = [] ∨ (words line).getD 2 [] = []) ∧
      ∀ method path version, words line ≠ [method, path, version] := by
  have hne := @words_ne_nil line
  match htokens : words line with
  | [] => exact .inr ⟨.inr (.inl rfl), by simp⟩
  | [method] => exact .inr ⟨.inr (.inr (.inl rfl)), by simp⟩
  | [method, path] => exact .inr ⟨.inr (.inr (.inr rfl)), by simp⟩
  | [method, path, version] =>
      rw [htokens] at hne
      exact .inl ⟨method, path, version, rfl, hne (by simp), hne (by simp),
        hne (by simp)⟩
  | method :: path :: version :: error :: more =>
      rw [htokens] at hne
      exact .inr ⟨.inl (hne (by simp)), by simp⟩

theorem firstOutcome_short {line : Str} (h : line.length < 4)
    (version target : Str → Option Int) :
    firstOutcome version target line = some 400 := by
  have hfew : (words line).length ≤ 2 := by
    unfold words
    match line, h with
    | [], _ => simp [List.splitOnP_nil]
    | [a], _ =>
        cases ha : isspace a <;>
          simp [List.splitOnP_cons_eq_if_modifyHead, ha]
    | [a, b], _ =>
        cases ha : isspace a <;> cases hb : isspace b <;>
          simp [List.splitOnP_cons_eq_if_modifyHead, ha, hb]
    | [a, b, c], _ =>
        cases ha : isspace a <;> cases hb : isspace b <;>
          cases hc : isspace c <;>
            simp [List.splitOnP_cons_eq_if_modifyHead, ha, hb, hc]
  refine firstOutcome_of_ne (fun method path protocol htokens => ?_) _ _
  rw [htokens] at hfew
  simp at hfew

section Parse

variable {W : Type} [Os W]

def parseHeaders (world : W) (client : Client) (headers : List Str)
    (target method : Str) : Except Fault Client := do
  let (client, filled) ← fillHeadersMap world client headers
  if filled = false then return client.setResponseIndex true
  parseTarget world client target method

def Client.Stored (client : Client) (status : Int) : Prop :=
  client.response.readyToSend = true ∧
    client.response.responseStatus = status

theorem stored_setResponseError (world : W) (client : Client)
    (status : Int) :
    (setResponseError world client status).Stored status :=
  ⟨by simp, by simp⟩

/-- The line is answered with the outcome given for it; without one, the
header lines are next, and nothing is stored before them. -/
def Outcome (world : W) (client : Client) (lines : List Str)
    (result : Except Fault Client) : Option Int → Prop
  | some status => ∃ answered, result = .ok answered ∧ answered.Stored status
  | none => ∃ method path version target,
      words (lines.headD []) = [method, path, version] ∧
      result = parseHeaders world
        ((client.setLine method path version).setPath target) lines.tail
          target method

theorem parseFields_outcome (world : W) (client : Client) (lines : List Str)
    {method path version : Str}
    (hwords : words (lines.headD []) = [method, path, version]) :
    Outcome world client lines
      (parseFields world (client.setLine method path version) lines.tail
        method path version)
      ((badMethod method).or
        ((comparedVersion version).or (countedTarget path))) := by
  unfold parseFields badMethod comparedVersion countedTarget
  by_cases hmethod : method = "GET".toList ∨ method = "POST".toList ∨
      method = "DELETE".toList
  · rw [if_neg (by simpa only [not_and_or, not_not, ne_eq] using hmethod),
      if_pos hmethod, Option.none_or]
    by_cases hversion : version = "HTTP/1.1".toList
    · rw [if_neg (not_not.mpr hversion), if_pos hversion, Option.none_or]
      by_cases hslash : path.head? ≠ some '/'
      · rw [if_pos hslash, if_pos hslash]
        exact ⟨_, rfl, stored_setResponseError ..⟩
      rw [if_neg hslash, if_neg hslash, outRootDir_eq, pathNames_removeslashes]
      cases hstack : cancel isParent [] (pathNames path) with
      | none =>
          rw [if_pos rfl]
          exact ⟨_, rfl, rfl, setResponseError_responseStatus ..⟩
      | some vec =>
          rw [if_neg (by simp)]
          exact ⟨method, path, version, _, hwords, rfl⟩
    · rw [if_pos hversion, if_neg hversion]
      by_cases hsign : strncmp 5 (cStr version) "HTTP/".toList > 0
      · rw [if_pos hsign, if_pos hsign]
        exact ⟨_, rfl, stored_setResponseError ..⟩
      · rw [if_neg hsign, if_neg hsign]
        exact ⟨_, rfl, stored_setResponseError ..⟩
  · rw [if_pos (by simpa only [not_or, ne_eq] using hmethod),
      if_neg hmethod]
    by_cases hupper : isUpper method = false
    · have hlower : ¬(method.all fun c => 'A' ≤ c ∧ c ≤ 'Z') = true := by
        unfold isUpper at hupper
        rw [hupper]
        decide
      rw [if_pos hupper, if_neg hlower]
      exact ⟨_, rfl, stored_setResponseError ..⟩
    · have hcapital : (method.all fun c => 'A' ≤ c ∧ c ≤ 'Z') = true := by
        simpa [isUpper] using hupper
      rw [if_neg hupper, if_pos hcapital]
      exact ⟨_, rfl, stored_setResponseError ..⟩

theorem parseRequestLine_outcome (world : W) (client : Client)
    (lines : List Str) :
    Outcome world client lines (parseRequestLine world client lines)
      (storedOutcome (lines.headD [])) := by
  unfold parseRequestLine
  simp only
  rw [if_neg (by simp [checkRequestLine])]
  rcases tokens_cases (lines.headD []) with
    ⟨method, path, version, hwords, hmethod, hpath, hversion⟩ |
    ⟨hrefused, hcount⟩
  · have htokens : ¬((words (lines.headD [])).getD 3 [] ≠ [] ∨
        (words (lines.headD [])).getD 0 [] = [] ∨
        (words (lines.headD [])).getD 1 [] = [] ∨
        (words (lines.headD [])).getD 2 [] = []) := by
      rw [hwords]
      simp [hmethod, hpath, hversion]
    rw [if_neg htokens]
    have hfields := parseFields_outcome world client lines hwords
    unfold storedOutcome firstOutcome
    rw [hwords]
    exact hfields
  · rw [if_pos hrefused, storedOutcome, firstOutcome_of_ne hcount]
    exact ⟨_, rfl, stored_setResponseError ..⟩

/-! From the request line to the request. -/

def headLength (data : Str) : Nat :=
  match search? "\r\n\r\n".toList data with
  | some bodyStart => bodyStart + 4
  | none => data.length

/-- The bytes received start with this line; their number fits an `int` where
they hold no complete head. -/
structure Begins (client : Client) (line : Str) : Prop where
  line : client.request.sRequest.takeWhile (· ≠ '\n') = line
  size : (search? "\r\n\r\n".toList client.request.sRequest).isSome = true ∨
    client.request.sRequest.length < 2 ^ 31

def Client.atLine (client : Client) : Client :=
  ((client.setIndex true).setAlive false).setSRequest
    (client.request.sRequest.drop (headLength client.request.sRequest))

def headLines (client : Client) : List Str :=
  getlines (client.request.sRequest.take
    (headLength client.request.sRequest))

theorem takeWhile_take {data : Str} {n : Nat} (h : '\n' ∈ data.take n) :
    (data.take n).takeWhile (· ≠ '\n') = data.takeWhile (· ≠ '\n') := by
  have hbreak : ((data.take n).takeWhile (· ≠ '\n')).length ≠
      (data.take n).length := by
    intro hlength
    have hwhole := (List.takeWhile_prefix _).eq_of_length hlength
    rw [← hwhole] at h
    simpa using List.mem_takeWhile_imp h
  conv_rhs => rw [← List.take_append_drop n data]
  rw [List.takeWhile_append, if_neg hbreak]

theorem headLines_headD (client : Client) :
    (headLines client).headD [] =
      client.request.sRequest.takeWhile (· ≠ '\n') := by
  unfold headLines headLength
  rw [getlines_headD]
  cases hfound : search? "\r\n\r\n".toList client.request.sRequest with
  | none => rw [List.take_length]
  | some bodyStart =>
      refine takeWhile_take ?_
      have hinside := search?_add_length_le hfound
      have hsplit := search?_split hfound
      have htake : client.request.sRequest.take (bodyStart + 4) =
          client.request.sRequest.take bodyStart ++ "\r\n\r\n".toList := by
        conv_lhs => rw [hsplit]
        rw [List.take_left' (by
          rw [List.length_append, List.length_take_of_le (by omega)]
          rfl)]
      rw [htake]
      exact List.mem_append_right _ (by decide)

theorem parseHead_outcome (world : W) {client : Client} {bodyStart : Nat}
    (hinside : bodyStart + 4 ≤ client.request.sRequest.length)
    (hlength : headLength client.request.sRequest = bodyStart + 4) :
    Outcome world client.atLine (headLines client)
      (parseHead world ((client.setIndex true).setAlive false)
        client.request.sRequest bodyStart)
      (storedOutcome ((headLines client).headD [])) := by
  have houtcome := parseRequestLine_outcome world client.atLine
    (headLines client)
  unfold Client.atLine headLines at houtcome ⊢
  rw [hlength] at houtcome ⊢
  unfold parseHead
  rw [substrFrom_ok hinside, substr_zero]
  exact houtcome

theorem parseRequest_outcome (world : W) {client : Client} {line : Str}
    (h : Begins client line) :
    Outcome world client.atLine (headLines client)
      (parseRequest world client) (storedOutcome line) := by
  rw [← h.line, ← headLines_headD]
  have hdata : ((client.setIndex true).setAlive false).request.sRequest =
      client.request.sRequest := rfl
  unfold parseRequest
  simp only [hdata]
  cases hfound : search? "\r\n\r\n".toList client.request.sRequest with
  | some bodyStart =>
      exact parseHead_outcome world (search?_add_length_le hfound)
        (by rw [headLength, hfound])
  | none =>
      have hsize := h.size
      rw [hfound] at hsize
      have hsmall := hsize.resolve_left (by decide)
      simp only
      by_cases hshort : client.request.sRequest.length < 4
      · have hnegative : int32 (sizeT
            ((client.request.sRequest.length : Int) - 4)) < 0 := by
          unfold int32 sizeT
          split <;> omega
        have hline : (client.request.sRequest.takeWhile
            (· ≠ '\n')).length < 4 :=
          Nat.lt_of_le_of_lt (List.takeWhile_prefix _).length_le hshort
        rw [if_pos hnegative, headLines_headD, storedOutcome,
          firstOutcome_short hline]
        exact ⟨_, rfl, stored_setResponseError ..⟩
      · have hstart : sizeT ((client.request.sRequest.length : Int) - 4) =
            client.request.sRequest.length - 4 := by
          unfold sizeT
          omega
        have hpositive :
            ¬int32 (client.request.sRequest.length - 4) < 0 := by
          rw [int32_of_lt (by omega)]
          omega
        rw [hstart, if_neg hpositive]
        have hlength : headLength client.request.sRequest =
            client.request.sRequest.length - 4 + 4 := by
          rw [headLength, hfound, Nat.sub_add_cancel (by omega)]
        exact parseHead_outcome world (by omega) hlength

end Parse

/-- Whatever follows a first line, it gets the outcome it asks for. -/
def LineClassified (line : Str) : Prop :=
  ∀ {W : Type} [Os W] (world : W) (client : Client), Begins client line →
    Outcome world client.atLine (headLines client)
      (parseRequest world client) (lineOutcome line)

/-- No version that sorts below "HTTP/", and no target in which a "." makes
up for a ".." that climbs above the root. -/
def LineTold (line : Str) : Prop :=
  ∀ method path version, words line = [method, path, version] →
    badMethod method = none →
      (version ≠ "HTTP/1.1".toList →
        0 ≤ strncmp 5 (cStr version) "HTTP/".toList) ∧
      (version = "HTTP/1.1".toList → path.head? = some '/' →
        climb [] (pathNames path) = none →
        ¬Covered isParent (pathNames path))

/-! Where the two outcomes are the same. -/

theorem strncmp_swap (n : Nat) (a b : Str) :
    strncmp n a b = -strncmp n b a := by
  induction n generalizing a b with
  | zero => rfl
  | succ n ih =>
      rw [strncmp, strncmp]
      by_cases heq : a.headD '\x00' = b.headD '\x00'
      · simp only [heq, ne_eq, not_true_eq_false, if_false]
        split
        · rfl
        · exact ih a.tail b.tail
      · rw [if_pos heq, if_pos (Ne.symm heq)]
        omega

theorem starts_cStr_iff {front text : Str} (hnul : '\x00' ∉ front) :
    front <+: cStr text ↔ front <+: text := by
  constructor
  · exact fun h => h.trans (List.takeWhile_prefix _)
  · rintro ⟨rest, rfl⟩
    unfold cStr
    rw [List.takeWhile_append_of_pos fun c hc => by
      simpa using ne_of_mem_of_not_mem hc hnul]
    exact List.prefix_append _ _

theorem strncmp_version_iff (version : Str) :
    strncmp 5 (cStr version) "HTTP/".toList = 0 ↔
      "HTTP/".toList <+: version := by
  have hnul : '\x00' ∉ "HTTP/".toList := by decide
  rw [strncmp_swap, Int.neg_eq_zero,
    strncmp_eq_zero_iff hnul (by decide)]
  exact starts_cStr_iff hnul

theorem comparedVersion_eq_iff (version : Str) :
    comparedVersion version = badVersion version ↔
      (version ≠ "HTTP/1.1".toList →
        0 ≤ strncmp 5 (cStr version) "HTTP/".toList) := by
  unfold comparedVersion badVersion
  by_cases hversion : version = "HTTP/1.1".toList
  · rw [if_pos hversion, if_pos hversion]
    simp [hversion]
  rw [if_neg hversion, if_neg hversion]
  have hzero := strncmp_version_iff version
  by_cases hstarts : "HTTP/".toList <+: version
  · rw [if_neg (by rw [hzero.mpr hstarts]; decide), if_pos hstarts]
    exact ⟨fun _ _ => Int.le_of_eq (hzero.mpr hstarts).symm, fun _ => rfl⟩
  · rw [if_neg hstarts]
    have hne := mt hzero.mp hstarts
    by_cases hsign : strncmp 5 (cStr version) "HTTP/".toList > 0
    · rw [if_pos hsign]
      exact ⟨fun _ _ => Int.le_of_lt hsign, fun _ => rfl⟩
    · rw [if_neg hsign]
      refine ⟨fun hstatus => absurd hstatus (by decide), fun h => ?_⟩
      have hsame := h hversion
      exact absurd (by omega) hsign

theorem countedTarget_eq_iff (path : Str) :
    countedTarget path = badTarget path ↔
      (path.head? = some '/' → climb [] (pathNames path) = none →
        ¬Covered isParent (pathNames path)) := by
  unfold countedTarget badTarget
  by_cases hslash : path.head? ≠ some '/'
  · rw [if_pos hslash, if_pos hslash]
    exact ⟨fun _ h => absurd h hslash, fun _ => rfl⟩
  rw [if_neg hslash, if_neg hslash, covered_iff]
  have hbelow := not_not.mp hslash
  cases hstack : cancel isParent [] (pathNames path) with
  | none =>
      have habove : climb [] (pathNames path) = none := by
        rw [climb_eq]
        exact cancel_filter_none notDot_of_isParent hstack
      rw [if_pos rfl, if_pos habove]
      simp
  | some vec =>
      rw [if_neg (by simp)]
      by_cases habove : climb [] (pathNames path) = none
      · rw [if_pos habove]
        simp [hbelow, habove]
      · rw [if_neg habove]
        simp [habove]

theorem or_eq_or_iff {version : Str} (path : Str) :
    (comparedVersion version).or (countedTarget path) =
        (badVersion version).or (badTarget path) ↔
      comparedVersion version = badVersion version ∧
        (version = "HTTP/1.1".toList →
          countedTarget path = badTarget path) := by
  unfold comparedVersion badVersion
  by_cases hversion : version = "HTTP/1.1".toList
  · rw [if_pos hversion, if_pos hversion, Option.none_or, Option.none_or]
    exact ⟨fun h => ⟨rfl, fun _ => h⟩, fun h => h.2 hversion⟩
  · rw [if_neg hversion, if_neg hversion]
    have hsame : ∀ status status' : Int,
        ((some status).or (countedTarget path) =
          (some status').or (badTarget path)) ↔
        some status = some status' := fun status status' => Iff.rfl
    split <;> split <;>
      rw [hsame, and_iff_left fun h => absurd h hversion]

theorem storedOutcome_eq_iff (line : Str) :
    storedOutcome line = lineOutcome line ↔ LineTold line := by
  rcases tokens_cases line with
    ⟨method, path, version, hwords, -⟩ | ⟨-, hcount⟩
  · have hline : LineTold line ↔ (badMethod method = none →
        comparedVersion version = badVersion version ∧
          (version = "HTTP/1.1".toList →
            countedTarget path = badTarget path)) := by
      unfold LineTold
      rw [hwords, comparedVersion_eq_iff, countedTarget_eq_iff]
      constructor
      · exact fun h => h method path version rfl
      · rintro h _ _ _ ⟨⟩
        exact h
    rw [hline, storedOutcome, lineOutcome, firstOutcome, firstOutcome,
      hwords]
    simp only
    cases badMethod method with
    | some status => simp
    | none =>
        rw [Option.none_or, Option.none_or, or_eq_or_iff]
        exact ⟨fun h _ => h, fun h => h rfl⟩
  · rw [storedOutcome, lineOutcome, firstOutcome_of_ne hcount,
      firstOutcome_of_ne hcount]
    exact ⟨fun _ method path version hwords =>
      absurd hwords (hcount method path version), fun _ => rfl⟩

/-! A first line on its own: a server that allows no method answers 405 to
whatever passes the request line. -/

def probe (line : Str) : Client :=
  (Client.connect 5
    { routes := [{ root := [], methods := [] }] }).setSRequest
      (line ++ '\n' :: "a:b\r\n\r\n".toList)

theorem search?_probe {line : Str} (hline : '\n' ∉ line) :
    search? "\r\n\r\n".toList (line ++ '\n' :: "a:b\r\n\r\n".toList) =
      some (line.length + 4) := by
  have habsent : ¬"\r\n\r\n".toList <:+: line ++ ['\n'] := by
    intro hoccurs
    have hcount := hoccurs.sublist.count_le '\n'
    rw [List.count_append, List.count_eq_zero.mpr hline] at hcount
    revert hcount
    decide
  have hfound := @search?_after_separator _ _ "\r\n\r\n".toList
    (line ++ ['\n']) "a:b".toList [] (by decide) (by decide) (by decide) habsent
  rw [List.length_append] at hfound
  rw [← show (line ++ ['\n'] ++ "a:b".toList ++ "\r\n\r\n".toList ++ []) =
    line ++ '\n' :: "a:b\r\n\r\n".toList by simp]
  exact hfound

theorem headLines_probe {line : Str} (hline : '\n' ∉ line) :
    headLines (probe line) = [line, "a:b\r".toList, "\r".toList] := by
  have hlength : headLength (line ++ '\n' :: "a:b\r\n\r\n".toList) =
      (line ++ '\n' :: "a:b\r\n\r\n".toList).length := by
    rw [headLength, search?_probe hline]
    simp
  have hdata : (probe line).request.sRequest =
      line ++ '\n' :: "a:b\r\n\r\n".toList := rfl
  rw [headLines, hdata, hlength, List.take_length, getlines_line_append hline]
  rfl

theorem probe_begins {line : Str} (hline : '\n' ∉ line) :
    Begins (probe line) line := by
  refine ⟨?_, .inl ?_⟩
  · rw [← headLines_headD, headLines_probe hline]
    rfl
  · change (search? _ (line ++ '\n' :: "a:b\r\n\r\n".toList)).isSome = true
    rw [search?_probe hline]
    rfl

theorem probe_passed {W : Type} [Os W] (world : W) {line : Str}
    {method path version target : Str} {answered : Client}
    (h : parseHeaders world (((probe line).atLine.setLine method path
      version).setPath target) ["a:b\r".toList, "\r".toList] target method =
        .ok answered) : answered.response.responseStatus = 405 := by
  unfold parseHeaders at h
  obtain ⟨⟨filledClient, filled⟩, hfilled, h⟩ := bind_ok h
  have hheaders : ∃ headers, fillHeadersMap world (((probe line).atLine.setLine
      method path version).setPath target) ["a:b\r".toList, "\r".toList] =
        .ok (headers, true) ∧
      headers.serverClientObj = (probe line).serverClientObj :=
    ⟨_, rfl, rfl⟩
  obtain ⟨headers, hheaders, hblock⟩ := hheaders
  rw [hheaders] at hfilled
  obtain ⟨rfl, rfl⟩ := Prod.mk.inj (Except.ok.inj hfilled)
  simp only at h
  unfold parseTarget at h
  obtain ⟨⟨block, located⟩, hlocated, h⟩ := bind_ok h
  have hroutes : block.routes = [{ root := [], methods := [] }] := by
    rcases ServerBlock.isLocationPath_ok hlocated with
      ⟨rfl, -⟩ | ⟨i, route, -, rfl, -⟩
    · rw [hblock]
      rfl
    · rw [ServerBlock.setLocationUrl_routes, hblock]
      rfl
  have hinvalid : ∀ pa, ServerBlock.isValidMethod block.routes pa method =
      false := by
    intro pa
    have hfound : search? ([] : Str) pa = some 0 := by
      cases pa with
      | nil => rfl
      | cons c pa => exact search?_cons_of_starts List.nil_prefix
    rw [hroutes, ServerBlock.isValidMethod]
    change (if (search? ([] : Str) pa).isSome then _ else _) = false
    rw [hfound]
    rfl
  simp only at h
  rw [if_pos (hinvalid _)] at h
  rw [← Except.ok.inj h, setResponseError_responseStatus]

theorem Outcome.same {W : Type} [Os W] {world : W} {client : Client}
    {lines : List Str} {result : Except Fault Client} {status status' : Int}
    (h : Outcome world client lines result (some status))
    (h' : Outcome world client lines result (some status')) :
    status = status' := by
  obtain ⟨answered, rfl, -, hstatus⟩ := h
  obtain ⟨answered', hresult, -, hstatus'⟩ := h'
  rw [← hstatus, ← hstatus', Except.ok.inj hresult]

theorem probe_outcome {W : Type} [Os W] {world : W} {line : Str}
    {result : Except Fault Client} {status : Int}
    (h : Outcome world (probe line).atLine
      [line, "a:b\r".toList, "\r".toList] result none)
    (h' : Outcome world (probe line).atLine
      [line, "a:b\r".toList, "\r".toList] result (some status)) :
    status = 405 := by
  obtain ⟨method, path, version, target, -, hresult⟩ := h
  obtain ⟨answered, rfl, -, hstatus⟩ := h'
  rw [← hstatus]
  exact probe_passed world hresult.symm

theorem version_told {version : Str} {target target' : Option Int}
    (hversion : version ≠ "HTTP/1.1".toList)
    (hsame : ∀ status status',
      (comparedVersion version).or target = some status →
        (badVersion version).or target' = some status' → status = status') :
    0 ≤ strncmp 5 (cStr version) "HTTP/".toList := by
  refine (comparedVersion_eq_iff version).mp ?_ hversion
  revert hsame
  unfold comparedVersion badVersion
  rw [if_neg hversion, if_neg hversion]
  split <;> split <;> intro hsame <;>
    exact congrArg some (hsame _ _ rfl rfl)

/-- A first line gets the outcome it asks for, whatever follows it, exactly
when the version does not sort below "HTTP/" and no "." hides a ".." that
climbs above the root. -/
theorem lineClassified_iff {line : Str} (hline : '\n' ∉ line) :
    LineClassified line ↔ LineTold line := by
  constructor
  · intro h method path version hwords hmethod
    -- the same result of the probe, by the line and by the code
    have hspec := h (⟨[]⟩ : Disk) (probe line) (probe_begins hline)
    have hcode := parseRequest_outcome (⟨[]⟩ : Disk) (probe_begins hline)
    rw [headLines_probe hline] at hspec hcode
    have hspecLine : lineOutcome line =
        (badVersion version).or (badTarget path) := by
      rw [lineOutcome, firstOutcome, hwords]
      simp only
      rw [hmethod, Option.none_or]
    have hcodeLine : storedOutcome line =
        (comparedVersion version).or (countedTarget path) := by
      rw [storedOutcome, firstOutcome, hwords]
      simp only
      rw [hmethod, Option.none_or]
    rw [hspecLine] at hspec
    rw [hcodeLine] at hcode
    constructor
    · intro hversion
      refine @version_told version (countedTarget path) (badTarget path)
        hversion ?_
      intro status status' hstored hasked
      rw [hstored] at hcode
      rw [hasked] at hspec
      exact hcode.same hspec
    · rintro rfl hslash habove hcovered
      have hasked : (badVersion "HTTP/1.1".toList).or (badTarget path) =
          some 400 := by
        rw [badVersion, if_pos rfl, Option.none_or, badTarget,
          if_neg (not_not.mpr hslash), if_pos habove]
      have hstored : (comparedVersion "HTTP/1.1".toList).or
          (countedTarget path) = none := by
        have hsome := covered_iff.mp hcovered
        rw [comparedVersion, if_pos rfl, Option.none_or, countedTarget,
          if_neg (not_not.mpr hslash), if_neg (by
            rintro hnone
            rw [hnone] at hsome
            cases hsome)]
      rw [hstored] at hcode
      rw [hasked] at hspec
      exact absurd (probe_outcome hcode hspec) (by decide)
  · intro h W _ world client hbegins
    rw [← (storedOutcome_eq_iff line).mpr h]
    exact parseRequest_outcome world hbegins

theorem lineClassified_iff_page :
    '\n' ∉ "GET / HTTP/1.1\r".toList ∧
      (LineClassified "GET / HTTP/1.1\r".toList ↔
        LineTold "GET / HTTP/1.1\r".toList) :=
  ⟨by decide, lineClassified_iff (by decide)⟩

/-- A version that sorts below "HTTP/" is answered as one that starts with
it. -/
theorem lineClassified_fails_version :
    ¬LineClassified "GET / 1.1\r".toList := by
  intro h
  have hspec := h (⟨[]⟩ : Disk) (probe "GET / 1.1\r".toList)
    (probe_begins (by decide))
  have hcode := parseRequest_outcome (⟨[]⟩ : Disk)
    (@probe_begins "GET / 1.1\r".toList (by decide))
  have hasked : lineOutcome "GET / 1.1\r".toList = some 400 := by decide
  have hstored : storedOutcome "GET / 1.1\r".toList = some 505 := by decide
  rw [hasked] at hspec
  rw [hstored] at hcode
  exact absurd (hspec.same hcode) (by decide)

end Webserv
