import Webserv.AnswerRuns
import Webserv.ParseGate
import Webserv.Config.Values
import Webserv.Coding.Words

namespace Webserv

open Cxx Coding

/-! What becomes of the `return` directive of a location. -/

section Lines

/-- A line that is no `Location` header. -/
def NoLocation (line : Str) : Prop :=
  fieldValue "location".toList line = none

theorem noLocation_of_name {name : Str} (hname : ':' ∉ name)
    (hother : name.map Char.toLower ≠ "location".toList) (value : Str) :
    NoLocation (name ++ ':' :: value) := by
  rw [NoLocation, fieldValue_cons hname, if_neg hother]

theorem noLocation_type (type : Str) :
    NoLocation ("Content-Type:".toList ++ type) :=
  noLocation_of_name (show ':' ∉ "Content-Type".toList by decide)
    (by decide) type

theorem noLocation_length (n : Nat) : NoLocation (lengthLine n) :=
  noLocation_of_name (show ':' ∉ "Content-Length".toList by decide)
    (by decide) (' ' :: decimal n)

theorem noLocation_alive (client : Client) : NoLocation (aliveLine client) := by
  unfold aliveLine
  split
  · exact noLocation_of_name (show ':' ∉ "Connection".toList by decide)
      (by decide) " keep-alive".toList
  · exact noLocation_of_name (show ':' ∉ "Connection".toList by decide)
      (by decide) " close".toList

theorem noLocation_ranges : NoLocation "Accept-Ranges: bytes".toList :=
  noLocation_of_name (show ':' ∉ "Accept-Ranges".toList by decide)
    (by decide) " bytes".toList

theorem noLocation_glued (status : Int) : NoLocation (gluedStatus status) := by
  refine fieldValue_none ?_ _
  obtain ⟨-, -, -, -, -, htitle, -⟩ := getResponseTitle_cons status
  unfold gluedStatus
  intro hmem
  rcases List.mem_append.mp hmem with hmem | hspace
  · cases List.mem_append.mp hmem with
    | inl hdigit =>
        cases mem_decimalInt hdigit with
        | inl hminus => cases hminus
        | inr hdigit => cases hdigit
    | inr hmem => exact htitle hmem
  · exact absurd hspace (by decide)

theorem fieldValue_locationLine (location : Str) :
    fieldValue "location".toList (locationLine location) =
      some (trimBy isBlank (' ' :: (location ++ [' ']))) := by
  have hname : "Location: ".toList = "Location".toList ++ [':', ' '] := rfl
  have hspace : " ".toList = [' '] := rfl
  have hline : locationLine location =
      "Location".toList ++ ':' :: (' ' :: (location ++ [' '])) := by
    unfold locationLine
    rw [hname, hspace]
    simp only [List.append_assoc, List.cons_append, List.nil_append]
  rw [hline, fieldValue_cons (show ':' ∉ "Location".toList by decide)]
  exact if_pos (by decide)

theorem filterMap_noLocation {lines : List Str}
    (h : ∀ line ∈ lines, NoLocation line) :
    lines.filterMap (fieldValue "location".toList) = [] :=
  List.filterMap_eq_nil_iff.mpr h

theorem redirectionFirst_code {redirection code : Int}
    (h : IsRedirection redirection) :
    (∃ reason, redirectionFirst redirection =
      "HTTP/1.1 ".toList ++ decimalInt code ++ ' ' :: reason) ↔
        redirection = code := by
  obtain ⟨title, hfirst⟩ : ∃ title, redirectionFirst redirection =
      "HTTP/1.1 ".toList ++ decimalInt redirection ++ ' ' :: title := by
    rcases h with rfl | rfl
    · exact ⟨"Moved Permanently".toList, by decide⟩
    · exact ⟨"Found".toList, by decide⟩
  rw [hfirst]
  exact statusLine_code_iff _ redirection code title

theorem not_redirectsTo {text first body : Str} {headers : List Str}
    (h : Message text (first :: headers) body)
    (hother : ∀ line ∈ headers, NoLocation line) (code : Int)
    (target : Str) : ¬RedirectsTo text code target := by
  rw [h.redirectsTo_iff, filterMap_noLocation hother]
  exact fun htarget => absurd htarget.2 (by simp)

theorem redirectsTo_located {text body location : Str} {redirection : Int}
    {headers : List Str} (hredirection : IsRedirection redirection)
    (h : Message text
      (redirectionFirst redirection :: locationLine location :: headers) body)
    (hother : ∀ line ∈ headers, NoLocation line) {code : Int}
    {target : Str} :
    RedirectsTo text code target ↔ redirection = code ∧
      trimBy isBlank (' ' :: (location ++ [' '])) = target := by
  rw [h.redirectsTo_iff, redirectionFirst_code hredirection,
    List.filterMap_cons_some (fieldValue_locationLine location),
    filterMap_noLocation hother, List.singleton_inj]

end Lines

section Answer

variable {W : Type} [Os W]

/-- No page is configured for the status, or one that can be opened. -/
def PageReady (world : W) (block : ServerBlock) (status : Int) : Prop :=
  block.findErrorPagePath status = "NULL".toList ∨
    Os.opens world (block.findErrorPagePath status) = true

theorem setResponseError_redirects_iff (world : W) {client : Client}
    (hinline : Inline client.request.location) {status code : Int}
    {target : Str} :
    RedirectsTo (setResponseError world client status).response.response
        code target ↔
      IsRedirection client.request.redirection ∧
        client.request.redirection = code ∧
        trimBy isBlank (' ' :: (client.request.location ++ [' '])) = target ∧
        PageReady world client.serverClientObj status := by
  have htail : ∀ n, ∀ line ∈ [typeLine, lengthLine n, aliveLine client],
      NoLocation line := by
    intro n line hline
    simp only [List.mem_cons, List.not_mem_nil, or_false] at hline
    rcases hline with rfl | rfl | rfl
    · exact noLocation_type " text/html; charset=UTF-8".toList
    · exact noLocation_length n
    · exact noLocation_alive client
  have hnone : ¬IsRedirection client.request.redirection →
      ∀ {text first body : Str} {headers : List Str},
        Message text (first :: headers) body →
          (∀ line ∈ headers, NoLocation line) →
            (RedirectsTo text code target ↔
              IsRedirection client.request.redirection ∧
                client.request.redirection = code ∧
                trimBy isBlank (' ' :: (client.request.location ++ [' '])) =
                  target ∧ PageReady world client.serverClientObj status) :=
    fun hother text first body headers hmessage hheaders =>
      iff_of_false (not_redirectsTo hmessage hheaders code target)
        fun hright => hother hright.1
  by_cases hpage : client.serverClientObj.findErrorPagePath status =
      "NULL".toList
  · have hmessage := builtIn_message hinline status
    have hready : PageReady world client.serverClientObj status := .inl hpage
    rw [(stored_builtIn world hpage).1]
    unfold builtInLines at hmessage
    by_cases h : IsRedirection client.request.redirection
    · rw [if_pos h] at hmessage
      have hother : ∀ line ∈ gluedStatus status :: [typeLine,
          lengthLine (builtInPage status).length, aliveLine client],
          NoLocation line := by
        intro line hline
        cases List.mem_cons.mp hline with
        | inl hglued => exact hglued ▸ noLocation_glued status
        | inr hrest => exact htail _ line hrest
      rw [redirectsTo_located h hmessage hother]
      simp only [h, hready, and_true, true_and]
    · rw [if_neg h] at hmessage
      exact hnone h hmessage (htail _)
  · cases hopen : Os.opens world
        (client.serverClientObj.findErrorPagePath status) with
    | false =>
        have hready : ¬PageReady world client.serverClientObj status := by
          rintro (hnull | hopened)
          · exact hpage hnull
          · rw [hopen] at hopened
            cases hopened
        rw [stored_unopened hpage hopen]
        refine iff_of_false (not_redirectsTo (unreadable_message client status)
          ?_ code target) fun hright => hready hright.2.2.2
        exact fun line hline => htail 0 line (by
          rcases List.mem_cons.mp hline with rfl | hline
          · exact List.mem_cons_self
          · exact List.mem_cons_of_mem _ (List.mem_cons_of_mem _ hline))
    | true =>
        have hready : PageReady world client.serverClientObj status :=
          .inr hopen
        have hmessage := file_message hinline
          (client.serverClientObj.findErrorPagePath status) status
          (Os.announced world
            (client.serverClientObj.findErrorPagePath status))
        have hfile : ∀ type, ∀ line ∈ ("Content-Type:".toList ++ type) ::
            [lengthLine (Os.announced world
                (client.serverClientObj.findErrorPagePath status)),
              "Accept-Ranges: bytes".toList, aliveLine client],
            NoLocation line := by
          intro type line hline
          simp only [List.mem_cons, List.not_mem_nil, or_false] at hline
          rcases hline with rfl | rfl | rfl | rfl
          · exact noLocation_type type
          · exact noLocation_length _
          · exact noLocation_ranges
          · exact noLocation_alive client
        rw [(stored_opened hpage hopen).1]
        unfold fileLines at hmessage ⊢
        by_cases h : IsRedirection client.request.redirection
        · have hne : client.request.redirection ≠ -1 := by
            rcases h with h | h <;> rw [h] <;> decide
          rw [if_neg hne, if_pos h] at hmessage ⊢
          rw [redirectsTo_located h hmessage (hfile _)]
          simp only [h, hready, and_true, true_and]
        · by_cases hnone' : client.request.redirection = -1
          · rw [if_pos hnone'] at hmessage ⊢
            exact hnone h hmessage (hfile _)
          · rw [if_neg hnone', if_neg h] at hmessage ⊢
            exact hnone h hmessage fun line hline =>
              hfile [] line (List.mem_cons_of_mem _ hline)

/-! The request on its way to the location. -/

theorem answerRedirections_append (world : W)
    (front back : List (Int × Str)) (client : Client) :
    answerRedirections world (front ++ back) client =
      answerRedirections world back
        (answerRedirections world front client) := by
  induction front generalizing client with
  | nil => rfl
  | cons entry rest ih => exact ih _

theorem answerRedirections_request (world : W)
    (redirections : List (Int × Str)) (client : Client) :
    ∃ redirection location,
      (answerRedirections world redirections client).request =
        { client.request with
          redirection := redirection, location := location } := by
  induction redirections generalizing client with
  | nil => exact ⟨_, _, rfl⟩
  | cons entry rest ih =>
      obtain ⟨code, url⟩ := entry
      obtain ⟨redirection, location, hrequest⟩ :=
        ih (setResponseError world (client.setRedirection code url) code)
      refine ⟨redirection, location, ?_⟩
      rw [answerRedirections, hrequest, setResponseError_request]
      rfl

/-- The length a `POST` announces is taken. -/
def Client.LengthTaken (client : Client) : Prop :=
  client.request.method = "POST".toList →
    let size := extractSizeT
      (client.request.getMapValues "Content-Length".toList)
    size.2 = false ∧ 0 < size.1 ∧
      size.1 ≤ client.serverClientObj.clientBodySize

theorem Client.lengthTaken_iff {client other : Client}
    (hmethod : client.request.method = other.request.method)
    (hheaders : client.request.headersMap = other.request.headersMap)
    (hblock : client.serverClientObj = other.serverClientObj) :
    client.LengthTaken ↔ other.LengthTaken := by
  unfold Client.LengthTaken Request.getMapValues
  rw [hmethod, hheaders, hblock]

/-- What `parse_request` has done when it has chosen a location that allows
the method: the answer is an error about the length, or the last target. -/
inductive Redirected (world : W) (parsed : Client) (route : RouteBlock) : Prop
  | refused {before : Client} {status : Int} :
      ¬parsed.LengthTaken → before.request.redirection = -1 →
      before.request.location = [] →
      parsed = setResponseError world before status →
      Redirected world parsed route
  | answered {before : Client} :
      parsed.LengthTaken →
      before.serverClientObj = parsed.serverClientObj →
      parsed = answerRedirections world route.redirections before →
      Redirected world parsed route

theorem checkIfHaveRedirection_selected (world : W) {client : Client}
    {route : RouteBlock} (h : client.serverClientObj.selected = some route) :
    checkIfHaveRedirection world client =
      answerRedirections world route.redirections client := by
  unfold checkIfHaveRedirection
  rw [h]

theorem checkIfHaveRedirection_request (world : W) (client : Client) :
    ∃ redirection location,
      (checkIfHaveRedirection world client).request =
        { client.request with
          redirection := redirection, location := location } := by
  unfold checkIfHaveRedirection
  split
  · exact answerRedirections_request ..
  · exact ⟨_, _, rfl⟩

theorem parseContentLength_redirected (world : W) (client : Client)
    {route : RouteBlock} (hselected :
      client.serverClientObj.selected = some route)
    (hmethod : client.request.method = "POST".toList)
    (hredirection : client.request.redirection = -1)
    (hlocation : client.request.location = []) :
    Redirected world (parseContentLength world client
      (client.request.getMapValues "Content-Length".toList)) route := by
  unfold parseContentLength
  simp only
  generalize hread : extractSizeT
    (client.request.getMapValues "Content-Length".toList) = size
  have hclient : ∀ status, (setResponseError world
      (client.setContentLength size.1) status).LengthTaken ↔
        client.LengthTaken := fun status =>
    Client.lengthTaken_iff (by rw [setResponseError_request]; rfl)
      (by rw [setResponseError_request]; rfl)
      (setResponseError_serverClientObj ..)
  split
  · rename_i hsize
    refine @Redirected.refused _ _ _ _ _ (client.setContentLength size.1) 400
      ?_ hredirection hlocation rfl
    rw [hclient]
    intro htaken
    obtain ⟨hok, hpos, -⟩ := hread ▸ htaken hmethod
    cases hsize with
    | inl hfail => exact absurd (hfail.symm.trans hok) (by decide)
    | inr hzero => exact Nat.lt_irrefl 0 (hzero ▸ hpos)
  split
  · rename_i hlimit
    refine @Redirected.refused _ _ _ _ _ (client.setContentLength size.1) 413
      ?_ hredirection hlocation rfl
    rw [hclient]
    intro htaken
    obtain ⟨-, -, hle⟩ := hread ▸ htaken hmethod
    exact Nat.lt_irrefl _ (Nat.lt_of_lt_of_le hlimit hle)
  · rename_i hsize hlimit
    obtain ⟨redirection, location, hrequest⟩ :=
      checkIfHaveRedirection_request world (client.setContentLength size.1)
    refine @Redirected.answered _ _ _ _ _ (client.setContentLength size.1)
      ?_ (checkIfHaveRedirection_block ..).symm
      (checkIfHaveRedirection_selected world hselected)
    refine (@Client.lengthTaken_iff (checkIfHaveRedirection world
      (client.setContentLength size.1)) client (by rw [hrequest]; rfl)
      (by rw [hrequest]; rfl) (checkIfHaveRedirection_block ..)).mpr ?_
    intro _
    rw [hread]
    refine ⟨?_, ?_, Nat.not_lt.mp hlimit⟩
    · simpa using fun h => hsize (.inl h)
    · exact Nat.pos_of_ne_zero fun hzero => hsize (.inr hzero)

theorem parseTarget_redirected {world : W} {passed parsed : Client}
    {requestPath : Str} {route : RouteBlock}
    (hfresh : passed.serverClientObj.isLocationUrl = none)
    (hredirection : passed.request.redirection = -1)
    (hlocation : passed.request.location = [])
    (h : parseTarget world passed requestPath passed.request.method =
      .ok parsed)
    (hselected : parsed.serverClientObj.selected = some route)
    (hallowed : ServerBlock.isValidMethod parsed.serverClientObj.routes
      parsed.request.path parsed.request.method = true) :
    Redirected world parsed route := by
  unfold parseTarget at h
  obtain ⟨⟨block, located⟩, hlocated, h⟩ := bind_ok h
  simp only [setPath_diskPath_eq] at h
  have hblock : parsed.serverClientObj = block := by
    split at h
    · rw [← Except.ok.inj h, setResponseError_serverClientObj]
      rfl
    split at h
    · rw [← Except.ok.inj h, parseContentLength_block]
      rfl
    · rw [← Except.ok.inj h, checkIfHaveRedirection_block]
      rfl
  rw [hblock] at hselected hallowed
  -- the route is chosen by this request, so that the path leads below its root
  have hpath : diskPath block requestPath located ≠ [] := by
    rcases ServerBlock.isLocationPath_ok hlocated with
      ⟨rfl, -⟩ | ⟨i, chosen, -, -, -, rfl⟩
    · unfold ServerBlock.selected at hselected
      rw [hfresh] at hselected
      cases hselected
    · have hne : chosen.root ++ '/' :: requestPath.drop 1 ≠ [] := by simp
      unfold diskPath
      rw [if_neg fun hempty => hne hempty.2]
      exact hne
  rw [if_neg hpath] at h
  split at h
  · rename_i hrefused
    rw [← Except.ok.inj h, setResponseError_request] at hallowed
    exact absurd (hallowed.symm.trans hrefused) (by decide)
  split at h
  · rename_i hpost
    rw [← Except.ok.inj h]
    exact parseContentLength_redirected world
      ((passed.setBlock block).setPath (diskPath block requestPath located))
      hselected hpost hredirection hlocation
  · rename_i hpost
    obtain ⟨redirection, location, hrequest⟩ := checkIfHaveRedirection_request
      world ((passed.setBlock block).setPath
        (diskPath block requestPath located))
    rw [← Except.ok.inj h]
    refine @Redirected.answered _ _ _ _ _ ((passed.setBlock block).setPath
        (diskPath block requestPath located)) ?_
      (checkIfHaveRedirection_block ..).symm
      (checkIfHaveRedirection_selected world hselected)
    intro hmethod
    rw [hrequest] at hmethod
    exact absurd hmethod hpost

/-- What `get_redirection` makes of the words of a directive it accepts. -/
def Returned (entry : Int × Str) : Prop :=
  ∃ line, getRedirection (words line) = ([entry], true)

theorem Returned.solid {entry : Int × Str} (h : Returned entry) :
    SolidWord entry.2 := by
  obtain ⟨line, hline⟩ := h
  unfold getRedirection at hline
  split at hline
  · rename_i name code url hwords
    split at hline
    · cases hline
    split at hline
    · cases hline
    split at hline
    · cases hline
    · obtain ⟨hentry, -⟩ := Prod.mk.inj hline
      rw [← List.singleton_inj.mp hentry]
      refine @solidWord_of_mem_words line _ ?_
      rw [hwords]
      simp
  · cases hline

theorem Returned.noSpace {entry : Int × Str} (h : Returned entry) {c : Char}
    (hc : c ∈ entry.2) : isspace c = false :=
  h.solid.noSpace c hc

theorem Returned.inline {entry : Int × Str} (h : Returned entry) :
    Inline entry.2 :=
  ⟨fun hmem => absurd (h.noSpace hmem) (by decide),
    fun hmem => absurd (h.noSpace hmem) (by decide)⟩

theorem Returned.trimBy_eq {entry : Int × Str} (h : Returned entry) :
    trimBy isBlank (' ' :: (entry.2 ++ [' '])) = entry.2 := by
  refine trimBy_blanks fun c hc => ?_
  have hspace := h.noSpace hc
  by_contra hblank
  simp only [isBlank, Bool.not_eq_false, decide_eq_true_eq] at hblank
  obtain rfl | rfl := hblank <;> exact absurd hspace (by decide)

theorem Redirected.redirects_iff {world : W} {parsed : Client}
    {route : RouteBlock} (h : Redirected world parsed route)
    (hreturns : ∀ entry ∈ route.redirections, Returned entry)
    (hne : route.redirections ≠ []) (code : Int) (target : Str) :
    parsed.response.readyToSend = true ∧
      (RedirectsTo parsed.response.response code target ↔
        parsed.LengthTaken ∧
        route.redirections.getLast? = some (code, target) ∧
        IsRedirection code ∧
        PageReady world parsed.serverClientObj code) := by
  cases h with
  | refused hlength hredirection hlocation hparsed =>
      rename_i before status
      refine ⟨by rw [hparsed]; simp, iff_of_false ?_ fun hright =>
        hlength hright.1⟩
      rw [hparsed, setResponseError_redirects_iff world
        (by rw [hlocation]; decide), hredirection]
      exact fun hleft => absurd hleft.1 (by decide)
  | answered hlength hblock hparsed =>
      rename_i before
      obtain ⟨front, ⟨last, url⟩, hlast⟩ :=
        (List.eq_nil_or_concat route.redirections).resolve_left hne
      rw [List.concat_eq_append] at hlast
      have hreturned : Returned (last, url) := hreturns _ (by
        rw [hlast]
        simp)
      have hanswer : parsed = setResponseError world
          ((answerRedirections world front before).setRedirection last url)
          last := by
        rw [hparsed, hlast, answerRedirections_append]
        rfl
      have hsame : ((answerRedirections world front before).setRedirection
          last url).serverClientObj = parsed.serverClientObj := by
        rw [← hblock]
        exact answerRedirections_block ..
      refine ⟨by rw [hanswer]; simp, ?_⟩
      have hredirects := @setResponseError_redirects_iff W _ world
        ((answerRedirections world front before).setRedirection last url)
        hreturned.inline last code target
      rw [← hanswer, hsame] at hredirects
      have htrim : trimBy isBlank (' ' :: (url ++ [' '])) = url :=
        hreturned.trimBy_eq
      rw [hredirects, hlast, List.getLast?_concat]
      change IsRedirection last ∧ last = code ∧
        trimBy isBlank (' ' :: (url ++ [' '])) = target ∧ _ ↔ _
      rw [htrim]
      constructor
      · rintro ⟨hcode, rfl, rfl, hready⟩
        exact ⟨hlength, rfl, hcode, hready⟩
      · rintro ⟨-, hentry, hcode, hready⟩
        obtain ⟨rfl, rfl⟩ := Prod.mk.inj (Option.some.inj hentry)
        exact ⟨hcode, rfl, rfl, hready⟩

theorem receive_redirected {process process' : Process W} {fd : Int}
    {block : ServerBlock} {bytes : Str} {client : Client}
    {route : RouteBlock} (hsize : bytes.length ≤ 16383)
    (h : receive process (Client.connect fd block) bytes =
      .ok (process', client))
    (hselected : client.serverClientObj.selected = some route)
    (hallowed : ServerBlock.isValidMethod client.serverClientObj.routes
      client.request.path client.request.method = true) :
    ∃ parsed, Redirected process.world parsed route ∧
      (parsed.response.readyToSend = true →
        client = parsed.setAllRecv true) := by
  rcases receive_cases h with ⟨hall, -, -⟩ | ⟨-, parsed, hparsed, hdispatch⟩
  · cases hall
  rcases parseOnce_cases hparsed with ⟨-, hparse⟩ | ⟨hindex, -⟩
  rotate_left
  · cases hindex
  have hserved := dispatchRequest_served hdispatch
  obtain ⟨file, sRequest, hrequest⟩ := hserved.request
  rw [hserved.block] at hselected hallowed
  rw [hrequest] at hallowed
  refine ⟨parsed, ?_, fun hready => ?_⟩
  · rcases parseRequest_gated process.world (firstBuffer fd block bytes)
      hsize with ⟨answered, heq, -, hsame⟩ |
        ⟨passed, requestPath, hpassed, heq⟩
    · obtain rfl := Except.ok.inj (hparse.symm.trans heq)
      rw [hsame] at hselected
      cases hselected
    · exact parseTarget_redirected (by rw [hpassed.block]; rfl)
        hpassed.redirection hpassed.location (heq.symm.trans hparse)
        hselected hallowed
  · rw [dispatchRequest_of_ready hready] at hdispatch
    exact (Prod.mk.inj (Except.ok.inj hdispatch)).2.symm

/-- The answer to a request for a location with redirections sends the client
to a target exactly if it is the last one and the builders know its code. -/
theorem receive_redirects_iff {process process' : Process W} {fd : Int}
    {block : ServerBlock} {bytes : Str} {client : Client}
    {route : RouteBlock} {code : Int} {target : Str}
    (hsize : bytes.length ≤ 16383)
    (h : receive process (Client.connect fd block) bytes =
      .ok (process', client))
    (hselected : client.serverClientObj.selected = some route)
    (hallowed : ServerBlock.isValidMethod client.serverClientObj.routes
      client.request.path client.request.method = true)
    (hreturns : ∀ entry ∈ route.redirections, Returned entry)
    (hentry : (code, target) ∈ route.redirections) :
    RedirectsTo client.response.response code target ↔
      client.LengthTaken ∧
      route.redirections.getLast? = some (code, target) ∧
      IsRedirection code ∧
      PageReady process.world client.serverClientObj code := by
  obtain ⟨parsed, hredirected, hclient⟩ :=
    receive_redirected hsize h hselected hallowed
  obtain ⟨hready, hiff⟩ := hredirected.redirects_iff hreturns
    (List.ne_nil_of_mem hentry) code target
  rw [hclient hready]
  exact hiff

end Answer

/-! A location that has moved, with either code. -/

def movedRoute (code : Int) : RouteBlock where
  uri := "/old".toList
  redirections := [(code, "/new".toList)]

def movedBlock (code : Int) : ServerBlock where
  routes := [movedRoute code]

def getOld : Str := "GET /old HTTP/1.1\r\n\r\n".toList

def movedProcess : Process Disk where
  world := ⟨[]⟩

def Client.ComesTo (client : Client) (route : RouteBlock) : Prop :=
  client.serverClientObj.selected = some route ∧
    ServerBlock.isValidMethod client.serverClientObj.routes
      client.request.path client.request.method = true

instance (client : Client) (route : RouteBlock) :
    Decidable (client.ComesTo route) :=
  inferInstanceAs (Decidable (_ ∧ _))

theorem receive_moved {code : Int}
    (h : ((receive movedProcess (Client.connect 5 (movedBlock code))
      getOld).toOption.map fun final =>
        decide (final.2.ComesTo (movedRoute code))) = some true) :
    ∃ process' client, receive movedProcess
        (Client.connect 5 (movedBlock code)) getOld = .ok (process', client) ∧
      client.ComesTo (movedRoute code) := by
  obtain ⟨⟨process', client⟩, hcall, hcomes⟩ := ok_of_toOption_map h
  exact ⟨process', client, hcall, of_decide_eq_true hcomes⟩

theorem returned_moved {code : Int} {word : Str} (hword :
    getRedirection (words ("return ".toList ++ word ++ " /new".toList)) =
      ([(code, "/new".toList)], true)) :
    ∀ entry ∈ (movedRoute code).redirections, Returned entry := by
  intro entry hentry
  rw [List.mem_singleton.mp hentry]
  exact ⟨_, hword⟩

theorem receive_redirects_moved :
    ∃ process' client, receive movedProcess
        (Client.connect 5 (movedBlock 301)) getOld = .ok (process', client) ∧
      (RedirectsTo client.response.response 301 "/new".toList ↔
        client.LengthTaken ∧
        (movedRoute 301).redirections.getLast? = some (301, "/new".toList) ∧
        IsRedirection 301 ∧
        PageReady movedProcess.world client.serverClientObj 301) := by
  obtain ⟨process', client, hcall, hselected, hallowed⟩ :=
    @receive_moved 301 (by decide +kernel)
  exact ⟨process', client, hcall, receive_redirects_iff (by decide) hcall
    hselected hallowed (@returned_moved 301 "301".toList (by decide))
    List.mem_cons_self⟩

/-- A target with the code 303 does not reach the client. -/
theorem receive_lost_moved :
    ∃ process' client, receive movedProcess
        (Client.connect 5 (movedBlock 303)) getOld = .ok (process', client) ∧
      client.ComesTo (movedRoute 303) ∧
      Returned (303, "/new".toList) ∧
      ¬RedirectsTo client.response.response 303 "/new".toList := by
  obtain ⟨process', client, hcall, hcomes⟩ :=
    @receive_moved 303 (by decide +kernel)
  have hreturns := @returned_moved 303 "303".toList (by decide)
  obtain ⟨parsed, hredirected, hclient⟩ :=
    receive_redirected (by decide) hcall hcomes.1 hcomes.2
  obtain ⟨hready, hiff⟩ := hredirected.redirects_iff hreturns
    (List.cons_ne_nil _ _) 303 "/new".toList
  refine ⟨process', client, hcall, hcomes, hreturns _ List.mem_cons_self, ?_⟩
  rw [hclient hready]
  exact fun hredirects =>
    absurd (hiff.mp hredirects).2.2.1 (by decide)

end Webserv
