import Webserv.HeadCuts

namespace Webserv

open Cxx Coding

/-! The header map of a head, and heads that differ in their header lines. -/

/-- The value of a header line; one without a colon has that of the line
before. -/
def lineValue (line value : Str) : Str :=
  trim (trimNonPrintable
    (match search? [':'] line with
    | some pos => line.drop (pos + 1)
    | none => value))

def headerFields : List Str → Str → List (Str × Str) → List (Str × Str)
  | [], _, map => map
  | line :: rest, value, map =>
      headerFields rest (lineValue line value)
        (mapAssign (lineKey line) (lineValue line value) map)

/-- The header map of a head, in which the blank line is one more line. -/
def RequestHead.fields (head : RequestHead) : List (Str × Str) :=
  headerFields (head.headers.map (· ++ ['\r']) ++ [['\r']]) [] []

def Client.setHeaders (client : Client) (map : List (Str × Str)) : Client :=
  { client with request := { client.request with headersMap := map } }

section Parse

variable {W : Type} [Os W]

theorem headerEntry_eq {line value : Str} :
    ∃ entered, headerEntry line value = .ok (lineKey line, entered) ∧
      trim (trimNonPrintable entered) = lineValue line value :=
  ⟨_, headerEntry_key line value, rfl⟩

theorem addHeader_of_not_alive {client : Client}
    (halive : client.keepAlive = false) (key value : Str) :
    addHeader client key value = client.setHeaders
      (mapAssign key value client.request.headersMap) := by
  have hset : client.setAlive false = client := by
    rw [← halive]
    rfl
  unfold addHeader
  simp only [hset, ite_self]
  rfl

theorem fillHeadersLoop_fields (world : W) {lines : List Str}
    (h : ∀ line ∈ lines, Taken line) (value : Str) {client : Client}
    (halive : client.keepAlive = false)
    (hmap : lines ≠ [] ∨ client.request.headersMap ≠ []) :
    fillHeadersLoop world lines value client =
      .ok (client.setHeaders
        (headerFields lines value client.request.headersMap), true) := by
  induction lines generalizing value client with
  | nil =>
      rw [fillHeadersLoop, if_neg (hmap.resolve_left (by simp))]
      rfl
  | cons line rest ih =>
      obtain ⟨entered, hentry, hvalue⟩ := @headerEntry_eq line value
      rw [fillHeadersLoop_cons world (h line List.mem_cons_self) hentry, hvalue,
        addHeader_of_not_alive halive]
      have hentered : (client.setHeaders (mapAssign (lineKey line)
          (lineValue line value) client.request.headersMap)).request.headersMap
            ≠ [] := mapAssign_ne_nil _ _ _
      rw [ih (fun other hother => h other (List.mem_cons_of_mem _ hother))
        (lineValue line value) (by exact halive) (.inr hentered)]
      rfl

theorem RequestHead.WellFormed.taken {head : RequestHead}
    (h : head.WellFormed) :
    ∀ line ∈ head.headers.map (· ++ ['\r']) ++ [['\r']], Taken line := by
  intro line hline
  cases List.mem_append.mp hline with
  | inl hheader =>
      obtain ⟨header, hmem, rfl⟩ := List.mem_map.mp hheader
      exact ((h.headers header hmem).part (by simp) (List.prefix_refl _)).1
  | inr hblank =>
      rw [List.mem_singleton.mp hblank]
      exact ⟨by decide, by decide, by decide⟩

variable {process : Process W} {client parsed : Client}

theorem parseOnce_sameLine (hrequest : client.request = {})
    {head : RequestHead} (h : head.WellFormed)
    (hparsed : parseOnce process.world
      (client.setSRequest head.text).forgetLocation = .ok parsed)
    (haccepted : parsed.response.readyToSend = false) :
    ∃ (client₁ : Client) (pa method : Str), client₁.request.method = method ∧
      ∀ other : RequestHead, other.WellFormed → other.line = head.line →
        parseOnce process.world
          (client.setSRequest other.text).forgetLocation =
            parseTarget process.world (client₁.setHeaders other.fields) pa
              method := by
  let base := (client.forgetLocation.setIndex true).setAlive false
  have hbase : base.request.headersMap = [] := by
    change client.request.headersMap = []
    rw [hrequest]
  have hline : ∀ other : RequestHead, other.WellFormed →
      parseOnce process.world
        (client.setSRequest other.text).forgetLocation =
          (parseRequestLine process.world base ((other.line ++ ['\r']) ::
            (other.headers.map (· ++ ['\r']) ++ [['\r']]))).map
              (·.setSRequest []) := by
    intro other hother
    rw [parseOnce_fresh hrequest, ← List.append_nil other.text,
      parseRequest_append _ _ hother.complete, hother.getlines_text]
  rcases parseRequestLine_cases process.world base (head.line ++ ['\r']) with
    ⟨answered, hrefused, hanswered⟩ | ⟨fault, hfault⟩ |
      ⟨client₁, pa, method, hmap, hmethod, halive, hpasses⟩
  · rw [hline head h, hanswered] at hparsed
    rw [← Except.ok.inj hparsed] at haccepted
    exact absurd (hrefused.1.symm.trans haccepted) (by simp)
  · rw [hline head h, hfault] at hparsed
    cases hparsed
  · refine ⟨client₁.setSRequest [], pa, method, hmethod,
      fun other hother hsame => ?_⟩
    rw [hline other hother, hsame, hpasses, fillHeadersMap,
      fillHeadersLoop_fields _ hother.taken [] halive (.inl (by simp)),
      hmap, hbase]
    exact (parseTarget_setSRequest ..).symm

/-! The choice of the location does not read the header map but for the
length of the body. -/

theorem answerRedirections_eq_nil {world : W}
    {redirections : List (Int × Str)} {client : Client}
    (h : (answerRedirections world redirections
      client).response.readyToSend = false) : redirections = [] := by
  rcases answerRedirections_frame world redirections client with
    ⟨hnil, -⟩ | hready
  · exact hnil
  · rw [hready] at h
    cases h

theorem checkIfHaveRedirection_of_block {world : W} {client other : Client}
    (h : (checkIfHaveRedirection world client).response.readyToSend = false)
    (hblock : other.serverClientObj = client.serverClientObj) :
    checkIfHaveRedirection world other = other := by
  unfold checkIfHaveRedirection at h ⊢
  rw [hblock]
  cases hselected : client.serverClientObj.selected with
  | none => rfl
  | some route =>
      rw [hselected] at h
      simp only at h ⊢
      rw [answerRedirections_eq_nil h]
      rfl

theorem parseContentLength_redirection {world : W} {client other : Client}
    {tmp : Str}
    (h : (parseContentLength world client tmp).response.readyToSend = false)
    (hblock : other.serverClientObj = client.serverClientObj) :
    checkIfHaveRedirection world other = other := by
  unfold parseContentLength at h
  simp only at h
  split at h
  · simp at h
  split at h
  · simp at h
  · exact checkIfHaveRedirection_of_block h hblock

theorem parseTarget_setHeaders {world : W} {pa : Str}
    {map : List (Str × Str)}
    (h : parseTarget world (client.setHeaders map) pa "POST".toList =
      .ok parsed) (haccepted : parsed.response.readyToSend = false)
    (map' : List (Str × Str)) :
    parseTarget world (client.setHeaders map') pa "POST".toList =
        .ok (parseContentLength world (parsed.setHeaders map')
          ((parsed.setHeaders map').request.getMapValues
            "Content-Length".toList)) ∧
      ∀ other : Client, other.serverClientObj = parsed.serverClientObj →
        checkIfHaveRedirection world other = other := by
  obtain ⟨block, located, size, hlocated, hvalid, -, hparsed⟩ :=
    parseTarget_accepted h haccepted
  have hplain := h
  unfold parseTarget at hplain ⊢
  simp only [setPath_diskPath_eq] at hplain ⊢
  rw [show (client.setHeaders map).serverClientObj = client.serverClientObj
    from rfl] at hplain hlocated
  rw [show (client.setHeaders map').serverClientObj = client.serverClientObj
    from rfl]
  have hallowed : ¬ServerBlock.isValidMethod block.routes
      (diskPath block pa located) "POST".toList = false := by
    rw [hvalid]
    exact Bool.noConfusion
  simp only [hlocated, bind, Except.bind] at hplain ⊢
  rw [if_neg hallowed, if_pos trivial] at hplain
  rw [if_neg hallowed, if_pos trivial, hparsed]
  refine ⟨rfl, fun other hblock => ?_⟩
  have hready := haccepted
  rw [← Except.ok.inj hplain] at hready
  exact parseContentLength_redirection hready hblock

theorem parseContentLength_accepted {world : W} {client : Client}
    {tmp : Str} {size : Nat} (hsize : extractSizeT tmp = (size, false))
    (hpositive : 0 < size) (hlimit : size ≤ client.serverClientObj.clientBodySize)
    (hredirection : ∀ other : Client,
      other.serverClientObj = client.serverClientObj →
        checkIfHaveRedirection world other = other) :
    parseContentLength world client tmp = client.setContentLength size := by
  unfold parseContentLength
  simp only [hsize]
  rw [if_neg (by simp; omega), if_neg (by
    change ¬size > client.serverClientObj.clientBodySize
    omega)]
  exact hredirection _ rfl

theorem parseContentLength_size {world : W} {client : Client} {tmp : Str}
    (h : (parseContentLength world client tmp).response.readyToSend =
      false) :
    (parseContentLength world client tmp).request.contentLength =
      (extractSizeT tmp).1 := by
  unfold parseContentLength at h ⊢
  simp only at h ⊢
  split at h
  · simp at h
  split at h
  · simp at h
  rename_i hsize hlimit
  rw [if_neg hsize, if_neg hlimit, checkIfHaveRedirection_of_not_ready h]
  rfl

end Parse

/-! The framing of a body in two heads. -/

/-- The length a head announces, if it names one. -/
def RequestHead.Announces (head : RequestHead) : Option Nat → Prop
  | none => head.fields.lookup "Content-Length".toList = none
  | some size => ∃ value,
      head.fields.lookup "Content-Length".toList = some value ∧
        extractSizeT value = (size, false)

/-- The same head for a body as it is, and for one in chunks. -/
structure Recoded (plain chunked : RequestHead) : Prop where
  line : chunked.line = plain.line
  same : ∀ key, key ≠ "Content-Length".toList →
    key ≠ "Transfer-Encoding".toList → key ≠ ['\r'] →
      chunked.fields.lookup key = plain.fields.lookup key
  uncoded : plain.fields.lookup "Transfer-Encoding".toList = none
  coded : chunked.fields.lookup "Transfer-Encoding".toList =
    some "chunked".toList
  formed : plain.WellFormed
  formedChunked : chunked.WellFormed

section Framing

variable {W : Type} [Os W] {process : Process W} {client parsed : Client}
  {plain chunked : RequestHead}

theorem getMapValues_congr {request other : Request} {key : Str}
    (h : request.headersMap.lookup key = other.headersMap.lookup key) :
    request.getMapValues key = other.getMapValues key := by
  unfold Request.getMapValues
  rw [h]

theorem Recoded.parses (h : Recoded plain chunked)
    (hrequest : client.request = {})
    (hparsed : parseOnce process.world
      (client.setSRequest plain.text).forgetLocation = .ok parsed)
    (haccepted : parsed.response.readyToSend = false)
    (hmethod : parsed.request.method = "POST".toList) {size : Nat}
    (hplain : plain.Announces (some size)) :
    parsed.request.contentLength = size ∧
      parsed.request.headersMap = plain.fields ∧
      (chunked.Announces none → ∃ answered,
        parseOnce process.world
          (client.setSRequest chunked.text).forgetLocation =
            .ok (setResponseError process.world answered 400)) ∧
      ∀ announced, chunked.Announces (some announced) → 0 < announced →
        announced ≤ parsed.serverClientObj.clientBodySize →
          parseOnce process.world
            (client.setSRequest chunked.text).forgetLocation =
              .ok ((parsed.setHeaders chunked.fields).setContentLength
                announced) := by
  obtain ⟨client₁, pa, method, hsame, hparses⟩ :=
    parseOnce_sameLine hrequest h.formed hparsed haccepted
  have htarget := (hparses plain h.formed rfl).symm.trans hparsed
  obtain ⟨block, located, size', -, -, -, heq⟩ :=
    parseTarget_accepted htarget haccepted
  have hpost : method = "POST".toList := by
    rw [← hmethod, ← hsame, heq]
    rfl
  subst hpost
  have hfields : parsed.request.headersMap = plain.fields := by
    rw [heq]
    rfl
  have hwhole := parseTarget_setHeaders htarget haccepted
  have hsetPlain : parsed.setHeaders plain.fields = parsed := by
    rw [← hfields]
    rfl
  refine ⟨?_, hfields, fun hnone => ?_, fun announced hsome hpositive hlimit => ?_⟩
  · obtain ⟨value, hvalue, hsize⟩ := hplain
    have hagain := (hwhole plain.fields).1
    rw [hsetPlain, htarget] at hagain
    have hself := Except.ok.inj hagain
    have hready := haccepted
    rw [hself] at hready
    have hlength := parseContentLength_size hready
    rw [← hself] at hlength
    rw [hlength, Request.getMapValues, hfields, hvalue, hsize]
  · refine ⟨(parsed.setHeaders chunked.fields).setContentLength 0, ?_⟩
    rw [hparses chunked h.formedChunked h.line, (hwhole chunked.fields).1]
    have hmissing : (parsed.setHeaders chunked.fields).request.getMapValues
        "Content-Length".toList = "NULL".toList := by
      unfold Request.getMapValues
      rw [show (parsed.setHeaders chunked.fields).request.headersMap =
        chunked.fields from rfl, hnone]
    rw [hmissing]
    rfl
  · obtain ⟨value, hvalue, hsize⟩ := hsome
    rw [hparses chunked h.formedChunked h.line, (hwhole chunked.fields).1]
    have hfound : (parsed.setHeaders chunked.fields).request.getMapValues
        "Content-Length".toList = value := by
      unfold Request.getMapValues
      rw [show (parsed.setHeaders chunked.fields).request.headersMap =
        chunked.fields from rfl, hvalue]
    rw [hfound]
    exact congrArg Except.ok (parseContentLength_accepted hsize hpositive
      hlimit (hwhole chunked.fields).2)

end Framing

end Webserv
