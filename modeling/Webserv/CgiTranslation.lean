import Webserv.Redirections

namespace Webserv

open Cxx Coding

/-! The output of `php-cgi`, and the response `exec_script` makes of it. -/

/-- Header lines, a blank line and a body. -/
structure PhpOutput where
  headers : List Str
  body : Str
  deriving DecidableEq, Repr

/-- The name in lower case and the value without blanks around it. -/
def fieldPair (line : Str) : Str × Str :=
  ((line.takeWhile (· ≠ ':')).map Char.toLower,
    trimBy isBlank ((line.dropWhile (· ≠ ':')).drop 1))

namespace PhpOutput

def headerText (output : PhpOutput) : Str := crlf.intercalate output.headers

def text (output : PhpOutput) : Str :=
  output.headerText ++ blankLine ++ output.body

/-- What the `Status` header says, wherever it stands. -/
def status (output : PhpOutput) : Int :=
  match output.headers.findSome? (fieldValue "status".toList) with
  | some value => extractInt value
  | none => 200

def otherHeaders (output : PhpOutput) : List Str :=
  output.headers.filter fun line => fieldValue "status".toList line = none

def WellFormed (output : PhpOutput) : Prop :=
  ∀ line ∈ output.headers, Inline line ∧ HeaderField line

end PhpOutput

/-- A message with the status, the other headers and the body of an output. -/
def Relays (text : Str) (output : PhpOutput) : Prop :=
  ∃ reason fields,
    Message text (("HTTP/1.1 ".toList ++ decimalInt output.status ++
      ' ' :: reason) :: fields) output.body ∧
    ThreeDigits output.status ∧
    (∀ field ∈ fields, HeaderField field) ∧
    ∀ header ∈ output.otherHeaders, fieldPair header ∈ fields.map fieldPair

theorem relays_iff_of_message {text first body : Str} {fields : List Str}
    (h : Message text (first :: fields) body) (output : PhpOutput) :
    Relays text output ↔
      (∃ reason, first = "HTTP/1.1 ".toList ++ decimalInt output.status ++
        ' ' :: reason) ∧
      ThreeDigits output.status ∧ (∀ field ∈ fields, HeaderField field) ∧
      (∀ header ∈ output.otherHeaders,
        fieldPair header ∈ fields.map fieldPair) ∧
      output.body = body := by
  constructor
  · rintro ⟨reason, fields', h', hdigits, hfields, hothers⟩
    obtain ⟨hlines, hbody⟩ := h.unique h'
    obtain ⟨rfl, rfl⟩ := List.cons.inj hlines
    exact ⟨⟨reason, rfl⟩, hdigits, hfields, hothers, hbody.symm⟩
  · rintro ⟨⟨reason, rfl⟩, hdigits, hfields, hothers, rfl⟩
    exact ⟨reason, fields, h, hdigits, hfields, hothers⟩

theorem Relays.wellFormed {text : Str} {output : PhpOutput}
    (h : Relays text output) : WellFormedMessage text := by
  obtain ⟨reason, fields, hmessage, hdigits, hfields, -⟩ := h
  exact ⟨_, fields, output.body, hmessage,
    ⟨decimalInt output.status, reason, rfl, hdigits.1, hdigits.2⟩, hfields⟩

theorem not_relays_body (output : PhpOutput) : ¬Relays output.body output := by
  rintro ⟨reason, fields, hmessage, -⟩
  have hlength := congrArg List.length hmessage.text_eq
  rw [List.length_append, List.length_append,
    show crlf.length = 2 from rfl] at hlength
  omega

theorem PhpOutput.search_text {output : PhpOutput} (h : output.WellFormed) :
    search? blankLine output.text = some output.headerText.length := by
  have hsolid : ∀ line ∈ output.headers, Solid line := by
    intro line hline
    obtain ⟨⟨hreturn, hbreak⟩, name, value, heq, hname⟩ := h line hline
    refine ⟨hbreak, by rw [heq]; simp, fun hhead => ?_⟩
    exact hreturn (List.mem_of_mem_head? hhead)
  have hjoin : ∀ lines : List Str, lines ≠ [] →
      joinCrlf lines = crlf.intercalate lines ++ crlf := by
    intro lines
    induction lines with
    | nil => exact fun hne => absurd rfl hne
    | cons line rest ih =>
        intro _
        cases rest with
        | nil => simp
        | cons next more =>
            rw [joinCrlf_cons, ih (List.cons_ne_nil _ _)]
            simp [List.intercalate, List.intersperse]
  unfold PhpOutput.text PhpOutput.headerText
  apply search?_append_of_some
  cases hheaders : output.headers with
  | nil => decide
  | cons first lines =>
      rw [hheaders] at hsolid
      obtain ⟨position, hfound, hlength⟩ := @search_blankLine first lines
        (hsolid first List.mem_cons_self).noBreak
        fun line hline => hsolid line (List.mem_cons_of_mem _ hline)
      rw [hjoin _ (List.cons_ne_nil _ _), List.append_assoc] at hfound hlength
      rw [List.length_append, show (crlf ++ crlf).length = 4 from rfl]
        at hlength
      have hposition : position =
          (crlf.intercalate (first :: lines)).length := by omega
      rw [← hposition]
      exact hfound

theorem PhpOutput.checkContent_text {output : PhpOutput}
    (h : output.WellFormed) :
    checkContent output.text =
      (output.body, checkStatus output.headerText) := by
  have hblank : "\r\n\r\n".toList = blankLine := rfl
  have hdrop : output.text.drop (output.headerText.length + 4) =
      output.body := by
    rw [show output.headerText.length + 4 =
      (output.headerText ++ blankLine).length by
        rw [List.length_append]
        rfl]
    exact List.drop_left
  have htake : output.text.take output.headerText.length =
      output.headerText := by
    unfold PhpOutput.text
    rw [List.append_assoc]
    exact List.take_left
  unfold checkContent
  rw [hblank, search_text h]
  simp only [hdrop, htake]

section Exec

variable {W : Type} [Os W]

/-- What is sent: the text stored, and the file left open behind it. -/
def Client.sent (client : Client) : Str :=
  client.response.response ++ client.response.fileStream.content.getD []

structure Client.Unanswered (client : Client) : Prop where
  response : client.response = {}
  redirection : client.request.redirection = -1
  location : client.request.location = []

/-- The lines behind the status line of a page that is sent from a file. -/
def pageFields (client : Client) (page : Str) (n : Nat) : List Str :=
  ["Content-Type:".toList ++ getContentType page, lengthLine n,
    "Accept-Ranges: bytes".toList, aliveLine client]

/-- The output starts with a status that is answered with a configured page,
and says what this page says. -/
def PhpOutput.RepeatsPage (output : PhpOutput) (world : W)
    (client : Client) : Prop :=
  let status := checkStatus output.headerText
  let page := client.serverClientObj.findErrorPagePath status
  (status = 500 ∨ status = 404) ∧ page ≠ "NULL".toList ∧
    if Os.opens world page then
      output.status = status ∧ output.body = Os.readable world page ∧
        ∀ header ∈ output.otherHeaders, fieldPair header ∈
          (pageFields client page (Os.announced world page)).map fieldPair
    else
      output.status = 500 ∧ output.body = status500 ∧
        ∀ header ∈ output.otherHeaders,
          fieldPair header ∈ [typeLine, aliveLine client].map fieldPair

theorem execScript_php {process : Process W} {client : Client}
    {script : Script} {world : W} {output : PhpOutput}
    (hphp : checkExtension script.argument = 1)
    (hrun : Os.run process.world script = (world, .exited 0 output.text))
    (h : output.WellFormed) :
    (execScript process client script).2 =
      if checkStatus output.headerText = 500 then
        setResponseError world client 500
      else if checkStatus output.headerText = 404 then
        setResponseError world client 404
      else client.setResponse (client.response.response ++ output.body) := by
  unfold execScript scriptOutput
  rw [hrun]
  simp only
  rw [if_neg (by decide), if_neg (by decide), if_pos hphp,
    PhpOutput.checkContent_text h]
  simp only
  split
  · rfl
  split <;> rfl

theorem fileLines_of_unanswered {client : Client} (h : client.Unanswered)
    (page : Str) (status : Int) (n : Nat) :
    fileLines client page status n =
      ("HTTP/1.1 ".toList ++ decimalInt status ++
        ' ' :: (getResponseTitle status ++ " ".toList)) ::
          pageFields client page n := by
  unfold fileLines pageFields
  rw [if_pos h.redirection, List.cons_append, List.append_assoc,
    List.append_assoc]
  rfl

theorem headerField_pageFields {client : Client} {page line : Str} {n : Nat}
    (h : line ∈ pageFields client page n) : HeaderField line := by
  simp only [pageFields, List.mem_cons, List.not_mem_nil, or_false] at h
  rcases h with rfl | rfl | rfl | rfl
  · exact headerField_type _
  · exact @headerField_tail client n _ (by simp)
  · exact ⟨"Accept-Ranges".toList, " bytes".toList, rfl, by decide⟩
  · exact @headerField_tail client n _ (by simp)

theorem stored_unopened_stream {world : W} {client : Client} {status : Int}
    (hpage : client.serverClientObj.findErrorPagePath status ≠
      "NULL".toList)
    (hopen : Os.opens world
      (client.serverClientObj.findErrorPagePath status) = false) :
    (setResponseError world client status).response.fileStream.content =
      none := by
  unfold setResponseError
  simp only [if_neg hpage]
  exact (fillResponse_unopened hopen (client.setAllRecv true) status).2

theorem setResponseError_relays_iff {world : W} {client : Client}
    (hclient : client.Unanswered) {status : Int}
    (hstatus : ThreeDigits status) (output : PhpOutput) {page : Str}
    (hsame : client.serverClientObj.findErrorPagePath status = page) :
    Relays (setResponseError world client status).sent output ↔
      page ≠ "NULL".toList ∧
        if Os.opens world page then
          output.status = status ∧ output.body = Os.readable world page ∧
            ∀ header ∈ output.otherHeaders, fieldPair header ∈
              (pageFields client page (Os.announced world page)).map
                fieldPair
        else
          output.status = 500 ∧ output.body = status500 ∧
            ∀ header ∈ output.otherHeaders,
              fieldPair header ∈ [typeLine, aliveLine client].map
                fieldPair := by
  subst hsame
  have hinline : Inline client.request.location := by
    rw [hclient.location]
    decide
  by_cases hpage : client.serverClientObj.findErrorPagePath status =
      "NULL".toList
  · obtain ⟨htext, hstream⟩ := stored_builtIn world hpage
    refine iff_of_false (fun hrelays => ?_) fun hright => hright.1 hpage
    have hwell := hrelays.wellFormed
    unfold Client.sent at hwell
    rw [htext, hstream, hclient.response] at hwell
    exact not_wellFormed_builtIn hinline status
      (List.append_nil (builtInResponse client status) ▸ hwell)
  rw [and_iff_right hpage]
  cases hopen : Os.opens world
      (client.serverClientObj.findErrorPagePath status) with
  | false =>
      rw [if_neg Bool.false_ne_true]
      have hsent : (setResponseError world client status).sent =
          unreadablePageResponse client status := by
        unfold Client.sent
        rw [stored_unopened hpage hopen,
          stored_unopened_stream hpage hopen, Option.getD_none,
          List.append_nil]
      have hmessage := unreadable_message client status
      have hcode : "500".toList = decimalInt 500 := by decide
      unfold unreadableLines at hmessage
      rw [hcode] at hmessage
      rw [hsent, relays_iff_of_message hmessage, statusLine_code_iff]
      constructor
      · rintro ⟨hcode, -, -, hothers, hbody⟩
        exact ⟨hcode.symm, hbody, hothers⟩
      · rintro ⟨hcode, hbody, hothers⟩
        refine ⟨hcode.symm, ?_, fun field hfield => ?_, hothers, hbody⟩
        · rw [hcode]
          exact ⟨by decide, by decide⟩
        · refine @headerField_tail client 0 field ?_
          rcases List.mem_cons.mp hfield with rfl | hfield
          · exact List.mem_cons_self
          · exact List.mem_cons_of_mem _ (List.mem_cons_of_mem _ hfield)
  | true =>
      rw [if_pos rfl]
      obtain ⟨htext, hstream⟩ := stored_opened hpage hopen
      generalize client.serverClientObj.findErrorPagePath status = page
        at hpage hopen htext hstream ⊢
      have hfile := file_message hinline page status (Os.announced world page)
      have hmessage : Message (setResponseError world client status).sent
          (fileLines client page status (Os.announced world page))
          (Os.readable world page) := by
        refine ⟨?_, hfile.inline, hfile.ne_nil⟩
        unfold Client.sent
        rw [htext, hstream]
        rfl
      rw [fileLines_of_unanswered hclient] at hmessage
      rw [relays_iff_of_message hmessage, statusLine_code_iff]
      constructor
      · rintro ⟨hcode, -, -, hothers, hbody⟩
        exact ⟨hcode.symm, hbody, hothers⟩
      · rintro ⟨hcode, hbody, hothers⟩
        exact ⟨hcode.symm, hcode.symm ▸ hstatus,
          fun field hfield => headerField_pageFields hfield, hothers, hbody⟩

/-- The stored response relays the output of a script if and only if it is an
error page that says the same. -/
theorem execScript_relays_iff {process : Process W} {client : Client}
    {script : Script} {world : W} {output : PhpOutput}
    (hclient : client.Unanswered)
    (hphp : checkExtension script.argument = 1)
    (hrun : Os.run process.world script = (world, .exited 0 output.text))
    (houtput : output.WellFormed) :
    Relays (execScript process client script).2.sent output ↔
      output.RepeatsPage world client := by
  rw [execScript_php hphp hrun houtput]
  unfold PhpOutput.RepeatsPage
  by_cases hfailed : checkStatus output.headerText = 500
  · rw [if_pos hfailed, setResponseError_relays_iff hclient
      ⟨by decide, by decide⟩ output rfl]
    simp only [hfailed, true_or, true_and]
  rw [if_neg hfailed]
  by_cases hmissing : checkStatus output.headerText = 404
  · rw [if_pos hmissing, setResponseError_relays_iff hclient
      ⟨by decide, by decide⟩ output rfl]
    simp only [hmissing, or_true, true_and]
  rw [if_neg hmissing]
  refine iff_of_false (fun hrelays => ?_) fun hright =>
    hright.1.elim hfailed hmissing
  have hsent : (client.setResponse (client.response.response ++
      output.body)).sent = output.body := by
    unfold Client.sent Client.setResponse
    rw [hclient.response]
    exact List.append_nil _
  exact not_relays_body output (hsent ▸ hrelays)

end Exec

/-! A script that prints a page. -/

def helloOutput : PhpOutput where
  headers := ["Content-type: text/html".toList]
  body := "hello".toList

def helloScript : Script where
  interpreter := "/usr/bin/php-cgi".toList
  argument := "./html/a.php".toList
  environment := []
  input := helloOutput.text

theorem helloOutput_wellFormed : helloOutput.WellFormed := by
  intro line hline
  rw [List.mem_singleton.mp hline]
  exact ⟨by decide, "Content-type".toList, " text/html".toList, by decide,
    by decide⟩

theorem execScript_relays_hello :
    Relays (execScript movedProcess (Client.connect 5 {}) helloScript).2.sent
        helloOutput ↔
      helloOutput.RepeatsPage movedProcess.world (Client.connect 5 {}) :=
  execScript_relays_iff ⟨rfl, rfl, rfl⟩ (by decide) rfl helloOutput_wellFormed

/-- Nothing but the body of the page is stored. -/
theorem execScript_drops_hello :
    (execScript movedProcess (Client.connect 5 {}) helloScript).2.sent =
        "hello".toList ∧
      helloOutput.WellFormed ∧
      ¬Relays (execScript movedProcess (Client.connect 5 {})
        helloScript).2.sent helloOutput := by
  have hsent : (execScript movedProcess (Client.connect 5 {})
      helloScript).2.sent = helloOutput.body := by
    rw [@execScript_php Disk _ movedProcess (Client.connect 5 {}) helloScript
      movedProcess.world helloOutput (by decide) rfl helloOutput_wellFormed]
    decide
  refine ⟨hsent, helloOutput_wellFormed, ?_⟩
  rw [hsent]
  exact not_relays_body helloOutput

end Webserv
