import Webserv.CheckRequest
import Webserv.Coding.Message

namespace Webserv

open Cxx Coding

/-! The texts that are stored as a response, and when they are messages. -/

/-- The call that builds a response, with what it is called on. -/
inductive Answer (W : Type)
  | error (world : W) (client : Client) (status : Int)
  | file (world : W) (client : Client) (path : Str)
  | listing (client : Client) (base : Str) (names : List Str)

def listingFooter : Str := "</ul>\n</div>\n</body>\n</html>\n".toList

def listingResponse (client : Client) (base : Str) (names : List Str) : Str :=
  "HTTP/1.1 200 OK\r\n".toList ++ "Content-Length: ".toList ++
    decimal (listingHead ++ listingEntries base names).length ++
    "\r\n".toList ++ "Content-Type: text/html; charset=UTF-8\r\n".toList ++
    connectionLine client ++ "\r\n".toList ++
    (listingHead ++ listingEntries base names ++ listingFooter)

theorem directoryListing_ok {client client' : Client} {names : List Str}
    (h : directoryListing client names = .ok client') :
    ∃ base, client' = (client.setResponseStatus 200).setResponse
      (listingResponse client base names) := by
  unfold directoryListing at h
  simp only at h
  split at h
  · exact ⟨[], (Except.ok.inj h).symm⟩
  · obtain ⟨base, -, h⟩ := bind_ok h
    exact ⟨base, (Except.ok.inj h).symm⟩

section Answers

variable {W : Type} [Os W]

namespace Answer

def client : Answer W → Client
  | error _ client _ => client
  | file _ client _ => client
  | listing client _ _ => client

def stored : Answer W → Client
  | error world client status => setResponseError world client status
  | file world client path => sendFile world client path
  | listing client base names =>
      (client.setResponseStatus 200).setResponse
        (listingResponse client base names)

def text (answer : Answer W) : Str := answer.stored.response.response

/-- The file that is left open behind it. -/
def leftOpen (answer : Answer W) : Str :=
  answer.stored.response.fileStream.content.getD []

end Answer

/-! The lines of the texts. -/

def typeLine : Str := "Content-Type: text/html; charset=UTF-8".toList

def lengthLine (n : Nat) : Str := "Content-Length: ".toList ++ decimal n

def aliveLine (client : Client) : Str :=
  if client.keepAlive then "Connection: keep-alive".toList
  else "Connection: close".toList

theorem connectionLine_eq (client : Client) :
    connectionLine client = aliveLine client ++ crlf := by
  unfold connectionLine aliveLine
  split <;> rfl

/-- The lines of a redirection, the second one of which is unfinished. -/
def redirectionFirst (redirection : Int) : Str :=
  if redirection = 301 then "HTTP/1.1 301 Moved Permanently".toList
  else "HTTP/1.1 302 Found".toList

def locationLine (location : Str) : Str :=
  "Location: ".toList ++ location ++ " ".toList

def IsRedirection (redirection : Int) : Prop :=
  redirection = 301 ∨ redirection = 302

instance (redirection : Int) : Decidable (IsRedirection redirection) :=
  inferInstanceAs (Decidable (_ ∨ _))

/-! The literals of the builders, cut at the line ends. -/

theorem crlf_eq : "\r\n".toList = crlf := rfl

theorem spaceCrlf_eq : " \r\n".toList = " ".toList ++ crlf := rfl

theorem typeLine_eq :
    "Content-Type: text/html; charset=UTF-8\r\n".toList =
      typeLine ++ crlf := rfl

theorem redirectionLines_of_is {redirection : Int}
    (h : IsRedirection redirection) (location : Str) :
    "HTTP/1.1 ".toList ++ redirectionLines redirection location =
      joinCrlf [redirectionFirst redirection, locationLine location] := by
  have hmoved : "HTTP/1.1 ".toList ++ "301 Moved Permanently\r\nLocation: ".toList
      = "HTTP/1.1 301 Moved Permanently".toList ++ crlf ++
        "Location: ".toList := rfl
  have hfound : "HTTP/1.1 ".toList ++ "302 Found\r\nLocation: ".toList =
      "HTTP/1.1 302 Found".toList ++ crlf ++ "Location: ".toList := rfl
  have hne : (302 : Int) ≠ 301 := by decide
  unfold redirectionLines redirectionFirst locationLine
  simp only [joinCrlf_cons, joinCrlf_nil, List.append_nil]
  rcases h with rfl | rfl
  · rw [if_pos rfl, if_pos rfl, ← List.append_assoc, ← List.append_assoc,
      hmoved, spaceCrlf_eq]
    simp only [List.append_assoc]
  · rw [if_neg hne, if_neg hne, if_pos rfl, ← List.append_assoc,
      ← List.append_assoc, hfound, spaceCrlf_eq]
    simp only [List.append_assoc]

theorem redirectionLines_of_not {redirection : Int}
    (h : ¬IsRedirection redirection) (location : Str) :
    redirectionLines redirection location = [] := by
  obtain ⟨hmoved, hfound⟩ := not_or.mp h
  unfold redirectionLines
  rw [if_neg hmoved, if_neg hfound]

/-- The status and its title, without a space between them. -/
def gluedStatus (status : Int) : Str :=
  decimalInt status ++ getResponseTitle status ++ " ".toList

/-- The head lines around a built-in page. -/
def builtInLines (client : Client) (status : Int) : List Str :=
  (if IsRedirection client.request.redirection then
    [redirectionFirst client.request.redirection,
      locationLine client.request.location, gluedStatus status]
  else ["HTTP/1.1 ".toList ++ gluedStatus status]) ++
    [typeLine, lengthLine (builtInPage status).length, aliveLine client]

theorem builtInResponse_eq (client : Client) (status : Int) :
    builtInResponse client status =
      joinCrlf (builtInLines client status) ++ crlf ++
        builtInPage status := by
  unfold builtInResponse builtInLines
  simp only [connectionLine_eq, crlf_eq, spaceCrlf_eq, typeLine_eq]
  by_cases h : IsRedirection client.request.redirection
  · have hne : client.request.redirection ≠ -1 := by
      rcases h with h | h <;> rw [h] <;> decide
    rw [if_pos hne, if_pos h, redirectionLines_of_is h]
    unfold gluedStatus lengthLine
    -- the texts are not looked into
    generalize builtInPage status = page
    generalize "Content-Length: ".toList = length
    generalize " ".toList = space
    simp only [joinCrlf_cons, joinCrlf_nil, List.cons_append,
      List.nil_append, List.append_nil, List.append_assoc]
  · rw [if_neg h, redirectionLines_of_not h, ite_self]
    unfold gluedStatus lengthLine
    generalize builtInPage status = page
    generalize "HTTP/1.1 ".toList = version
    generalize "Content-Length: ".toList = length
    generalize " ".toList = space
    simp only [joinCrlf_cons, joinCrlf_nil, List.cons_append,
      List.nil_append, List.append_nil, List.append_assoc]

def fileLines (client : Client) (path : Str) (status : Int) (n : Nat) :
    List Str :=
  (if client.request.redirection = -1 then
    ["HTTP/1.1 ".toList ++ decimalInt status ++ " ".toList ++
      getResponseTitle status ++ " ".toList,
      "Content-Type:".toList ++ getContentType path]
  else if IsRedirection client.request.redirection then
    [redirectionFirst client.request.redirection,
      locationLine client.request.location,
      "Content-Type:".toList ++ getContentType path]
  else ["HTTP/1.1 ".toList ++ "Content-Type:".toList ++
    getContentType path]) ++
    [lengthLine n, "Accept-Ranges: bytes".toList, aliveLine client]

theorem fillResponse_opened {world : W} {path : Str}
    (hopen : Os.opens world path = true) (client : Client) (status : Int) :
    (fillResponse world client path status).2 =
        "HTTP/1.1 ".toList ++
          (if client.request.redirection ≠ -1 then
            redirectionLines client.request.redirection
              client.request.location
          else
            decimalInt status ++ " ".toList ++ getResponseTitle status ++
              " \r\n".toList) ++
          "Content-Type:".toList ++ getContentType path ++ "\r\n".toList ++
          "Content-Length: ".toList ++ decimal (Os.announced world path) ++
          "\r\n".toList ++ "Accept-Ranges: bytes\r\n".toList ++
          connectionLine client ++ "\r\n".toList ∧
      (fillResponse world client path status).1.response.fileStream.content =
        some (Os.readable world path) := by
  obtain ⟨hcontent, hsize⟩ :=
    IFStream.openFile_opened hopen client.response.fileStream.close
  unfold fillResponse
  simp only [hcontent, hsize]
  exact ⟨rfl, hcontent⟩

theorem fillResponse_eq {world : W} {path : Str}
    (hopen : Os.opens world path = true) (client : Client) (status : Int) :
    (fillResponse world client path status).2 =
      joinCrlf (fileLines client path status (Os.announced world path)) ++
        crlf := by
  rw [(fillResponse_opened hopen client status).1]
  unfold fileLines lengthLine
  have hranges : "Accept-Ranges: bytes\r\n".toList =
      "Accept-Ranges: bytes".toList ++ crlf := rfl
  simp only [connectionLine_eq, crlf_eq, spaceCrlf_eq, hranges]
  generalize "Content-Type:".toList = type
  generalize "Content-Length: ".toList = length
  generalize "Accept-Ranges: bytes".toList = ranges
  generalize " ".toList = space
  by_cases hnone : client.request.redirection = -1
  · rw [if_neg (not_not.mpr hnone), if_pos hnone]
    generalize "HTTP/1.1 ".toList = version
    simp only [joinCrlf_cons, joinCrlf_nil, List.cons_append,
      List.nil_append, List.append_nil, List.append_assoc]
  · rw [if_pos hnone, if_neg hnone]
    by_cases h : IsRedirection client.request.redirection
    · rw [if_pos h, redirectionLines_of_is h]
      simp only [joinCrlf_cons, joinCrlf_nil, List.cons_append,
        List.nil_append, List.append_nil, List.append_assoc]
    · rw [if_neg h, redirectionLines_of_not h]
      generalize "HTTP/1.1 ".toList = version
      simp only [joinCrlf_cons, joinCrlf_nil, List.cons_append,
        List.nil_append, List.append_nil, List.append_assoc]

theorem fillResponse_unopened {world : W} {path : Str}
    (hopen : Os.opens world path = false) (client : Client)
    (status : Int) :
    (fillResponse world client path status).2 = [] ∧
      (fillResponse world client path status).1.response.fileStream.content =
        none := by
  have hcontent : (client.response.fileStream.close.openFile world
      path).content = none := by
    rw [IFStream.openFile_unopened hopen]
    rfl
  unfold fillResponse
  simp only [hcontent]
  exact ⟨trivial, hcontent⟩

/-! The lines are lines. -/

/-- A title that starts with neither a digit nor a space and names no value. -/
def plainTitle : Str → Bool
  | [] => false
  | c :: title => !isdigit c ∧ c ≠ ' ' ∧ ':' ∉ c :: title ∧
      Inline (c :: title)

theorem getResponseTitle_plain (status : Int) :
    plainTitle (getResponseTitle status) = true := by
  unfold getResponseTitle
  split_ifs <;> decide

theorem getResponseTitle_cons (status : Int) :
    ∃ c title, getResponseTitle status = c :: title ∧ isdigit c = false ∧
      c ≠ ' ' ∧ ':' ∉ getResponseTitle status ∧
      Inline (getResponseTitle status) := by
  have hplain := getResponseTitle_plain status
  cases htitle : getResponseTitle status with
  | nil =>
      rw [htitle] at hplain
      cases hplain
  | cons c title =>
      rw [htitle] at hplain
      obtain ⟨hdigit, hspace, hcolon, hinline⟩ := of_decide_eq_true hplain
      exact ⟨c, title, rfl, by simpa using hdigit, hspace, hcolon, hinline⟩

theorem ite_inline {condition : Prop} [Decidable condition] {yes no : Str}
    (hyes : Inline yes) (hno : Inline no) :
    Inline (if condition then yes else no) := by
  by_cases h : condition
  · rw [if_pos h]
    exact hyes
  · rw [if_neg h]
    exact hno

theorem getContentType_inline (path : Str) : Inline (getContentType path) := by
  unfold getContentType
  split
  · decide
  · extract_lets ext
    repeat' apply ite_inline
    all_goals decide

theorem decimalInt_inline (n : Int) : Inline (decimalInt n) := by
  have hother : ∀ c ∈ decimalInt n, c ≠ '\r' ∧ c ≠ '\n' := by
    intro c hc
    cases mem_decimalInt hc with
    | inl hminus =>
        rw [hminus]
        decide
    | inr hdigit =>
        constructor
        · rintro rfl
          cases hdigit
        · rintro rfl
          cases hdigit
  exact ⟨fun h => (hother _ h).1 rfl, fun h => (hother _ h).2 rfl⟩

theorem gluedStatus_inline (status : Int) : Inline (gluedStatus status) := by
  obtain ⟨-, -, -, -, -, -, htitle⟩ := getResponseTitle_cons status
  exact ((decimalInt_inline status).append htitle).append (by decide)

theorem lengthLine_inline (n : Nat) : Inline (lengthLine n) :=
  Inline.append (by decide) (decimal_inline n)

theorem aliveLine_inline (client : Client) : Inline (aliveLine client) := by
  unfold aliveLine
  split <;> decide

theorem redirectionFirst_inline (redirection : Int) :
    Inline (redirectionFirst redirection) := by
  unfold redirectionFirst
  split <;> decide

theorem locationLine_inline {location : Str} (h : Inline location) :
    Inline (locationLine location) :=
  (Inline.append (by decide) h).append (by decide)

theorem append_ne_nil_of_left {first second : Str} (h : first ≠ []) :
    first ++ second ≠ [] := by
  simp [h]

theorem aliveLine_ne_nil (client : Client) : aliveLine client ≠ [] := by
  unfold aliveLine
  split <;> decide

theorem redirectionFirst_ne_nil (redirection : Int) :
    redirectionFirst redirection ≠ [] := by
  unfold redirectionFirst
  split <;> decide

theorem gluedStatus_ne_nil (status : Int) : gluedStatus status ≠ [] := by
  simp [gluedStatus]

def Line (line : Str) : Prop := Inline line ∧ line ≠ []

theorem line_tail {client : Client} {n : Nat} {line : Str}
    (h : line ∈ [typeLine, lengthLine n, aliveLine client]) : Line line := by
  simp only [List.mem_cons, List.not_mem_nil, or_false] at h
  rcases h with rfl | rfl | rfl
  · exact ⟨by decide, by decide⟩
  · exact ⟨lengthLine_inline n, append_ne_nil_of_left (by decide)⟩
  · exact ⟨aliveLine_inline client, aliveLine_ne_nil client⟩

theorem builtIn_message {client : Client}
    (hlocation : Inline client.request.location) (status : Int) :
    Message (builtInResponse client status) (builtInLines client status)
      (builtInPage status) := by
  have hline : ∀ line ∈ builtInLines client status, Line line := by
    intro line hline
    unfold builtInLines at hline
    cases List.mem_append.mp hline with
    | inr htail => exact line_tail htail
    | inl hfirst =>
        split at hfirst
        · simp only [List.mem_cons, List.not_mem_nil, or_false] at hfirst
          rcases hfirst with rfl | rfl | rfl
          · exact ⟨redirectionFirst_inline _, redirectionFirst_ne_nil _⟩
          · exact ⟨locationLine_inline hlocation,
              append_ne_nil_of_left (append_ne_nil_of_left (by decide))⟩
          · exact ⟨gluedStatus_inline status, gluedStatus_ne_nil status⟩
        · rw [List.mem_singleton.mp hfirst]
          exact ⟨Inline.append (by decide) (gluedStatus_inline status),
            append_ne_nil_of_left (by decide)⟩
  exact ⟨builtInResponse_eq client status, fun line h => (hline line h).1,
    fun line h => (hline line h).2⟩

theorem file_message {client : Client}
    (hlocation : Inline client.request.location) (path : Str) (status : Int)
    (n : Nat) :
    Message (joinCrlf (fileLines client path status n) ++ crlf)
      (fileLines client path status n) [] := by
  have htype : Inline ("Content-Type:".toList ++ getContentType path) :=
    Inline.append (by decide) (getContentType_inline path)
  have hline : ∀ line ∈ fileLines client path status n, Line line := by
    intro line hline
    unfold fileLines at hline
    cases List.mem_append.mp hline with
    | inr htail =>
        simp only [List.mem_cons, List.not_mem_nil, or_false] at htail
        rcases htail with rfl | rfl | rfl
        · exact ⟨lengthLine_inline n, append_ne_nil_of_left (by decide)⟩
        · exact ⟨by decide, by decide⟩
        · exact ⟨aliveLine_inline client, aliveLine_ne_nil client⟩
    | inl hfirst =>
        split at hfirst
        · simp only [List.mem_cons, List.not_mem_nil, or_false] at hfirst
          rcases hfirst with rfl | rfl
          · obtain ⟨-, -, -, -, -, -, htitle⟩ := getResponseTitle_cons status
            refine ⟨?_, by simp⟩
            exact (((Inline.append (by decide) (decimalInt_inline
              status)).append (by decide)).append htitle).append (by decide)
          · exact ⟨htype, append_ne_nil_of_left (by decide)⟩
        split at hfirst
        · simp only [List.mem_cons, List.not_mem_nil, or_false] at hfirst
          rcases hfirst with rfl | rfl | rfl
          · exact ⟨redirectionFirst_inline _, redirectionFirst_ne_nil _⟩
          · exact ⟨locationLine_inline hlocation,
              append_ne_nil_of_left (append_ne_nil_of_left (by decide))⟩
          · exact ⟨htype, append_ne_nil_of_left (by decide)⟩
        · rw [List.mem_singleton.mp hfirst, List.append_assoc]
          exact ⟨Inline.append (by decide) htype,
            append_ne_nil_of_left (by decide)⟩
  exact ⟨by rw [List.append_nil], fun line h => (hline line h).1,
    fun line h => (hline line h).2⟩

def unreadableLines (client : Client) (status : Int) : List Str :=
  ["HTTP/1.1 ".toList ++ "500".toList ++
    ' ' :: (getResponseTitle status ++ " ".toList),
    typeLine, aliveLine client]

theorem unreadable_message (client : Client) (status : Int) :
    Message (unreadablePageResponse client status)
      (unreadableLines client status) status500 := by
  obtain ⟨-, -, -, -, -, -, htitle⟩ := getResponseTitle_cons status
  have hfirst : "HTTP/1.1 500 ".toList = "HTTP/1.1 ".toList ++
      "500".toList ++ " ".toList := rfl
  have hline : ∀ line ∈ unreadableLines client status, Line line := by
    intro line hline
    simp only [unreadableLines, List.mem_cons, List.not_mem_nil, or_false]
      at hline
    rcases hline with rfl | rfl | rfl
    · refine ⟨?_, append_ne_nil_of_left (append_ne_nil_of_left (by decide))⟩
      exact Inline.append (by decide)
        (@Inline.append [' '] _ (by decide) (htitle.append (by decide)))
    · exact ⟨by decide, by decide⟩
    · exact ⟨aliveLine_inline client, aliveLine_ne_nil client⟩
  refine ⟨?_, fun line h => (hline line h).1, fun line h => (hline line h).2⟩
  unfold unreadablePageResponse unreadableLines
  rw [connectionLine_eq, crlf_eq, spaceCrlf_eq, typeLine_eq, hfirst,
    show ' ' :: (getResponseTitle status ++ " ".toList) = " ".toList ++
      (getResponseTitle status ++ " ".toList) from rfl]
  generalize status500 = page
  generalize "HTTP/1.1 ".toList = version
  generalize "500".toList = code
  generalize " ".toList = space
  simp only [joinCrlf_cons, joinCrlf_nil, List.append_nil,
    List.append_assoc]

def listingLines (client : Client) (n : Nat) : List Str :=
  ["HTTP/1.1 200 OK".toList, lengthLine n, typeLine, aliveLine client]

theorem listing_message (client : Client) (base : Str) (names : List Str) :
    Message (listingResponse client base names)
      (listingLines client (listingHead ++ listingEntries base names).length)
      (listingHead ++ listingEntries base names ++ listingFooter) := by
  have hfirst : "HTTP/1.1 200 OK\r\n".toList =
      "HTTP/1.1 200 OK".toList ++ crlf := rfl
  have hline : ∀ n, ∀ line ∈ listingLines client n, Line line := by
    intro n line hline
    simp only [listingLines, List.mem_cons, List.not_mem_nil, or_false]
      at hline
    rcases hline with rfl | rfl | rfl | rfl
    · exact ⟨by decide, by decide⟩
    · exact ⟨lengthLine_inline n, append_ne_nil_of_left (by decide)⟩
    · exact ⟨by decide, by decide⟩
    · exact ⟨aliveLine_inline client, aliveLine_ne_nil client⟩
  refine ⟨?_, fun line h => (hline _ line h).1,
    fun line h => (hline _ line h).2⟩
  unfold listingResponse listingLines lengthLine
  rw [connectionLine_eq, crlf_eq, typeLine_eq, hfirst]
  generalize listingHead ++ listingEntries base names = found
  generalize listingFooter = footer
  generalize "HTTP/1.1 200 OK".toList = first
  generalize "Content-Length: ".toList = length
  simp only [joinCrlf_cons, joinCrlf_nil, List.append_nil,
    List.append_assoc]

/-! Which first lines are status lines. -/

def ThreeDigits (status : Int) : Prop :=
  (decimalInt status).length = 3 ∧ ∀ c ∈ decimalInt status, isdigit c = true

theorem noSpace_of_digits {digits : Str}
    (h : ∀ c ∈ digits, isdigit c = true) : ' ' ∉ digits := by
  intro hspace
  have hdigit := h ' ' hspace
  cases hdigit

theorem statusLine_redirectionFirst (redirection : Int) :
    StatusLine (redirectionFirst redirection) := by
  unfold redirectionFirst
  split
  · exact ⟨"301".toList, "Moved Permanently".toList, rfl, rfl, by decide⟩
  · exact ⟨"302".toList, "Found".toList, rfl, rfl, by decide⟩

/-- Behind the status a title follows, and no space. -/
theorem not_statusLine_glued (status : Int) :
    ¬StatusLine ("HTTP/1.1 ".toList ++ gluedStatus status) := by
  rintro ⟨digits, reason, heq, hlength, hdigits⟩
  obtain ⟨c, title, htitle, hdigit, hspace, -⟩ := getResponseTitle_cons status
  have hsame : decimalInt status ++ (c :: (title ++ " ".toList)) =
      digits ++ ' ' :: reason := by
    rw [List.append_assoc] at heq
    have hrest := List.append_cancel_left heq
    rw [gluedStatus, htitle] at hrest
    simpa using hrest
  have hat : ∀ i : Nat,
      (decimalInt status ++ (c :: (title ++ " ".toList)) : List Char)[i]? =
        (digits ++ ' ' :: reason : List Char)[i]? := fun i => by rw [hsame]
  rcases Nat.lt_trichotomy (decimalInt status).length 3 with
    hshort | hthree | hlong
  · have hc := hat (decimalInt status).length
    rw [List.getElem?_append_right (Nat.le_refl _), Nat.sub_self,
      List.getElem?_append_left (by omega)] at hc
    have hmem : c ∈ digits := List.mem_of_getElem? hc.symm
    rw [hdigits c hmem] at hdigit
    cases hdigit
  · have hc := hat 3
    rw [← hthree, List.getElem?_append_right (Nat.le_refl _), Nat.sub_self,
      hthree, ← hlength, List.getElem?_append_right (Nat.le_refl _),
      Nat.sub_self] at hc
    exact hspace (Option.some.inj hc)
  · have hc := hat 3
    rw [List.getElem?_append_left hlong,
      show (3 : Nat) = digits.length from hlength.symm,
      List.getElem?_append_right (Nat.le_refl _), Nat.sub_self] at hc
    exact noSpace_decimalInt status (List.mem_of_getElem? hc)

theorem statusLine_plain_iff (status : Int) (reason : Str) :
    StatusLine ("HTTP/1.1 ".toList ++ decimalInt status ++ " ".toList ++
      reason) ↔ ThreeDigits status := by
  constructor
  · rintro ⟨digits, reason', heq, hlength, hdigits⟩
    have hsame : decimalInt status ++ ' ' :: reason =
        digits ++ ' ' :: reason' := by
      rw [List.append_assoc, List.append_assoc, List.append_assoc] at heq
      exact List.append_cancel_left heq
    obtain ⟨rfl, -⟩ := cut_unique (noSpace_decimalInt status)
      (noSpace_of_digits hdigits) hsame
    exact ⟨hlength, hdigits⟩
  · rintro ⟨hlength, hdigits⟩
    exact ⟨decimalInt status, reason, by simp, hlength, hdigits⟩

theorem not_statusLine_type (type : Str) :
    ¬StatusLine ("HTTP/1.1 ".toList ++ "Content-Type:".toList ++ type) := by
  rintro ⟨digits, reason, heq, hlength, hdigits⟩
  rw [List.append_assoc, List.append_assoc] at heq
  have hsame := List.append_cancel_left heq
  obtain ⟨c, rest, rfl⟩ := List.exists_cons_of_ne_nil
    (List.ne_nil_of_length_pos (l := digits) (by omega))
  have hc : 'C' = c := (List.cons.inj hsame).1
  have hdigit := hdigits c List.mem_cons_self
  rw [← hc] at hdigit
  cases hdigit

theorem headerField_of_append {name : Str} (hname : name ≠ [])
    (value : Str) : HeaderField (name ++ ':' :: value) :=
  ⟨name, value, rfl, hname⟩

theorem not_headerField_glued (status : Int) :
    ¬HeaderField (gluedStatus status) := by
  rintro ⟨name, value, heq, -⟩
  obtain ⟨-, -, -, -, -, hcolon, -⟩ := getResponseTitle_cons status
  have hmem : ':' ∈ gluedStatus status := by
    rw [heq]
    simp
  unfold gluedStatus at hmem
  rcases List.mem_append.mp hmem with hfront | hspace
  · cases List.mem_append.mp hfront with
    | inl hnumber =>
        cases mem_decimalInt hnumber with
        | inl hminus => cases hminus
        | inr hdigit => cases hdigit
    | inr htitle => exact hcolon htitle
  · revert hspace
    decide

/-! What is stored by an error answer. -/

theorem stored_builtIn (world : W) {client : Client} {status : Int}
    (hpage : client.serverClientObj.findErrorPagePath status =
      "NULL".toList) :
    (setResponseError world client status).response.response =
        builtInResponse client status ∧
      (setResponseError world client status).response.fileStream =
        client.response.fileStream := by
  unfold setResponseError
  simp only [if_pos hpage]
  exact ⟨rfl, rfl⟩

theorem stored_unopened {world : W} {client : Client} {status : Int}
    (hpage : client.serverClientObj.findErrorPagePath status ≠
      "NULL".toList)
    (hopen : Os.opens world
      (client.serverClientObj.findErrorPagePath status) = false) :
    (setResponseError world client status).response.response =
      unreadablePageResponse client status := by
  have hfill := (fillResponse_unopened hopen (client.setAllRecv true)
    status).1
  unfold setResponseError
  simp only [if_neg hpage, hfill]
  obtain ⟨fileStream, responseStatus, hframe⟩ := fillResponse_frame world
    (client.setAllRecv true)
    (client.serverClientObj.findErrorPagePath status) status
  rw [hframe]
  rfl

theorem stored_opened {world : W} {client : Client} {status : Int}
    (hpage : client.serverClientObj.findErrorPagePath status ≠
      "NULL".toList)
    (hopen : Os.opens world
      (client.serverClientObj.findErrorPagePath status) = true) :
    (setResponseError world client status).response.response =
        joinCrlf (fileLines client
          (client.serverClientObj.findErrorPagePath status) status
            (Os.announced world
              (client.serverClientObj.findErrorPagePath status))) ++ crlf ∧
      (setResponseError world client status).response.fileStream.content =
        some (Os.readable world
          (client.serverClientObj.findErrorPagePath status)) := by
  have htext := fillResponse_eq hopen (client.setAllRecv true) status
  have hstream := (fillResponse_opened hopen (client.setAllRecv true)
    status).2
  unfold setResponseError
  generalize client.serverClientObj.findErrorPagePath status = page at *
  have hlines : fileLines (client.setAllRecv true) page status
      (Os.announced world page) =
        fileLines client page status (Os.announced world page) := rfl
  have hne : joinCrlf (fileLines client page status
      (Os.announced world page)) ++ crlf ≠ [] := by
    simp [crlf]
  rw [hlines] at htext
  simp only [if_neg hpage, htext, if_neg hne]
  exact ⟨rfl, hstream⟩

/-! Which answers are messages. -/

/-- The first line can name a redirection or a status. -/
def StatusWritten (redirection status : Int) : Prop :=
  IsRedirection redirection ∨ redirection = -1 ∧ ThreeDigits status

/-- A configured page that is readable needs a status that can be written; a
built-in page is never well formed. -/
def Answer.Proper : Answer W → Prop
  | error world client status =>
      let page := client.serverClientObj.findErrorPagePath status
      page ≠ "NULL".toList ∧ (Os.opens world page = false ∨
        StatusWritten client.request.redirection status)
  | file world client path =>
      Os.opens world path = true ∧
        StatusWritten client.request.redirection 200
  | listing _ _ _ => True

/-- What is opened is no directory, unless this says that it is empty. -/
def Sized (world : W) (path : Str) : Prop :=
  Os.openRead world path = none →
    ∀ size, Os.openDirectory world path = some size → size = 0

theorem announced_eq_iff {world : W} {path : Str}
    (hopen : Os.opens world path = true) :
    Os.announced world path = (Os.readable world path).length ↔
      Sized world path := by
  unfold Os.opens at hopen
  unfold Os.announced Os.readable Sized
  cases hread : Os.openRead world path with
  | some content => simp
  | none =>
      rw [hread] at hopen
      obtain ⟨size, hsize⟩ := Option.isSome_iff_exists.mp hopen
      simp [hsize]

theorem sized_of_unopened {world : W} {path : Str}
    (hopen : Os.opens world path = false) : Sized world path := by
  intro _ size hsize
  unfold Os.opens at hopen
  simp [hsize] at hopen

/-- A file is measured, a directory is not.  A built-in page is measured if no
file was left open before it, a listing never. -/
def Answer.Measured : Answer W → Prop
  | error world client status =>
      let page := client.serverClientObj.findErrorPagePath status
      (page = "NULL".toList →
        client.response.fileStream.content.getD [] = []) ∧
      (page ≠ "NULL".toList → Sized world page)
  | file world _ path => Sized world path
  | listing _ _ _ => False

theorem headerField_tail {client : Client} {n : Nat} {line : Str}
    (h : line ∈ [typeLine, lengthLine n, aliveLine client]) :
    HeaderField line := by
  simp only [List.mem_cons, List.not_mem_nil, or_false] at h
  rcases h with rfl | rfl | rfl
  · exact @headerField_of_append "Content-Type".toList (by decide) _
  · exact @headerField_of_append "Content-Length".toList (by decide)
      (' ' :: decimal n)
  · unfold aliveLine
    split
    · exact @headerField_of_append "Connection".toList (by decide) _
    · exact @headerField_of_append "Connection".toList (by decide) _

theorem headerField_location (location : Str) :
    HeaderField (locationLine location) := by
  have hname : locationLine location =
      "Location".toList ++ ':' :: (" ".toList ++ location ++ " ".toList) :=
    rfl
  rw [hname]
  exact headerField_of_append (by decide) _

theorem headerField_type (type : Str) :
    HeaderField ("Content-Type:".toList ++ type) :=
  @headerField_of_append "Content-Type".toList (by decide) type

theorem not_wellFormed_builtIn {client : Client}
    (hlocation : Inline client.request.location) (status : Int) :
    ¬WellFormedMessage (builtInResponse client status) := by
  have hmessage := builtIn_message hlocation status
  intro hwell
  unfold builtInLines at hmessage
  split at hmessage
  · obtain ⟨-, hheaders⟩ := hmessage.wellFormed_iff.mp hwell
    exact not_headerField_glued status (hheaders _ (by simp))
  · obtain ⟨hfirst, -⟩ := hmessage.wellFormed_iff.mp hwell
    exact not_statusLine_glued status hfirst

theorem wellFormed_file_iff {client : Client}
    (hlocation : Inline client.request.location) (path : Str) (status : Int)
    (n : Nat) :
    WellFormedMessage (joinCrlf (fileLines client path status n) ++ crlf) ↔
      StatusWritten client.request.redirection status := by
  have hmessage := file_message hlocation path status n
  have htype := headerField_type (getContentType path)
  have htail : ∀ line ∈ [lengthLine n, "Accept-Ranges: bytes".toList,
      aliveLine client], HeaderField line := by
    intro line hline
    simp only [List.mem_cons, List.not_mem_nil, or_false] at hline
    rcases hline with rfl | rfl | rfl
    · exact @headerField_tail client n _ (by simp)
    · exact ⟨"Accept-Ranges".toList, " bytes".toList, rfl, by decide⟩
    · exact @headerField_tail client n _ (by simp)
  unfold fileLines at hmessage ⊢
  unfold StatusWritten
  by_cases hnone : client.request.redirection = -1
  · have hnot : ¬IsRedirection client.request.redirection := by
      rw [hnone]
      decide
    rw [if_pos hnone] at hmessage ⊢
    rw [or_iff_right hnot, and_iff_right hnone]
    refine hmessage.wellFormed_iff.trans ?_
    rw [List.append_assoc ("HTTP/1.1 ".toList ++ decimalInt status ++
      " ".toList), statusLine_plain_iff]
    refine and_iff_left fun header hheader => ?_
    cases List.mem_cons.mp hheader with
    | inl hfirst =>
        rw [hfirst]
        exact htype
    | inr hrest => exact htail header hrest
  · rw [if_neg hnone] at hmessage ⊢
    rw [or_iff_left fun hboth => hnone hboth.1]
    split at hmessage
    · rename_i hredirection
      rw [if_pos hredirection]
      refine iff_of_true (hmessage.wellFormed_iff.mpr
        ⟨statusLine_redirectionFirst _, fun header hheader => ?_⟩)
        hredirection
      rcases List.mem_cons.mp hheader with rfl | hheader
      · exact headerField_location _
      rcases List.mem_cons.mp hheader with rfl | hheader
      · exact htype
      · exact htail header hheader
    · rename_i hredirection
      rw [if_neg hredirection]
      refine iff_of_false (fun hwell => ?_) hredirection
      exact not_statusLine_type _ (hmessage.wellFormed_iff.mp hwell).1

theorem wellFormed_unreadable (client : Client) (status : Int) :
    WellFormedMessage (unreadablePageResponse client status) := by
  refine (unreadable_message client status).wellFormed_iff.mpr
    ⟨⟨"500".toList, _, rfl, rfl, by decide⟩, fun header hheader => ?_⟩
  apply @headerField_tail client 0
  rcases List.mem_cons.mp hheader with rfl | hheader
  · simp
  · rw [List.mem_singleton.mp hheader]
    simp

theorem wellFormed_listing (client : Client) (base : Str)
    (names : List Str) :
    WellFormedMessage (listingResponse client base names) := by
  refine (listing_message client base names).wellFormed_iff.mpr
    ⟨⟨"200".toList, "OK".toList, rfl, rfl, by decide⟩,
      fun header hheader => ?_⟩
  apply @headerField_tail client
    (listingHead ++ listingEntries base names).length
  simp only [List.mem_cons, List.not_mem_nil, or_false] at hheader ⊢
  rw [← or_assoc, or_comm (a := header = typeLine), or_assoc]
  exact hheader

/-- Whatever has built a response, it is a message exactly if the call was
proper. -/
theorem Answer.wellFormed_iff (answer : Answer W)
    (hlocation : Inline answer.client.request.location) :
    WellFormedMessage answer.text ↔ answer.Proper := by
  cases answer with
  | error world client status =>
      have hinline : Inline client.request.location := hlocation
      change WellFormedMessage (setResponseError world client
        status).response.response ↔ _
      by_cases hpage : client.serverClientObj.findErrorPagePath status =
          "NULL".toList
      · rw [(stored_builtIn world hpage).1]
        exact iff_of_false (not_wellFormed_builtIn hinline status)
          fun hproper => hproper.1 hpage
      · cases hopen : Os.opens world
            (client.serverClientObj.findErrorPagePath status) with
        | false =>
            rw [stored_unopened hpage hopen]
            exact iff_of_true (wellFormed_unreadable client status)
              ⟨hpage, .inl hopen⟩
        | true =>
            rw [(stored_opened hpage hopen).1, wellFormed_file_iff hinline]
            unfold Answer.Proper
            simp only [hopen, ne_eq, hpage, not_false_eq_true, true_and,
              reduceCtorEq, false_or]
  | file world client path =>
      have hinline : Inline client.request.location := hlocation
      change WellFormedMessage (fillResponse world client path 200).2 ↔ _
      cases hopen : Os.opens world path with
      | false =>
          rw [(fillResponse_unopened hopen client 200).1]
          refine iff_of_false (fun hwell => hwell.ne_nil rfl) ?_
          rintro ⟨hopens, -⟩
          rw [hopen] at hopens
          cases hopens
      | true =>
          rw [fillResponse_eq hopen, wellFormed_file_iff hinline]
          unfold Answer.Proper
          simp only [hopen, true_and]
  | listing client base names =>
      exact iff_of_true (wellFormed_listing client base names) trivial

/-! Which answers announce their length. -/

/-- A line that is no `Content-Length`. -/
def OtherLine (line : Str) : Prop :=
  ∀ value, line ≠ "Content-Length: ".toList ++ value

theorem otherLine_of_start {start line rest : Str}
    (hline : line = start ++ rest)
    (hstart : ¬start <+: "Content-Length: ".toList)
    (hshort : start.length ≤ 16) : OtherLine line := by
  intro value heq
  have hinside : start <+: "Content-Length: ".toList ++ value := by
    rw [← heq, hline]
    exact List.prefix_append _ _
  exact hstart (List.prefix_of_prefix_length_le hinside
    (List.prefix_append _ _) hshort)

theorem otherLine_type (type : Str) :
    OtherLine ("Content-Type:".toList ++ type) :=
  otherLine_of_start rfl (by decide) (by decide)

theorem otherLine_version (rest : Str) :
    OtherLine ("HTTP/1.1 ".toList ++ rest) :=
  otherLine_of_start rfl (by decide) (by decide)

theorem otherLine_location (location : Str) :
    OtherLine (locationLine location) :=
  otherLine_of_start (List.append_assoc ..) (by decide) (by decide)

theorem otherLine_redirection (redirection : Int) :
    OtherLine (redirectionFirst redirection) := by
  unfold redirectionFirst
  split
  · exact otherLine_version "301 Moved Permanently".toList
  · exact otherLine_version "302 Found".toList

theorem otherLine_alive (client : Client) : OtherLine (aliveLine client) := by
  have hstart : ∀ rest : Str, OtherLine ("Connection".toList ++ rest) :=
    fun rest => otherLine_of_start rfl (by decide) (by decide)
  unfold aliveLine
  split
  · exact hstart ": keep-alive".toList
  · exact hstart ": close".toList

theorem otherLine_glued (status : Int) : OtherLine (gluedStatus status) := by
  obtain ⟨c, rest, hnumber⟩ :=
    List.exists_cons_of_ne_nil (decimalInt_ne_nil status)
  have hline : gluedStatus status =
      [c] ++ (rest ++ getResponseTitle status ++ " ".toList) := by
    simp [gluedStatus, hnumber]
  refine otherLine_of_start hline (fun hstart => ?_) (by simp)
  have hc : c = 'C' := (List.cons_prefix_cons.mp hstart).1
  have hmem : c ∈ decimalInt status := by
    rw [hnumber]
    exact List.mem_cons_self
  rw [hc] at hmem
  cases mem_decimalInt hmem with
  | inl hminus => cases hminus
  | inr hdigit => cases hdigit

theorem framed_iff_of_lines {text body : Str} {front back : List Str}
    {n more : Nat}
    (h : Message text (front ++ lengthLine n :: back) body)
    (hfront : ∀ line ∈ front, OtherLine line)
    (hback : ∀ line ∈ back, OtherLine line) :
    Framed text more ↔ n = body.length + more := by
  rw [h.framed_iff]
  constructor
  · intro hall
    have hmem : lengthLine n ∈ front ++ lengthLine n :: back :=
      List.mem_append_right _ List.mem_cons_self
    exact decimal_injective (hall (decimal n) hmem)
  · rintro heq value hvalue
    rcases List.mem_append.mp hvalue with hmem | hmem
    · exact absurd rfl (hfront _ hmem value)
    rcases List.mem_cons.mp hmem with hmem | hmem
    · rw [List.append_cancel_left hmem, heq]
    · exact absurd rfl (hback _ hmem value)

theorem otherLine_typeLine : OtherLine typeLine :=
  otherLine_type " text/html; charset=UTF-8".toList

theorem framed_builtIn_iff {client : Client}
    (hlocation : Inline client.request.location) (status : Int)
    (more : Nat) :
    Framed (builtInResponse client status) more ↔ more = 0 := by
  have hmessage := builtIn_message hlocation status
  have hback : ∀ line ∈ [aliveLine client], OtherLine line := by
    intro line hline
    rw [List.mem_singleton.mp hline]
    exact otherLine_alive client
  have hlines : ∃ front, builtInLines client status = front ++
      lengthLine (builtInPage status).length :: [aliveLine client] ∧
        ∀ line ∈ front, OtherLine line := by
    unfold builtInLines
    split
    · refine ⟨[redirectionFirst _, locationLine _, gluedStatus status,
        typeLine], rfl, fun line hline => ?_⟩
      simp only [List.mem_cons, List.not_mem_nil, or_false] at hline
      rcases hline with rfl | rfl | rfl | rfl
      · exact otherLine_redirection _
      · exact otherLine_location _
      · exact otherLine_glued status
      · exact otherLine_typeLine
    · refine ⟨["HTTP/1.1 ".toList ++ gluedStatus status, typeLine], rfl,
        fun line hline => ?_⟩
      simp only [List.mem_cons, List.not_mem_nil, or_false] at hline
      rcases hline with rfl | rfl
      · exact otherLine_version _
      · exact otherLine_typeLine
  obtain ⟨front, hfront, hothers⟩ := hlines
  rw [hfront] at hmessage
  rw [framed_iff_of_lines hmessage hothers hback]
  omega

theorem framed_file_iff {client : Client}
    (hlocation : Inline client.request.location) (path : Str) (status : Int)
    (n more : Nat) :
    Framed (joinCrlf (fileLines client path status n) ++ crlf) more ↔
      n = more := by
  have hmessage := file_message hlocation path status n
  have hback : ∀ line ∈ ["Accept-Ranges: bytes".toList, aliveLine client],
      OtherLine line := by
    intro line hline
    simp only [List.mem_cons, List.not_mem_nil, or_false] at hline
    rcases hline with rfl | rfl
    · exact @otherLine_of_start "Accept-Ranges".toList _ ": bytes".toList rfl
        (by decide) (by decide)
    · exact otherLine_alive client
  have hlines : ∃ front, fileLines client path status n = front ++
      lengthLine n :: ["Accept-Ranges: bytes".toList, aliveLine client] ∧
        ∀ line ∈ front, OtherLine line := by
    unfold fileLines
    split
    · refine ⟨_, rfl, fun line hline => ?_⟩
      simp only [List.mem_cons, List.not_mem_nil, or_false] at hline
      rcases hline with rfl | rfl
      · simp only [List.append_assoc]
        exact otherLine_version _
      · exact otherLine_type _
    split
    · refine ⟨_, rfl, fun line hline => ?_⟩
      simp only [List.mem_cons, List.not_mem_nil, or_false] at hline
      rcases hline with rfl | rfl | rfl
      · exact otherLine_redirection _
      · exact otherLine_location _
      · exact otherLine_type _
    · refine ⟨_, rfl, fun line hline => ?_⟩
      rw [List.mem_singleton.mp hline, List.append_assoc]
      exact otherLine_version _
  obtain ⟨front, hfront, hothers⟩ := hlines
  rw [hfront] at hmessage ⊢
  rw [framed_iff_of_lines hmessage hothers hback, List.length_nil,
    Nat.zero_add]

theorem framed_unreadable (client : Client) (status : Int) (more : Nat) :
    Framed (unreadablePageResponse client status) more := by
  refine (unreadable_message client status).framed_iff.mpr
    fun value hvalue => ?_
  have hother : ∀ line ∈ unreadableLines client status, OtherLine line := by
    intro line hline
    simp only [unreadableLines, List.mem_cons, List.not_mem_nil, or_false]
      at hline
    rcases hline with rfl | rfl | rfl
    · rw [List.append_assoc]
      exact otherLine_version _
    · exact otherLine_typeLine
    · exact otherLine_alive client
  exact absurd rfl (hother _ hvalue value)

/-- The footer is not counted. -/
theorem not_framed_listing (client : Client) (base : Str) (names : List Str)
    (more : Nat) : ¬Framed (listingResponse client base names) more := by
  have hmessage := listing_message client base names
  have hfront : ∀ line ∈ ["HTTP/1.1 200 OK".toList], OtherLine line := by
    intro line hline
    rw [List.mem_singleton.mp hline]
    exact otherLine_version "200 OK".toList
  have hback : ∀ line ∈ [typeLine, aliveLine client], OtherLine line := by
    intro line hline
    simp only [List.mem_cons, List.not_mem_nil, or_false] at hline
    rcases hline with rfl | rfl
    · exact otherLine_typeLine
    · exact otherLine_alive client
  have hfooter : 0 < listingFooter.length := by decide
  rw [@framed_iff_of_lines _ _ ["HTTP/1.1 200 OK".toList]
    [typeLine, aliveLine client] _ more hmessage hfront hback]
  generalize listingHead ++ listingEntries base names = found
  rw [List.length_append]
  omega

theorem Answer.framed_iff (answer : Answer W)
    (hlocation : Inline answer.client.request.location) :
    Framed answer.text answer.leftOpen.length ↔ answer.Measured := by
  cases answer with
  | error world client status =>
      have hinline : Inline client.request.location := hlocation
      change Framed (setResponseError world client status).response.response
        ((setResponseError world client
          status).response.fileStream.content.getD []).length ↔ _
      by_cases hpage : client.serverClientObj.findErrorPagePath status =
          "NULL".toList
      · obtain ⟨htext, hstream⟩ := stored_builtIn world hpage
        rw [htext, hstream, framed_builtIn_iff hinline,
          List.length_eq_zero_iff]
        exact ⟨fun hnil => ⟨fun _ => hnil, fun hother => absurd hpage hother⟩,
          fun hmeasured => hmeasured.1 hpage⟩
      · have hsized : (Answer.error world client status).Measured ↔
            Sized world
              (client.serverClientObj.findErrorPagePath status) :=
          ⟨fun hmeasured => hmeasured.2 hpage,
            fun hsized => ⟨fun hnone => absurd hnone hpage, fun _ => hsized⟩⟩
        rw [hsized]
        cases hopen : Os.opens world
            (client.serverClientObj.findErrorPagePath status) with
        | false =>
            rw [stored_unopened hpage hopen]
            exact iff_of_true (framed_unreadable client status _)
              (sized_of_unopened hopen)
        | true =>
            obtain ⟨htext, hstream⟩ := stored_opened hpage hopen
            rw [htext, hstream, framed_file_iff hinline]
            exact announced_eq_iff hopen
  | file world client path =>
      have hinline : Inline client.request.location := hlocation
      change Framed (fillResponse world client path 200).2
        ((fillResponse world client path
          200).1.response.fileStream.content.getD []).length ↔
            Sized world path
      cases hopen : Os.opens world path with
      | false =>
          rw [(fillResponse_unopened hopen client 200).1]
          refine iff_of_true ?_ (sized_of_unopened hopen)
          rintro lines body value hmessage -
          have hnil := hmessage.text_eq
          simp [crlf] at hnil
      | true =>
          rw [fillResponse_eq hopen, (fillResponse_opened hopen client 200).2,
            framed_file_iff hinline]
          exact announced_eq_iff hopen
  | listing client base names =>
      exact iff_of_false (not_framed_listing client base names _) id

end Answers

end Webserv
