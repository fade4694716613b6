import Webserv.Coding.Lines

namespace Webserv.Coding

open Cxx

/-! Messages: head lines up to a blank line, and the body behind it. -/

def Inline (text : Str) : Prop := '\r' ∉ text ∧ '\n' ∉ text

instance (text : Str) : Decidable (Inline text) :=
  inferInstanceAs (Decidable (_ ∧ _))

theorem Inline.append {first second : Str} (hfirst : Inline first)
    (hsecond : Inline second) : Inline (first ++ second) := by
  constructor
  · simp [hfirst.1, hsecond.1]
  · simp [hfirst.2, hsecond.2]

structure Message (text : Str) (lines : List Str) (body : Str) : Prop where
  text_eq : text = joinCrlf lines ++ crlf ++ body
  inline : ∀ line ∈ lines, Inline line
  ne_nil : ∀ line ∈ lines, line ≠ []

theorem cut_unique {c : Char} {front front' back back' : Str}
    (hfront : c ∉ front) (hfront' : c ∉ front')
    (h : front ++ c :: back = front' ++ c :: back') :
    front = front' ∧ back = back' := by
  have hfound := @search?_first Char _ c front back hfront
  rw [h, search?_first hfront'] at hfound
  obtain ⟨hsame, hrest⟩ := List.append_inj h (Option.some.inj hfound).symm
  exact ⟨hsame, (List.cons.inj hrest).2⟩

theorem joinCrlf_unique {lines lines' : List Str} {body body' : Str}
    (hlines : ∀ line ∈ lines, Inline line ∧ line ≠ [])
    (hlines' : ∀ line ∈ lines', Inline line ∧ line ≠ [])
    (h : joinCrlf lines ++ crlf ++ body = joinCrlf lines' ++ crlf ++ body') :
    lines = lines' ∧ body = body' := by
  -- a line does not start like a blank one
  have hblank : ∀ (line : Str) (more : List Str) (rest rest' : Str),
      Inline line ∧ line ≠ [] →
        crlf ++ rest ≠ joinCrlf (line :: more) ++ crlf ++ rest' := by
    intro line more rest rest' hline heq
    obtain ⟨c, tail, rfl⟩ := List.exists_cons_of_ne_nil hline.2
    rw [joinCrlf_cons] at heq
    have hreturn : '\r' = c := (List.cons.inj heq).1
    exact hline.1.1 (hreturn ▸ List.mem_cons_self)
  induction lines generalizing lines' with
  | nil =>
      cases lines' with
      | nil => exact ⟨rfl, List.append_cancel_left h⟩
      | cons line' more' =>
          exact absurd h (hblank line' more' body body'
            (hlines' line' List.mem_cons_self))
  | cons line more ih =>
      cases lines' with
      | nil =>
          exact absurd h.symm (hblank line more body' body
            (hlines line List.mem_cons_self))
      | cons line' more' =>
          have hcut : line ++ '\r' :: ('\n' :: (joinCrlf more ++ crlf ++
              body)) = line' ++ '\r' :: ('\n' :: (joinCrlf more' ++ crlf ++
                body')) := by
            simpa [joinCrlf_cons, crlf] using h
          obtain ⟨rfl, hrest⟩ := cut_unique
            (hlines line List.mem_cons_self).1.1
            (hlines' line' List.mem_cons_self).1.1 hcut
          obtain ⟨rfl, rfl⟩ := ih
            (fun other hother => hlines other (List.mem_cons_of_mem _ hother))
            (fun other hother =>
              hlines' other (List.mem_cons_of_mem _ hother))
            (List.cons.inj hrest).2
          exact ⟨rfl, rfl⟩

theorem Message.unique {text body body' : Str} {lines lines' : List Str}
    (h : Message text lines body) (h' : Message text lines' body') :
    lines = lines' ∧ body = body' :=
  joinCrlf_unique (fun line hline => ⟨h.inline line hline, h.ne_nil line hline⟩)
    (fun line hline => ⟨h'.inline line hline, h'.ne_nil line hline⟩)
    (h.text_eq.symm.trans h'.text_eq)

def StatusLine (line : Str) : Prop :=
  ∃ digits reason, line = "HTTP/1.1 ".toList ++ digits ++ ' ' :: reason ∧
    digits.length = 3 ∧ ∀ c ∈ digits, isdigit c = true

def HeaderField (line : Str) : Prop :=
  ∃ name value, line = name ++ ':' :: value ∧ name ≠ []

/-- A status line, header fields, a blank line and a body. -/
def WellFormedMessage (text : Str) : Prop :=
  ∃ first headers body, Message text (first :: headers) body ∧
    StatusLine first ∧ ∀ header ∈ headers, HeaderField header

theorem Message.wellFormed_iff {text first body : Str} {headers : List Str}
    (h : Message text (first :: headers) body) :
    WellFormedMessage text ↔
      StatusLine first ∧ ∀ header ∈ headers, HeaderField header := by
  constructor
  · rintro ⟨first', headers', body', h', hwell⟩
    obtain ⟨hlines, -⟩ := h.unique h'
    obtain ⟨rfl, rfl⟩ := List.cons.inj hlines
    exact hwell
  · intro hwell
    exact ⟨first, headers, body, h, hwell⟩

theorem WellFormedMessage.ne_nil {text : Str} (h : WellFormedMessage text) :
    text ≠ [] := by
  obtain ⟨first, headers, body, hmessage, -⟩ := h
  rintro rfl
  have hnil := hmessage.text_eq
  rw [joinCrlf_cons] at hnil
  simp [crlf] at hnil

theorem WellFormedMessage.space {text : Str} (h : WellFormedMessage text) :
    text[12]? = some ' ' := by
  obtain ⟨first, headers, body, hmessage, hstatus, -⟩ := h
  obtain ⟨digits, reason, rfl, hdigits, -⟩ := hstatus
  rw [hmessage.text_eq, joinCrlf_cons]
  have hlength : ("HTTP/1.1 ".toList ++ digits).length = 12 := by
    rw [List.length_append, hdigits]
    rfl
  simp only [List.append_assoc]
  rw [← List.append_assoc, List.getElem?_append_right (by omega), hlength]
  rfl

/-- A blank that may stand around the value of a header line. -/
def isBlank (c : Char) : Bool := c = ' ' ∨ c = '\t'

/-- The value of a header line with this name in lower case. -/
def fieldValue (name line : Str) : Option Str :=
  if ':' ∈ line ∧ (line.takeWhile (· ≠ ':')).map Char.toLower = name then
    some (trimBy isBlank ((line.dropWhile (· ≠ ':')).drop 1))
  else none

theorem fieldValue_cons {key : Str} (hkey : ':' ∉ key) (name value : Str) :
    fieldValue name (key ++ ':' :: value) =
      if key.map Char.toLower = name then some (trimBy isBlank value)
      else none := by
  have hall : ∀ c ∈ key, decide (c ≠ ':') = true := fun c hc =>
    decide_eq_true fun heq => hkey (heq ▸ hc)
  unfold fieldValue
  rw [List.takeWhile_append_of_pos hall, List.dropWhile_append_of_pos hall]
  simp

theorem fieldValue_none {line : Str} (h : ':' ∉ line) (name : Str) :
    fieldValue name line = none :=
  if_neg fun hmem => h hmem.1

theorem trimBy_blanks {text : Str} (h : ∀ c ∈ text, isBlank c = false) :
    trimBy isBlank (' ' :: (text ++ [' '])) = text := by
  cases text with
  | nil => rfl
  | cons c rest =>
      have hreverse : ∀ d ∈ (c :: rest).reverse, isBlank d = false :=
        fun d hd => h d (List.mem_reverse.mp hd)
      have hback : (c :: rest).reverse.dropWhile isBlank =
          (c :: rest).reverse := by
        cases hlast : (c :: rest).reverse with
        | nil => rfl
        | cons d front =>
            rw [List.dropWhile_cons_of_neg]
            rw [hreverse d (hlast ▸ List.mem_cons_self)]
            exact Bool.false_ne_true
      unfold trimBy
      rw [List.dropWhile_cons_of_pos (by decide), List.cons_append,
        List.dropWhile_cons_of_neg (by simp [h c List.mem_cons_self]),
        ← List.cons_append, List.reverse_append]
      change ((' ' :: (c :: rest).reverse).dropWhile isBlank).reverse = _
      rw [List.dropWhile_cons_of_pos (by decide), hback, List.reverse_reverse]

def RedirectsTo (text : Str) (code : Int) (target : Str) : Prop :=
  ∃ reason headers body,
    Message text (("HTTP/1.1 ".toList ++ decimalInt code ++ ' ' :: reason) ::
      headers) body ∧
    headers.filterMap (fieldValue "location".toList) = [target]

theorem Message.redirectsTo_iff {text first body : Str} {headers : List Str}
    (h : Message text (first :: headers) body) {code : Int} {target : Str} :
    RedirectsTo text code target ↔
      (∃ reason, first =
        "HTTP/1.1 ".toList ++ decimalInt code ++ ' ' :: reason) ∧
      headers.filterMap (fieldValue "location".toList) = [target] := by
  constructor
  · rintro ⟨reason, headers', body', h', htarget⟩
    obtain ⟨hlines, -⟩ := h.unique h'
    obtain ⟨rfl, rfl⟩ := List.cons.inj hlines
    exact ⟨⟨reason, rfl⟩, htarget⟩
  · rintro ⟨⟨reason, rfl⟩, htarget⟩
    exact ⟨reason, headers, body, h, htarget⟩

/-- A `Content-Length` line tells the length of the body and of what is sent
behind it. -/
def Framed (text : Str) (more : Nat) : Prop :=
  ∀ lines body value, Message text lines body →
    "Content-Length: ".toList ++ value ∈ lines →
      value = decimal (body.length + more)

theorem Message.framed_iff {text body : Str} {lines : List Str} {more : Nat}
    (h : Message text lines body) :
    Framed text more ↔ ∀ value,
      "Content-Length: ".toList ++ value ∈ lines →
        value = decimal (body.length + more) := by
  constructor
  · intro hframed value hvalue
    exact hframed lines body value h hvalue
  · intro hall lines' body' value h' hvalue
    obtain ⟨rfl, rfl⟩ := h.unique h'
    exact hall value hvalue

theorem decimal_injective {m n : Nat} (h : decimal m = decimal n) :
    m = n := by
  have hdigits : Nat.toDigits 10 m = Nat.toDigits 10 n := by
    rw [← Nat.toList_repr, ← Nat.toList_repr]
    exact h
  rw [← Nat.ofDigitChars_toDigits (b := 10) (n := m) (by decide) (by decide),
    hdigits, Nat.ofDigitChars_toDigits (by decide) (by decide)]

theorem decimal_inline (n : Nat) : Inline (decimal n) := by
  constructor
  · intro h
    exact absurd (isDigit_of_mem_decimal h) (by decide)
  · intro h
    exact absurd (isDigit_of_mem_decimal h) (by decide)

theorem decimal_ne_nil (n : Nat) : decimal n ≠ [] := by
  rw [decimal, show toString n = n.repr from rfl, Nat.toList_repr]
  exact Nat.toDigits_ne_nil

theorem decimalInt_negSucc (n : Nat) :
    decimalInt (Int.negSucc n) = '-' :: decimal (n + 1) := by
  unfold decimalInt decimal
  simp [toString, Int.repr, String.toList_append]

theorem decimalInt_ne_nil (n : Int) : decimalInt n ≠ [] := by
  cases n with
  | ofNat n => exact decimal_ne_nil n
  | negSucc n => simp [decimalInt_negSucc]

theorem mem_decimalInt {n : Int} {c : Char} (h : c ∈ decimalInt n) :
    c = '-' ∨ c.isDigit = true := by
  cases n with
  | ofNat n => exact .inr (isDigit_of_mem_decimal h)
  | negSucc n =>
      rw [decimalInt_negSucc] at h
      cases List.mem_cons.mp h with
      | inl hminus => exact .inl hminus
      | inr hdigit => exact .inr (isDigit_of_mem_decimal hdigit)

theorem decimalInt_injective {m n : Int} (h : decimalInt m = decimalInt n) :
    m = n := by
  have hminus : ∀ (k l : Nat), decimal k ≠ '-' :: decimal l := by
    intro k l heq
    have hmem : '-' ∈ decimal k := heq ▸ List.mem_cons_self
    exact absurd (isDigit_of_mem_decimal hmem) (by decide)
  cases m with
  | ofNat m =>
      cases n with
      | ofNat n => exact congrArg Int.ofNat (decimal_injective h)
      | negSucc n =>
          rw [decimalInt_negSucc] at h
          exact absurd h (hminus m (n + 1))
  | negSucc m =>
      rw [decimalInt_negSucc] at h
      cases n with
      | ofNat n => exact absurd h.symm (hminus n (m + 1))
      | negSucc n =>
          rw [decimalInt_negSucc] at h
          have hnat := decimal_injective (List.cons.inj h).2
          rw [Nat.succ.inj hnat]

theorem noSpace_decimalInt (n : Int) : ' ' ∉ decimalInt n := by
  intro h
  cases mem_decimalInt h with
  | inl hminus => cases hminus
  | inr hdigit => cases hdigit

theorem statusLine_code_iff (start : Str) (status code : Int) (title : Str) :
    (∃ reason, start ++ decimalInt status ++ ' ' :: title =
      start ++ decimalInt code ++ ' ' :: reason) ↔ status = code := by
  constructor
  · rintro ⟨reason, hreason⟩
    rw [List.append_assoc, List.append_assoc] at hreason
    obtain ⟨hdigits, -⟩ := cut_unique (noSpace_decimalInt _)
      (noSpace_decimalInt _) (List.append_cancel_left hreason)
    exact decimalInt_injective hdigits
  · rintro rfl
    exact ⟨title, rfl⟩

end Webserv.Coding
