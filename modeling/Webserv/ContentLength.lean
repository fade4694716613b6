import Webserv.ParseRequest
import Webserv.Disk
import Mathlib.Data.Nat.Digits.Defs

namespace Webserv

open Cxx

/-! Which values of Content-Length a request goes on with. -/

def denoted (digits : Str) : Nat :=
  Nat.ofDigits 10 (digits.reverse.map fun c => c.toNat - 48)

def IsNumber (value : Str) : Prop := value ≠ [] ∧ ∀ c ∈ value, isdigit c

instance (value : Str) : Decidable (IsNumber value) :=
  inferInstanceAs (Decidable (_ ∧ _))

inductive LengthOutcome
  | goesOn (length : Nat)
  | answers (status : Int)
  deriving DecidableEq

/-- A number from 1 to the limit is accepted, a greater one is too large, and
nothing else is a length. -/
def lengthOutcome (limit : Nat) (value : Str) : LengthOutcome :=
  if IsNumber value ∧ 1 ≤ denoted value then
    if denoted value ≤ limit then .goesOn (denoted value) else .answers 413
  else .answers 400

def Judged {W : Type} [Os W] (world : W) (client : Client) :
    LengthOutcome → Client → Prop
  | .goesOn length, result =>
      result = checkIfHaveRedirection world (client.setContentLength length)
  | .answers status, result => ∃ size, result =
      setResponseError world (client.setContentLength size) status

/-- A `POST` head that gets to the length check, with the client there. -/
structure AtLength (client : Client) (requestPath : Str) (limit : Nat)
    (value : Str) (reached : Client) : Prop where
  location : ∃ located, client.serverClientObj.isLocationPath requestPath =
      .ok (reached.serverClientObj, located) ∧
    ServerBlock.isValidMethod reached.serverClientObj.routes
      (diskPath reached.serverClientObj requestPath located)
      "POST".toList = true ∧
    reached =
      let pa := diskPath reached.serverClientObj requestPath located
      let located := client.setBlock reached.serverClientObj
      if pa ≠ [] then located.setPath pa else located
  limit : reached.serverClientObj.clientBodySize = limit
  value : client.request.getMapValues "Content-Length".toList = value

/-- Every head with this value comes to the outcome the value asks for. -/
def LengthJudged (limit : Nat) (value : Str) : Prop :=
  ∀ {W : Type} [Os W] (world : W) (client : Client) (requestPath : Str)
    (reached : Client), AtLength client requestPath limit value reached →
    ∃ result, parseTarget world client requestPath "POST".toList =
        .ok result ∧
      Judged world reached (lengthOutcome limit value) result

/-- The digits that `>>` reads, behind blanks and a sign. -/
def numeral (value : Str) : Str :=
  let signed := value.dropWhile isspace
  (if signed.head? = some '-' ∨ signed.head? = some '+' then signed.tail
    else signed).takeWhile isdigit

/-- A number within 64 bits, or a text that starts with none, with zero or
with one beyond 64 bits. -/
def LengthTold (value : Str) : Prop :=
  if IsNumber value then denoted value < 2 ^ 64
  else denoted (numeral value) = 0 ∨ 2 ^ 64 ≤ denoted (numeral value)

/-! What `>>` makes of a text. -/

theorem denoted_append (digits : Str) (c : Char) :
    denoted (digits ++ [c]) = denoted digits * 10 + (c.toNat - 48) := by
  unfold denoted
  rw [List.reverse_append, List.reverse_singleton, List.singleton_append,
    List.map_cons, Nat.ofDigits_cons]
  omega

theorem foldl_denoted (digits : Str) :
    digits.foldl (fun (n : Nat) c => n * 10 + (c.toNat - 48)) 0 =
      denoted digits := by
  induction digits using List.reverseRecOn with
  | nil => rfl
  | append_singleton digits c ih =>
      rw [List.foldl_append, ih, denoted_append]
      rfl

theorem extractSizeT_eq (value : Str) :
    extractSizeT value =
      if numeral value = [] then (0, true)
      else if 2 ^ 64 ≤ denoted (numeral value) then (2 ^ 64 - 1, true)
      else (if (value.dropWhile isspace).head? = some '-' then
          (2 ^ 64 - denoted (numeral value)) % 2 ^ 64
        else denoted (numeral value), false) := by
  unfold extractSizeT
  simp only [foldl_denoted]
  rfl

theorem isdigit_ne {c d : Char} (hc : isdigit c = true)
    (hd : isdigit d = false) : c ≠ d := by
  rintro rfl
  rw [hd] at hc
  cases hc

theorem isdigit_not_isspace {c : Char} (h : isdigit c = true) :
    isspace c = false := by
  have hblank : ∀ d ∈ [' ', '\t', '\n', '\x0b', '\x0c', '\r'], c ≠ d := by
    intro d hd
    refine isdigit_ne h ?_
    revert d
    decide
  simpa [isspace] using hblank

theorem IsNumber.signed {value : Str} (h : IsNumber value) :
    value.dropWhile isspace = value ∧ value.head? ≠ some '-' ∧
      value.head? ≠ some '+' := by
  obtain ⟨hne, hdigits⟩ := h
  obtain ⟨c, rest, rfl⟩ := List.exists_cons_of_ne_nil hne
  have hc : isdigit c = true := hdigits c List.mem_cons_self
  refine ⟨?_, ?_, ?_⟩
  · rw [List.dropWhile_cons_of_neg]
    rw [isdigit_not_isspace hc]
    decide
  · simpa using isdigit_ne hc (by decide)
  · simpa using isdigit_ne hc (by decide)

theorem IsNumber.numeral_eq {value : Str} (h : IsNumber value) :
    numeral value = value := by
  obtain ⟨hblank, hminus, hplus⟩ := h.signed
  unfold numeral
  simp only [hblank]
  rw [if_neg (not_or.mpr ⟨hminus, hplus⟩)]
  exact List.takeWhile_eq_self_iff.mpr h.2

theorem IsNumber.extract {value : Str} (h : IsNumber value) :
    extractSizeT value =
      if 2 ^ 64 ≤ denoted value then (2 ^ 64 - 1, true)
      else (denoted value, false) := by
  obtain ⟨hblank, hminus, -⟩ := h.signed
  rw [extractSizeT_eq, h.numeral_eq, if_neg h.1, hblank, if_neg hminus]

theorem extractSizeT_refused_iff (value : Str) :
    ((extractSizeT value).2 = true ∨ (extractSizeT value).1 = 0) ↔
      denoted (numeral value) = 0 ∨ 2 ^ 64 ≤ denoted (numeral value) := by
  rw [extractSizeT_eq]
  by_cases hnil : numeral value = []
  · rw [if_pos hnil, hnil]
    simp [denoted]
  rw [if_neg hnil]
  by_cases hlarge : 2 ^ 64 ≤ denoted (numeral value)
  · rw [if_pos hlarge]
    exact iff_of_true (.inl rfl) (.inr hlarge)
  rw [if_neg hlarge]
  simp only [Bool.false_eq_true, false_or, or_iff_left hlarge]
  split
  · omega
  · rfl

/-! The check itself. -/

/-- The outcome that `parse_request` comes to. -/
def storedLength (limit : Nat) (value : Str) : LengthOutcome :=
  if (extractSizeT value).2 = true ∨ (extractSizeT value).1 = 0 then
    .answers 400
  else if (extractSizeT value).1 > limit then .answers 413
  else .goesOn (extractSizeT value).1

theorem parseTarget_judged {W : Type} [Os W] (world : W) {client : Client}
    {requestPath : Str} {limit : Nat} {value : Str} {reached : Client}
    (h : AtLength client requestPath limit value reached) :
    ∃ result, parseTarget world client requestPath "POST".toList =
        .ok result ∧
      Judged world reached (storedLength limit value) result := by
  obtain ⟨⟨located, hlocated, hvalid, hreached⟩, hlimit, hvalue⟩ := h
  refine ⟨parseContentLength world reached value, ?_, ?_⟩
  · unfold parseTarget
    simp only [hlocated, bind, Except.bind, hvalue]
    rw [if_neg (by rw [hvalid]; decide), if_pos trivial]
    conv_rhs => rw [hreached]
    rfl
  · unfold parseContentLength storedLength
    simp only
    by_cases hrefused : (extractSizeT value).2 = true ∨
        (extractSizeT value).1 = 0
    · rw [if_pos hrefused, if_pos hrefused]
      exact ⟨_, rfl⟩
    rw [if_neg hrefused, if_neg hrefused]
    have hblock : (reached.setContentLength
        (extractSizeT value).1).serverClientObj.clientBodySize = limit :=
      hlimit
    rw [hblock]
    by_cases hlarge : (extractSizeT value).1 > limit
    · rw [if_pos hlarge, if_pos hlarge]
      exact ⟨_, rfl⟩
    · rw [if_neg hlarge, if_neg hlarge]
      rfl

theorem storedLength_eq_iff {limit : Nat} (hlimit : limit < 2 ^ 64)
    (value : Str) :
    storedLength limit value = lengthOutcome limit value ↔
      LengthTold value := by
  unfold LengthTold lengthOutcome
  by_cases hnumber : IsNumber value
  · rw [if_pos hnumber, storedLength, hnumber.extract]
    by_cases hlarge : 2 ^ 64 ≤ denoted value
    · rw [if_pos hlarge, if_pos (.inl rfl), if_pos ⟨hnumber, by omega⟩,
        if_neg (by omega)]
      simp only [LengthOutcome.answers.injEq]
      omega
    · rw [if_neg hlarge]
      simp only [Bool.false_eq_true, false_or]
      rw [iff_true_right (by omega)]
      by_cases hzero : denoted value = 0
      · rw [if_pos hzero, if_neg (by omega)]
      · have hgood : IsNumber value ∧ 1 ≤ denoted value :=
          ⟨hnumber, by omega⟩
        rw [if_neg hzero, if_pos hgood]
        by_cases hfits : denoted value ≤ limit
        · rw [if_neg (by omega), if_pos hfits]
        · rw [if_pos (by omega), if_neg hfits]
  · rw [if_neg hnumber, if_neg fun h => hnumber h.1,
      ← extractSizeT_refused_iff, storedLength]
    by_cases hrefused : (extractSizeT value).2 = true ∨
        (extractSizeT value).1 = 0
    · rw [if_pos hrefused]
      exact ⟨fun _ => hrefused, fun _ => rfl⟩
    · rw [if_neg hrefused]
      refine ⟨?_, fun h => absurd h hrefused⟩
      split <;> simp

/-! The outcome is seen from the client. -/

theorem Judged.unique {W : Type} [Os W] {world : W} {client result : Client}
    {outcome outcome' : LengthOutcome}
    (hready : client.response.readyToSend = false)
    (hlocation : client.serverClientObj.isLocationUrl = none)
    (h : Judged world client outcome result)
    (h' : Judged world client outcome' result) : outcome = outcome' := by
  have hgoes : ∀ length, checkIfHaveRedirection world
      (client.setContentLength length) = client.setContentLength length := by
    intro length
    have hselected : (client.setContentLength length).serverClientObj.selected =
        none := by
      unfold ServerBlock.selected
      change client.serverClientObj.isLocationUrl.bind _ = none
      rw [hlocation]
      rfl
    rw [checkIfHaveRedirection, hselected]
  cases outcome with
  | goesOn length =>
      rw [Judged, hgoes] at h
      subst h
      cases outcome' with
      | goesOn length' =>
          rw [Judged, hgoes] at h'
          have hlength := congrArg (fun c => c.request.contentLength) h'
          exact congrArg LengthOutcome.goesOn hlength
      | answers status =>
          obtain ⟨size, hresult⟩ := h'
          have hanswered := congrArg (fun c => c.response.readyToSend) hresult
          rw [setResponseError_readyToSend] at hanswered
          exact absurd (hanswered.symm.trans hready) (by decide)
  | answers status =>
      obtain ⟨size, hresult⟩ := h
      cases outcome' with
      | goesOn length =>
          rw [Judged, hgoes] at h'
          rw [h'] at hresult
          have hanswered := congrArg (fun c => c.response.readyToSend) hresult
          rw [setResponseError_readyToSend] at hanswered
          exact absurd (hanswered.symm.trans hready) (by decide)
      | answers status' =>
          obtain ⟨size', hresult'⟩ := h'
          rw [hresult'] at hresult
          have hstatus := congrArg (fun c => c.response.responseStatus) hresult
          rw [setResponseError_responseStatus,
            setResponseError_responseStatus] at hstatus
          exact congrArg LengthOutcome.answers hstatus.symm

/-- A `POST` for "/" with this length, to a server without locations. -/
def lengthProbe (limit : Nat) (value : Str) : Client :=
  let client := Client.connect 5 { clientBodySize := limit }
  { client with
    request := { client.request with
      headersMap := [("Content-Length".toList, value)] } }

theorem lengthProbe_atLength (limit : Nat) (value : Str) :
    AtLength (lengthProbe limit value) "/".toList limit value
      ((lengthProbe limit value).setPath "./html".toList) where
  location := ⟨[], rfl, rfl, rfl⟩
  limit := rfl
  value := rfl

/-- A value is judged as it asks for exactly when it is a number within 64
bits, or a text that starts with none, with zero or with one beyond them. -/
theorem lengthJudged_iff {limit : Nat} (hlimit : limit < 2 ^ 64)
    (value : Str) : LengthJudged limit value ↔ LengthTold value := by
  rw [← storedLength_eq_iff hlimit]
  constructor
  · intro h
    have hreached := lengthProbe_atLength limit value
    obtain ⟨result, hresult, hasked⟩ := h (⟨[]⟩ : Disk) _ _ _ hreached
    obtain ⟨result', hresult', hstored⟩ :=
      parseTarget_judged (⟨[]⟩ : Disk) hreached
    rw [hresult] at hresult'
    obtain rfl := Except.ok.inj hresult'
    exact hstored.unique rfl rfl hasked
  · intro h W _ world client requestPath reached hreached
    rw [← h]
    exact parseTarget_judged world hreached

theorem lengthJudged_iff_twelve :
    (10 : Nat) < 2 ^ 64 ∧
      (LengthJudged 10 "12".toList ↔ LengthTold "12".toList) :=
  ⟨by decide, lengthJudged_iff (by decide) _⟩

/-- What stands behind the digits is not looked at. -/
theorem lengthJudged_fails_rest : ¬LengthJudged 100 "12abc".toList := by
  intro h
  have hreached := lengthProbe_atLength 100 "12abc".toList
  obtain ⟨result, hresult, hasked⟩ := h (⟨[]⟩ : Disk) _ _ _ hreached
  obtain ⟨result', hresult', hstored⟩ :=
    parseTarget_judged (⟨[]⟩ : Disk) hreached
  rw [hresult] at hresult'
  obtain rfl := Except.ok.inj hresult'
  have hsame := hstored.unique rfl rfl hasked
  revert hsame
  decide

end Webserv
