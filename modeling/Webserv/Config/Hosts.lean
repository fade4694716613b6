import Webserv.Config.Numbers
import Webserv.ContentLength

namespace Webserv

open Cxx Coding

/-! The hosts that `pars_host` takes, and those it should take. -/

def IsOctet (piece : Str) : Prop := ∃ octet : Fin 256, piece = decimal octet

/-- Pieces that are no octets and pass for one: nothing at all, which leaves
the number read before in its place, and what starts with a NUL or has one
behind an octet other than zero. -/
def PassesForOctet (piece : Str) : Prop :=
  piece = [] ∨ ∃ digits rest, piece = digits ++ '\x00' :: rest ∧
    (digits = [] ∨ ∃ octet : Fin 256, octet ≠ 0 ∧ digits = decimal octet)

structure HostRead (word : Str) (result : Str × Bool) : Prop where
  accepted : result.2 = true ↔
    word = "localhost".toList ∨ ∃ address : Address, word = address.text
  returned : result.2 = true → result.1 =
    if word = "localhost".toList then "127.0.0.1".toList else word

/-- A word of four pieces, without a brace, and without two dots in a row in
front of a NUL, whose pieces pass for octets but are not. -/
structure HostMisread (word : Str) : Prop where
  noBrace : hasBrace word = false
  noDoubleDot : hasDoubleDot word = false
  four : (word.splitOn '.').length = 4
  pieces : ∀ piece ∈ word.splitOn '.', IsOctet piece ∨ PassesForOctet piece
  passes : ∃ piece ∈ word.splitOn '.', PassesForOctet piece

/-! A single octet. -/

theorem digitChar_digit {c : Char} (h : isdigit c = true) :
    Nat.digitChar (c.toNat - 48) = c := by
  obtain ⟨hlow, hhigh⟩ := of_decide_eq_true h
  have hall : ∀ n < 58, 48 ≤ n → Nat.digitChar (n - 48) = Char.ofNat n := by
    decide
  rw [hall c.toNat (by omega) hlow, Char.ofNat_toNat]

theorem decimal_denoted {digits : Str} (h : IsNumber digits)
    (hzero : ¬(digits.head? = some '0' ∧ 1 < digits.length)) :
    decimal (denoted digits) = digits := by
  have hdecimal : ∀ n, decimal n = Nat.toDigits 10 n := fun _ => Nat.toList_repr
  induction digits using List.reverseRecOn with
  | nil => exact absurd rfl h.1
  | append_singleton digits c ih =>
      have hc : isdigit c = true := h.2 c (by simp)
      have hrange := of_decide_eq_true hc
      rw [denoted_append, hdecimal]
      cases digits with
      | nil =>
          rw [show denoted [] = 0 from rfl, Nat.zero_mul, Nat.zero_add,
            Nat.toDigits_of_lt_base (by omega), digitChar_digit hc]
          rfl
      | cons first more =>
          have hfirst : first ≠ '0' := by
            rintro rfl
            exact hzero ⟨rfl, by simp⟩
          have hfront : decimal (denoted (first :: more)) = first :: more :=
            ih ⟨by simp, fun x hx => h.2 x (List.mem_append_left _ hx)⟩
              fun hlead => hfirst (Option.some.inj hlead.1)
          have hpositive : denoted (first :: more) ≠ 0 := by
            intro hnone
            rw [hnone] at hfront
            exact hfirst (List.cons.inj hfront).1.symm
          have hdiv : (denoted (first :: more) * 10 + (c.toNat - 48)) / 10 =
              denoted (first :: more) := by omega
          have hmod : (denoted (first :: more) * 10 + (c.toNat - 48)) % 10 =
              c.toNat - 48 := by omega
          rw [Nat.toDigits_of_base_le (by decide) (by omega), hdiv, hmod,
            ← hdecimal, hfront, digitChar_digit hc]

theorem extractInt_append {digits rest : Str}
    (hdigits : ∀ c ∈ digits, isdigit c = true)
    (hrest : ∀ c ∈ rest.head?, c = '\x00') :
    extractInt (digits ++ rest) = min (denoted digits : Int) (2 ^ 31 - 1) := by
  have hhead : ∀ sign : Char, isdigit sign = false → sign ≠ '\x00' →
      (digits ++ rest).head? ≠ some sign := by
    intro sign hsign hnul
    cases digits with
    | nil =>
        intro hhead
        exact hnul (hrest sign hhead)
    | cons c digits =>
        simpa using isdigit_ne (hdigits c List.mem_cons_self) hsign
  have htake : (digits ++ rest).takeWhile isdigit = digits := by
    rw [List.takeWhile_append_of_pos hdigits]
    cases rest with
    | nil => simp
    | cons c rest =>
        rw [hrest c rfl, List.takeWhile_cons_of_neg (by decide), List.append_nil]
  have hminus := hhead '-' (by decide) (by decide)
  have hplus := hhead '+' (by decide) (by decide)
  unfold extractInt
  simp only [if_neg (not_or.mpr ⟨hminus, hplus⟩), htake, foldl_denoted,
    if_neg hminus]

/-- What the loop takes for an octet, by the number that it reads. -/
structure TakenOctet (piece : Str) : Prop where
  digits : (cStr piece).all isdigit = true
  lead : ¬(piece.head? = some '0' ∧ 1 < piece.length)
  range : ¬(extractInt piece > 255 ∨ extractInt piece < 0)

theorem cStr_split (piece : Str) :
    ∃ rest, piece = cStr piece ++ rest ∧ ∀ c ∈ rest.head?, c = '\x00' := by
  refine ⟨piece.dropWhile (· ≠ '\x00'),
    List.takeWhile_append_dropWhile.symm, fun c hc => ?_⟩
  have hstop := List.head?_dropWhile_not (· ≠ '\x00') piece
  rw [hc] at hstop
  simpa using hstop

theorem TakenOctet.cases {piece : Str} (h : TakenOctet piece)
    (hne : piece ≠ []) : IsOctet piece ∨ PassesForOctet piece := by
  obtain ⟨rest, hsplit, hrest⟩ := cStr_split piece
  have hdigits : ∀ c ∈ cStr piece, isdigit c = true :=
    List.all_eq_true.mp h.digits
  have hvalue := extractInt_append hdigits hrest
  rw [← hsplit] at hvalue
  have hrange : denoted (cStr piece) < 256 := by
    have hnumber := h.range
    rw [hvalue] at hnumber
    omega
  have hoctet : cStr piece ≠ [] → ∃ octet : Fin 256,
      (octet : Nat) = denoted (cStr piece) ∧ cStr piece = decimal octet := by
    intro hsome
    refine ⟨⟨denoted (cStr piece), hrange⟩, rfl,
      (decimal_denoted ⟨hsome, hdigits⟩ ?_).symm⟩
    rintro ⟨hhead, hlength⟩
    refine h.lead ⟨?_, ?_⟩
    · rw [hsplit, List.head?_append_of_ne_nil _ hsome, hhead]
    · rw [hsplit, List.length_append]
      omega
  cases rest with
  | nil =>
      rw [List.append_nil] at hsplit
      obtain ⟨octet, -, hdecimal⟩ := hoctet (hsplit ▸ hne)
      exact .inl ⟨octet, hsplit.trans hdecimal⟩
  | cons c rest =>
      obtain rfl := hrest c rfl
      refine .inr (.inr ⟨cStr piece, rest, hsplit, ?_⟩)
      by_cases hnone : cStr piece = []
      · exact .inl hnone
      obtain ⟨octet, -, hdecimal⟩ := hoctet hnone
      refine .inr ⟨octet, ?_, hdecimal⟩
      -- a zero would have been refused for what stands behind it
      rintro rfl
      refine h.lead ⟨?_, ?_⟩
      · rw [hsplit, List.head?_append_of_ne_nil _ hnone, hdecimal]
        rfl
      · rw [hsplit, List.length_append, hdecimal]
        simp [decimal]

theorem takenOctet_append {digits rest : Str}
    (hdigits : ∀ c ∈ digits, isdigit c = true)
    (hrest : ∀ c ∈ rest.head?, c = '\x00') (hsmall : denoted digits < 256)
    (hlead : ¬((digits ++ rest).head? = some '0' ∧
      1 < (digits ++ rest).length)) :
    TakenOctet (digits ++ rest) := by
  have hfront : cStr (digits ++ rest) = digits := by
    have hno : ∀ c ∈ digits, decide (c ≠ '\x00') = true := fun c hc =>
      decide_eq_true (isdigit_ne (hdigits c hc) (by decide))
    rw [cStr, List.takeWhile_append_of_pos hno]
    cases rest with
    | nil => simp
    | cons c rest =>
        rw [hrest c rfl, List.takeWhile_cons_of_neg (by decide),
          List.append_nil]
  refine ⟨?_, hlead, ?_⟩
  · rw [hfront, List.all_eq_true]
    exact hdigits
  · rw [extractInt_append hdigits hrest]
    omega

theorem takenOctet_of {piece : Str}
    (h : IsOctet piece ∨ PassesForOctet piece) (hne : piece ≠ []) :
    TakenOctet piece := by
  have hdecimal : ∀ octet : Fin 256, denoted (decimal octet) < 256 := by
    intro octet
    rw [← foldl_denoted, value_decimal]
    exact octet.isLt
  rcases h with ⟨octet, rfl⟩ | hnil | ⟨digits, rest, rfl, rfl | hoctet⟩
  · have htaken := @takenOctet_append (decimal octet) []
      (fun c => isdigit_of_mem_decimal) (by simp) (hdecimal octet)
    rw [List.append_nil] at htaken
    refine htaken ?_
    rintro ⟨hzero, hlength⟩
    rw [decimal_head?_zero hzero] at hlength
    exact absurd hlength (by decide)
  · exact absurd hnil hne
  · refine takenOctet_append (by simp) (by simp) (by decide) ?_
    rintro ⟨hzero, -⟩
    exact absurd (Option.some.inj hzero) (by decide)
  · obtain ⟨octet, hother, rfl⟩ := hoctet
    refine takenOctet_append (fun c => isdigit_of_mem_decimal) (by simp)
      (hdecimal octet) ?_
    rintro ⟨hzero, -⟩
    rw [List.head?_append_of_ne_nil _ (decimal_ne_nil _)] at hzero
    exact hother (Fin.ext (decimal_head?_zero hzero))

/-! The loop over the octets. -/

theorem checkOctets_cons {numb : Int} {octet : Str} {rest : List Str} :
    checkOctets numb (octet :: rest) = true ↔
      (if octet = [] then ¬(numb > 255 ∨ numb < 0) else TakenOctet octet) ∧
        checkOctets (extractIntInto octet numb) rest = true := by
  rw [checkOctets]
  simp only
  by_cases hnil : octet = []
  · subst hnil
    rw [if_neg (by decide), if_neg (by simp), if_pos rfl, extractIntInto,
      if_pos rfl]
    by_cases hrange : numb > 255 ∨ numb < 0
    · rw [if_pos hrange]
      exact iff_of_false (by decide) fun h => h.1 hrange
    · rw [if_neg hrange, and_iff_right hrange]
  · rw [if_neg hnil, extractIntInto, if_neg hnil]
    by_cases hdigits : (cStr octet).all isdigit = false
    · rw [if_pos hdigits]
      refine iff_of_false (by decide) fun h => ?_
      rw [h.1.digits] at hdigits
      cases hdigits
    rw [if_neg hdigits]
    by_cases hlead : octet.head? = some '0' ∧ 1 < octet.length
    · rw [if_pos hlead]
      exact iff_of_false (by decide) fun h => h.1.lead hlead
    rw [if_neg hlead]
    by_cases hrange : extractInt octet > 255 ∨ extractInt octet < 0
    · rw [if_pos hrange]
      exact iff_of_false (by decide) fun h => h.1.range hrange
    · rw [if_neg hrange, and_iff_right]
      exact ⟨by simpa using hdigits, hlead, hrange⟩

theorem checkOctets_pieces {numb : Int} {octets : List Str}
    (h : checkOctets numb octets = true) :
    ∀ octet ∈ octets, IsOctet octet ∨ PassesForOctet octet := by
  induction octets generalizing numb with
  | nil => simp
  | cons octet rest ih =>
      obtain ⟨hfirst, hrest⟩ := checkOctets_cons.mp h
      intro other hother
      rcases List.mem_cons.mp hother with rfl | hmem
      · by_cases hnil : other = []
        · exact .inr (.inl hnil)
        · rw [if_neg hnil] at hfirst
          exact hfirst.cases hnil
      · exact ih hrest other hmem

/-- What stands in the number at first does not matter as long as it is in
range. -/
theorem checkOctets_of_pieces {numb : Int} (hnumb : ¬(numb > 255 ∨ numb < 0))
    {octets : List Str}
    (h : ∀ octet ∈ octets, IsOctet octet ∨ PassesForOctet octet) :
    checkOctets numb octets = true := by
  induction octets generalizing numb with
  | nil => rfl
  | cons octet rest ih =>
      have hrest := fun other hother =>
        h other (List.mem_cons_of_mem octet hother)
      rw [checkOctets_cons]
      by_cases hnil : octet = []
      · rw [if_pos hnil, extractIntInto, if_pos hnil]
        exact ⟨hnumb, ih hnumb hrest⟩
      · have htaken := takenOctet_of (h octet List.mem_cons_self) hnil
        rw [if_neg hnil, extractIntInto, if_neg hnil]
        exact ⟨htaken, ih htaken.range hrest⟩

/-! The whole word. -/

theorem not_passes_of_octet {piece : Str} (h : IsOctet piece) :
    ¬PassesForOctet piece := by
  obtain ⟨octet, rfl⟩ := h
  rintro (hnil | ⟨digits, rest, hsplit, -⟩)
  · exact decimal_ne_nil _ hnil
  · refine @decimal_ne_of_not_isdigit octet '\x00' (by decide) ?_
    rw [hsplit]
    simp

theorem address_iff {word : Str} :
    (∃ address : Address, word = address.text) ↔
      (word.splitOn '.').length = 4 ∧
        ∀ piece ∈ word.splitOn '.', IsOctet piece := by
  constructor
  · rintro ⟨address, rfl⟩
    rw [address.splitOn_text]
    refine ⟨rfl, fun piece hpiece => ?_⟩
    obtain ⟨octet, -, rfl⟩ := List.mem_map.mp hpiece
    exact ⟨octet, rfl⟩
  · rintro ⟨hfour, hoctets⟩
    obtain ⟨first, second, third, fourth, hpieces⟩ :=
      List.length_eq_four.mp hfour
    rw [hpieces] at hoctets
    obtain ⟨a, rfl⟩ := hoctets first (by simp)
    obtain ⟨b, rfl⟩ := hoctets second (by simp)
    obtain ⟨c, rfl⟩ := hoctets third (by simp)
    obtain ⟨d, rfl⟩ := hoctets fourth (by simp)
    refine ⟨⟨a, b, c, d⟩, ?_⟩
    rw [← @List.intercalate_splitOn _ word _ _ '.', hpieces]
    rfl

theorem splitWords_eq {word : Str} (hfour : (splitWords word).length = 4 ∨
    (word.splitOn '.').length = 4) : splitWords word = word.splitOn '.' := by
  unfold splitWords at hfour ⊢
  by_cases hdot : '.' ∈ word
  · rw [if_pos hdot]
  · rw [if_neg hdot, List.splitOn_eq_singleton hdot] at hfour
    rcases hfour with hnone | hone
    · cases hnone
    · cases hone

theorem parsHost_eq (numb : Int) (name word : Str) :
    parsHost numb [name, word] =
      if hasBrace word then ([], false)
      else if word = "localhost".toList then ("127.0.0.1".toList, true)
      else if hasDoubleDot word = false ∧ (word.splitOn '.').length = 4 ∧
          checkOctets numb (word.splitOn '.') = true then (word, true)
      else ([], false) := by
  unfold parsHost
  simp only
  by_cases hbrace : hasBrace word = true
  · rw [if_pos hbrace, if_pos hbrace]
  rw [if_neg hbrace, if_neg hbrace]
  by_cases hlocal : word = "localhost".toList
  · rw [if_pos hlocal, if_pos hlocal]
  rw [if_neg hlocal, if_neg hlocal]
  by_cases hdouble : hasDoubleDot word = true
  · rw [if_pos hdouble, if_neg (by simp [hdouble])]
  rw [if_neg hdouble]
  by_cases hfour : (splitWords word).length = 4
  · have hsame := splitWords_eq (.inl hfour)
    rw [hsame] at hfour ⊢
    rw [if_neg (not_not_intro hfour)]
    cases hoctets : checkOctets numb (word.splitOn '.') with
    | false => simp
    | true => simp [hdouble, hfour]
  · rw [if_pos hfour, if_neg]
    rintro ⟨-, hpieces, -⟩
    exact hfour (splitWords_eq (.inr hpieces) ▸ hpieces)

/-- `pars_host` takes the hosts there are, whatever its number holds at first,
exactly if the word is not misread. -/
theorem hostRead_iff (name word : Str) :
    (∀ numb, HostRead word (parsHost numb [name, word])) ↔
      ¬HostMisread word := by
  constructor
  · intro hread hmisread
    have hoctets : checkOctets 0 (word.splitOn '.') = true :=
      checkOctets_of_pieces (by decide) hmisread.pieces
    have hnotLocal : word ≠ "localhost".toList := by
      rintro rfl
      exact absurd hmisread.four (by decide)
    have hresult : parsHost 0 [name, word] = (word, true) := by
      rw [parsHost_eq, if_neg (by rw [hmisread.noBrace]; decide),
        if_neg hnotLocal,
        if_pos ⟨hmisread.noDoubleDot, hmisread.four, hoctets⟩]
    have haddress := ((hread 0).accepted.mp (by rw [hresult])).resolve_left
      hnotLocal
    obtain ⟨piece, hpiece, hpasses⟩ := hmisread.passes
    exact not_passes_of_octet ((address_iff.mp haddress).2 piece hpiece) hpasses
  · intro hmisread numb
    have haccepted : (parsHost numb [name, word]).2 = true →
        word = "localhost".toList ∨
          ((∃ address : Address, word = address.text) ∧
            parsHost numb [name, word] = (word, true)) := by
      intro hstatus
      rw [parsHost_eq] at hstatus ⊢
      split at hstatus
      · cases hstatus
      rename_i hbrace
      split at hstatus
      · rename_i hlocal
        exact .inl hlocal
      rename_i hlocal
      split at hstatus
      · rename_i htaken
        rw [if_neg hbrace, if_neg hlocal, if_pos htaken]
        obtain ⟨hdouble, hfour, hoctets⟩ := htaken
        have hpieces := checkOctets_pieces hoctets
        refine .inr ⟨address_iff.mpr ⟨hfour, fun piece hpiece => ?_⟩, rfl⟩
        refine (hpieces piece hpiece).resolve_right fun hpasses => ?_
        exact hmisread ⟨by simpa using hbrace, hdouble, hfour, hpieces,
          piece, hpiece, hpasses⟩
      · cases hstatus
    refine ⟨⟨fun hstatus => (haccepted hstatus).imp_right (·.1), ?_⟩,
      fun hstatus => ?_⟩
    · rintro (rfl | ⟨address, rfl⟩)
      · rw [parsHost_eq, if_neg (by decide), if_pos rfl]
      · rw [parsHost_text]
    · by_cases hlocal : word = "localhost".toList
      · subst hlocal
        rw [parsHost_eq, if_neg (by decide), if_pos rfl, if_pos rfl]
      · rw [((haccepted hstatus).resolve_left hlocal).2, if_neg hlocal]

/-- Behind a last dot the number is still that of the third octet. -/
theorem hostRead_fails_lastDot :
    ¬∀ numb, HostRead "1.2.3.".toList
      (parsHost numb ["host".toList, "1.2.3.".toList]) := by
  intro hread
  have hstatus : (parsHost 0 ["host".toList, "1.2.3.".toList]).2 = true := by
    decide
  have haddress := ((hread 0).accepted.mp hstatus).resolve_left (by decide)
  obtain ⟨octet, hoctet⟩ := (address_iff.mp haddress).2 [] (by decide)
  exact decimal_ne_nil _ hoctet.symm

end Webserv
