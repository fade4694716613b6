import Webserv.Config.Syntax

namespace Webserv

open Cxx Coding

/-! Numbers written in decimal, as the parsers of the values read them. -/

theorem isdigit_of_mem_decimal {n : Nat} {c : Char} (h : c ∈ decimal n) :
    isdigit c = true := by
  have hdigit := isDigit_of_mem_decimal h
  unfold Char.isDigit at hdigit
  simp only [ge_iff_le, Bool.and_eq_true, decide_eq_true_eq] at hdigit
  exact decide_eq_true ⟨hdigit.1, hdigit.2⟩

theorem decimal_ne_of_not_isdigit {n : Nat} {c : Char}
    (h : isdigit c = false) : c ∉ decimal n := by
  intro hmem
  rw [isdigit_of_mem_decimal hmem] at h
  cases h

theorem decimal_all_isdigit (n : Nat) : (decimal n).all isdigit = true :=
  List.all_eq_true.mpr fun _ => isdigit_of_mem_decimal

theorem takeWhile_isdigit_decimal (n : Nat) {rest : Str}
    (h : ∀ c ∈ rest.head?, isdigit c = false) :
    (decimal n ++ rest).takeWhile isdigit = decimal n := by
  rw [List.takeWhile_append_of_pos fun _ => isdigit_of_mem_decimal]
  cases rest with
  | nil => simp
  | cons c rest => simp [h c rfl]

theorem value_decimal (n : Nat) :
    (decimal n).foldl (fun (m : Nat) c => m * 10 + (c.toNat - 48)) 0 = n := by
  have hdigits : decimal n = Nat.toDigits 10 n := Nat.toList_repr
  rw [hdigits]
  conv => rhs; rw [← Nat.ofDigitChars_ten_toDigits (n := n)]
  simp [Nat.ofDigitChars_eq_foldl, Nat.mul_comm]

theorem decimal_head? {n : Nat} {c : Char} (hc : isdigit c = false) :
    (decimal n).head? ≠ some c := fun h =>
  decimal_ne_of_not_isdigit hc (List.mem_of_mem_head? h)

theorem extractInt_decimal {n : Nat} (h : n < 2 ^ 31) :
    extractInt (decimal n) = n := by
  have hminus : (decimal n).head? ≠ some '-' := decimal_head? (by decide)
  have hplus : (decimal n).head? ≠ some '+' := decimal_head? (by decide)
  have hdigits : (decimal n).takeWhile isdigit = decimal n := by
    simpa using @takeWhile_isdigit_decimal n [] (by simp)
  unfold extractInt
  simp only [if_neg (not_or.mpr ⟨hminus, hplus⟩), hdigits, value_decimal,
    if_neg hminus]
  omega

theorem decimal_head?_zero {n : Nat} (h : (decimal n).head? = some '0') :
    n = 0 := by
  have hdigits : ∀ m, decimal m = Nat.toDigits 10 m := fun _ =>
    Nat.toList_repr
  induction n using Nat.strongRecOn with
  | ind n ih =>
      rw [hdigits] at h
      by_cases hsmall : n < 10
      · rw [Nat.toDigits_of_lt_base hsmall] at h
        simpa using h
      · rw [Nat.toDigits_of_base_le (by decide) (by omega),
          List.head?_append_of_ne_nil _ Nat.toDigits_ne_nil, ← hdigits] at h
        have hzero := ih (n / 10) (by omega) h
        omega

theorem decimal_plainWord (n : Nat) : PlainWord (decimal n) where
  ne_nil := decimal_ne_nil n
  noSpace c hc := by
    by_contra hspace
    have hdigit := isdigit_of_mem_decimal hc
    simp only [isspace, Bool.not_eq_false, decide_eq_true_eq] at hspace
    obtain rfl | rfl | rfl | rfl | rfl | rfl := hspace <;>
      exact absurd hdigit (by decide)
  noSemicolon := decimal_ne_of_not_isdigit (by decide)
  noHash := decimal_ne_of_not_isdigit (by decide)
  noOpen := decimal_ne_of_not_isdigit (by decide)
  noClose := decimal_ne_of_not_isdigit (by decide)

theorem cStr_decimal (n : Nat) : cStr (decimal n) = decimal n :=
  cStr_eq_self (decimal_ne_of_not_isdigit (by decide))

theorem parsPort_decimal (name : Str) {port : Nat} (hlow : 1 ≤ port)
    (hhigh : port ≤ 65535) :
    parsPort [name, decimal port] = ((port : Int), true) := by
  have hvalue : extractInt (decimal port) = port :=
    extractInt_decimal (by omega)
  unfold parsPort
  simp only [cStr_decimal, decimal_all_isdigit, hvalue]
  rw [if_neg (by decide), if_neg (by omega)]

/-! Addresses. -/

namespace Address

theorem text_eq (address : Address) :
    address.text = decimal address.first ++ '.' ::
      (decimal address.second ++ '.' ::
        (decimal address.third ++ '.' :: decimal address.fourth)) := by
  simp [text, octets, List.intercalate]

theorem isdigit_of_mem_text {address : Address} {c : Char}
    (h : c ∈ address.text) (hdot : c ≠ '.') : isdigit c = true := by
  rw [text_eq] at h
  simp only [List.mem_append, List.mem_cons, hdot, false_or] at h
  obtain h | h | h | h := h <;> exact isdigit_of_mem_decimal h

theorem splitOn_text (address : Address) :
    address.text.splitOn '.' =
      address.octets.map fun octet : Fin 256 => decimal octet := by
  refine List.splitOn_intercalate '.' ?_ (by simp [octets])
  intro piece hpiece
  obtain ⟨octet, -, rfl⟩ := List.mem_map.mp hpiece
  exact decimal_ne_of_not_isdigit (by decide)

end Address

theorem hasDoubleDot_splitOn {line : Str} (h : hasDoubleDot line = true) :
    [] ∈ line.splitOn '.' := by
  obtain ⟨front, back, rfl⟩ :
      ∃ front back, line = front ++ '.' :: '.' :: back := by
    fun_induction hasDoubleDot line with
    | case1 back => exact ⟨[], back, rfl⟩
    | case2 => cases h
    | case3 c rest _ _ ih =>
        obtain ⟨front, back, rfl⟩ := ih h
        exact ⟨c :: front, back, rfl⟩
    | case4 => cases h
  have hnext : ('.' :: back).splitOn '.' = [] :: back.splitOn '.' :=
    List.splitOn_append_cons_self_of_not_mem List.not_mem_nil back
  simp [List.splitOn_append_cons_self, hnext]

theorem checkOctets_decimal (octets : List (Fin 256)) (numb : Int) :
    checkOctets numb (octets.map fun octet : Fin 256 => decimal octet) =
      true := by
  induction octets generalizing numb with
  | nil => rfl
  | cons octet rest ih =>
      have hvalue : extractIntInto (decimal octet) numb = octet := by
        rw [extractIntInto, if_neg (decimal_ne_nil _),
          extractInt_decimal (by omega)]
      have hlead : ¬((decimal octet).head? = some '0' ∧
          1 < (decimal octet).length) := by
        rintro ⟨hzero, hlength⟩
        rw [decimal_head?_zero hzero] at hlength
        exact absurd hlength (by decide)
      rw [List.map_cons, checkOctets, cStr_decimal, decimal_all_isdigit,
        if_neg (by decide), if_neg hlead]
      simp only [hvalue]
      rw [if_neg (by omega)]
      exact ih _

theorem parsHost_text (name : Str) (address : Address) (numb : Int) :
    parsHost numb [name, address.text] = (address.text, true) := by
  have hdot : '.' ∈ address.text := by simp [Address.text_eq]
  have hbrace : ¬hasBrace address.text = true := by
    intro hbrace
    obtain hopen | hclose := of_decide_eq_true hbrace
    · exact absurd (Address.isdigit_of_mem_text hopen (by decide)) (by decide)
    · exact absurd (Address.isdigit_of_mem_text hclose (by decide)) (by decide)
  have hlocal : address.text ≠ "localhost".toList := by
    intro hlocal
    have hmem : 'l' ∈ address.text := hlocal ▸ (by decide)
    exact absurd (Address.isdigit_of_mem_text hmem (by decide)) (by decide)
  have hdouble : ¬hasDoubleDot address.text = true := by
    intro hdouble
    have hempty := hasDoubleDot_splitOn hdouble
    rw [Address.splitOn_text] at hempty
    obtain ⟨octet, -, hnil⟩ := List.mem_map.mp hempty
    exact decimal_ne_nil _ hnil
  unfold parsHost
  simp only [if_neg hbrace, if_neg hlocal, if_neg hdouble, splitWords,
    if_pos hdot, Address.splitOn_text, checkOctets_decimal]
  simp [Address.octets]

end Webserv
