import Webserv.Config.Blocks
import Webserv.ContentLength

namespace Webserv

open Cxx

/-! The size that `client_max_body_size` stores, and the size that its word
denotes. -/

def sizeUnits : List (Char × Nat) :=
  [('K', 2 ^ 10), ('k', 2 ^ 10), ('M', 2 ^ 20), ('m', 2 ^ 20), ('G', 2 ^ 30),
    ('g', 2 ^ 30)]

/-- A number with at most one unit behind it, and the size it denotes. -/
inductive SizeText : Str → Nat → Prop
  | bytes {digits : Str} : IsNumber digits →
      SizeText digits (denoted digits)
  | units {digits : Str} {unit : Char} {factor : Nat} : IsNumber digits →
      (unit, factor) ∈ sizeUnits →
      SizeText (digits ++ [unit]) (denoted digits * factor)

/-- What a word is read as, by the size stored and the status left. -/
structure LimitRead (word : Str) (size : Nat) (status : Bool) : Prop where
  accepted : status = true → SizeText word size
  rejected : (∀ denoted, ¬SizeText word denoted) → status = false

theorem sizeUnit_eq_some_iff {c : Char} {factor : Nat} :
    sizeUnit c = some factor ↔ (c, factor) ∈ sizeUnits := by
  constructor
  · intro h
    unfold sizeUnit at h
    split at h
    · rename_i hc
      obtain rfl := Option.some.inj h
      rcases hc with rfl | rfl <;> decide
    split at h
    · rename_i hc
      obtain rfl := Option.some.inj h
      rcases hc with rfl | rfl <;> decide
    split at h
    · rename_i hc
      obtain rfl := Option.some.inj h
      rcases hc with rfl | rfl <;> decide
    · cases h
  · intro h
    have hall : ∀ entry ∈ sizeUnits, sizeUnit entry.1 = some entry.2 := by
      decide
    exact hall _ h

theorem not_isdigit_of_unit {c : Char} {factor : Nat}
    (h : (c, factor) ∈ sizeUnits) : isdigit c = false := by
  have hall : ∀ entry ∈ sizeUnits, isdigit entry.1 = false := by decide
  exact hall _ h

theorem IsNumber.extract_append {digits rest : Str} (h : IsNumber digits)
    (hrest : ∀ c ∈ rest.head?, isdigit c = false) :
    extractSizeT (digits ++ rest) =
      if 2 ^ 64 ≤ denoted digits then (2 ^ 64 - 1, true)
      else (denoted digits, false) := by
  obtain ⟨c, more, rfl⟩ := List.exists_cons_of_ne_nil h.1
  have hc : isdigit c = true := h.2 c List.mem_cons_self
  have hblank : (c :: more ++ rest).dropWhile isspace = c :: more ++ rest := by
    rw [List.cons_append, List.dropWhile_cons_of_neg]
    rw [isdigit_not_isspace hc]
    decide
  have hminus : (c :: more ++ rest).head? ≠ some '-' := by
    simpa using isdigit_ne hc (by decide)
  have hplus : (c :: more ++ rest).head? ≠ some '+' := by
    simpa using isdigit_ne hc (by decide)
  have hnumeral : numeral (c :: more ++ rest) = c :: more := by
    unfold numeral
    simp only [hblank]
    rw [if_neg (not_or.mpr ⟨hminus, hplus⟩),
      List.takeWhile_append_of_pos h.2]
    cases rest with
    | nil => simp
    | cons d rest => simp [hrest d rfl]
  rw [extractSizeT_eq, hnumeral, if_neg h.1, hblank, if_neg hminus]

theorem parsCbs_number (name : Str) {word : Str} (h : IsNumber word) :
    parsCbs [name, word] = ((extractSizeT word).1, true) := by
  obtain ⟨hne, hdigits⟩ := h
  rcases List.eq_nil_or_concat word with rfl | ⟨digits, last, rfl⟩
  · exact absurd rfl hne
  rw [List.concat_eq_append] at hdigits ⊢
  have hfront : digits.all isdigit = true := by
    rw [List.all_eq_true]
    exact fun c hc => hdigits c (List.mem_append_left _ hc)
  unfold parsCbs
  simp only [List.dropLast_concat, List.getLast?_concat]
  rw [if_neg (by rw [hfront]; decide), if_pos (hdigits last (by simp))]

theorem parsCbs_units (name : Str) {digits : Str} {unit : Char} {factor : Nat}
    (hdigits : ∀ c ∈ digits, isdigit c = true)
    (hunit : (unit, factor) ∈ sizeUnits) :
    parsCbs [name, digits ++ [unit]] =
      ((extractSizeT (digits ++ ['\x00'])).1 * factor % 2 ^ 64, true) := by
  have hfront : digits.all isdigit = true := List.all_eq_true.mpr hdigits
  unfold parsCbs
  simp only [List.dropLast_concat, List.getLast?_concat]
  rw [if_neg (by rw [hfront]; decide),
    if_neg (by rw [not_isdigit_of_unit hunit]; decide),
    sizeUnit_eq_some_iff.mpr hunit]

theorem parsCbs_accepted {name word : Str}
    (h : (parsCbs [name, word]).2 = true) :
    IsNumber word ∨ ∃ digits unit factor, word = digits ++ [unit] ∧
      (∀ c ∈ digits, isdigit c = true) ∧ (unit, factor) ∈ sizeUnits := by
  unfold parsCbs at h
  simp only at h
  split at h
  · cases h
  rename_i hdigits
  have hall : ∀ c ∈ word.dropLast, isdigit c = true := by
    simpa using hdigits
  rcases List.eq_nil_or_concat word with rfl | ⟨digits, last, rfl⟩
  · cases h
  rw [List.concat_eq_append] at h hall ⊢
  simp only [List.dropLast_concat, List.getLast?_concat] at h hall
  split at h
  · rename_i hlast
    refine .inl ⟨by simp, fun c hc => ?_⟩
    rcases List.mem_append.mp hc with hfront | hback
    · exact hall c hfront
    · rw [List.mem_singleton.mp hback]
      exact hlast
  cases hunit : sizeUnit last with
  | none =>
      rw [hunit] at h
      cases h
  | some factor =>
      exact .inr ⟨digits, last, factor, rfl, hall,
        sizeUnit_eq_some_iff.mp hunit⟩

theorem SizeText.unique {word : Str} {size size' : Nat}
    (h : SizeText word size) (h' : SizeText word size') : size = size' := by
  have hdigit : ∀ {digits digits' : Str} {unit : Char} {factor : Nat},
      IsNumber digits → (unit, factor) ∈ sizeUnits →
        digits ≠ digits' ++ [unit] := by
    rintro digits digits' unit factor hnumber hunit rfl
    have hlast := hnumber.2 unit (by simp)
    rw [not_isdigit_of_unit hunit] at hlast
    cases hlast
  generalize hsame : word = word' at h'
  cases h with
  | bytes hnumber =>
      cases h' with
      | bytes _ => rw [hsame]
      | units _ hunit => exact absurd hsame (hdigit hnumber hunit)
  | units _ hunit =>
      cases h' with
      | bytes hnumber => exact absurd hsame.symm (hdigit hnumber hunit)
      | units _ hunit' =>
          obtain ⟨rfl, hlast⟩ := List.append_inj' hsame rfl
          obtain rfl := (List.cons.inj hlast).1
          rw [Option.some.inj ((sizeUnit_eq_some_iff.mpr hunit).symm.trans
            (sizeUnit_eq_some_iff.mpr hunit'))]

theorem SizeText.accepted (name : Str) {word : Str} {size : Nat}
    (h : SizeText word size) : (parsCbs [name, word]).2 = true := by
  cases h with
  | bytes hnumber => rw [parsCbs_number name hnumber]
  | units hnumber hunit => rw [parsCbs_units name hnumber.2 hunit]

theorem parsCbs_lt {name word : Str} {size : Nat} (h : SizeText word size) :
    (parsCbs [name, word]).1 < 2 ^ 64 := by
  cases h with
  | bytes hnumber =>
      rw [parsCbs_number name hnumber, hnumber.extract]
      simp only
      split <;> omega
  | units hnumber hunit =>
      rw [parsCbs_units name hnumber.2 hunit]
      exact Nat.mod_lt _ (by decide)

theorem SizeText.stored (name : Str) {word : Str} {size : Nat}
    (h : SizeText word size) (hsmall : size < 2 ^ 64) :
    (parsCbs [name, word]).1 = size := by
  cases h with
  | bytes hnumber =>
      rw [parsCbs_number name hnumber, hnumber.extract, if_neg (by omega)]
  | @units digits unit factor hnumber hunit =>
      have hpositive : ∀ entry ∈ sizeUnits, 1 ≤ entry.2 := by decide
      have hle : denoted digits ≤ denoted digits * factor :=
        Nat.le_mul_of_pos_right _ (hpositive _ hunit)
      rw [parsCbs_units name hnumber.2 hunit,
        hnumber.extract_append (by simp; decide), if_neg (by omega)]
      exact Nat.mod_eq_of_lt hsmall

theorem parsCbs_read_iff (name word : Str) :
    LimitRead word (parsCbs [name, word]).1 (parsCbs [name, word]).2 ↔
      (∀ unit factor, (unit, factor) ∈ sizeUnits → word ≠ [unit]) ∧
        ∀ size, SizeText word size → size < 2 ^ 64 := by
  constructor
  · intro h
    refine ⟨?_, fun size hsize => ?_⟩
    · rintro unit factor hunit rfl
      have hstatus : (parsCbs [name, [unit]]).2 = true := by
        have hread := @parsCbs_units name [] unit factor (by simp) hunit
        rw [List.nil_append] at hread
        rw [hread]
      have htext := h.accepted hstatus
      generalize hword : [unit] = word at htext
      generalize (parsCbs [name, word]).1 = size at htext
      cases htext with
      | bytes hnumber =>
          have hdigit := hnumber.2 unit (by simp [← hword])
          rw [not_isdigit_of_unit hunit] at hdigit
          cases hdigit
      | @units digits _ _ hnumber =>
          have hlength := congrArg List.length hword
          have hpositive := List.length_pos_iff.mpr hnumber.1
          simp only [List.length_singleton, List.length_append] at hlength
          omega
    · have hstored := h.accepted (hsize.accepted name)
      rw [hsize.unique hstored]
      exact parsCbs_lt hsize
  · rintro ⟨halone, hsmall⟩
    have haccepted : (parsCbs [name, word]).2 = true →
        SizeText word (parsCbs [name, word]).1 := by
      intro hstatus
      have htext : ∃ size, SizeText word size := by
        rcases parsCbs_accepted hstatus with
          hnumber | ⟨digits, unit, factor, rfl, hdigits, hunit⟩
        · exact ⟨_, .bytes hnumber⟩
        · refine ⟨_, .units ⟨?_, hdigits⟩ hunit⟩
          rintro rfl
          exact halone unit factor hunit rfl
      obtain ⟨size, hsize⟩ := htext
      rw [hsize.stored name (hsmall size hsize)]
      exact hsize
    refine ⟨haccepted, fun hnone => ?_⟩
    rw [← Bool.not_eq_true]
    exact fun hstatus => hnone _ (haccepted hstatus)

section Stored

variable {W : Type} [Os W]

theorem serverDirective_cbs (world : W) (numb : Int) (server : ServerBlock)
    (word : Str) :
    serverDirective world numb server
        ["client_max_body_size".toList, word] =
      some ({ server with clientBodySize :=
        (parsCbs ["client_max_body_size".toList, word]).1 },
        (parsCbs ["client_max_body_size".toList, word]).2) := rfl

/-- The size stored is the size denoted exactly if the word is no unit on its
own, and denotes no size from 2^64 on. -/
theorem bodySizeRead_iff (world : W) (numb : Int) (server : ServerBlock)
    (word : Str) :
    (∃ stored status, serverDirective world numb server
        ["client_max_body_size".toList, word] = some (stored, status) ∧
      LimitRead word stored.clientBodySize status) ↔
    (∀ unit factor, (unit, factor) ∈ sizeUnits → word ≠ [unit]) ∧
      ∀ size, SizeText word size → size < 2 ^ 64 := by
  rw [serverDirective_cbs, ← parsCbs_read_iff "client_max_body_size".toList]
  constructor
  · rintro ⟨stored, status, hsame, hread⟩
    obtain ⟨rfl, rfl⟩ := Prod.mk.inj (Option.some.inj hsame)
    exact hread
  · exact fun hread => ⟨_, _, rfl, hread⟩

end Stored

/-- A limit of 2^64 bytes is accepted, and nothing is stored of it. -/
theorem bodySizeRead_fails_large :
    ¬∃ stored status, serverDirective (Disk.ofDirectories []) 0 {}
        ["client_max_body_size".toList, "17179869184G".toList] =
          some (stored, status) ∧
      LimitRead "17179869184G".toList stored.clientBodySize status := by
  rintro ⟨stored, status, hsame, hread⟩
  rw [serverDirective_cbs] at hsame
  obtain ⟨rfl, rfl⟩ := Prod.mk.inj (Option.some.inj hsame)
  have hsmall := ((parsCbs_read_iff _ _).mp hread).2
    (denoted "17179869184".toList * 2 ^ 30)
    (@SizeText.units "17179869184".toList 'G' _ (by decide) (by decide))
  exact absurd hsmall (by decide)

end Webserv
