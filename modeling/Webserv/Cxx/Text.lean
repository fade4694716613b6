import Webserv.Cxx.Search
import Mathlib.Algebra.Order.Ring.Int
import Mathlib.Data.List.TakeWhile

namespace Webserv.Cxx

/-! `std::string` as the list of its characters, with the library calls the
program makes on it. -/

abbrev Str := List Char

instance lawfulBEqStr : LawfulBEq Str := inferInstance

/-- What holds of every character of a text is decided by going through it. -/
instance (priority := high) decidableBAllStr (p : Char → Prop)
    [DecidablePred p] (text : Str) : Decidable (∀ c ∈ text, p c) :=
  List.decidableBAll p text

/-- What ends a run from inside a library call. -/
inductive Fault
  /-- `std::out_of_range`, thrown by `substr`. -/
  | outOfRange
  /-- A vector slot that does not exist. -/
  | badSlot
  /-- A loop whose condition never fails. -/
  | diverges
  deriving DecidableEq, Repr

theorem bind_ok {α β : Type} {first : Except Fault α}
    {next : α → Except Fault β} {result : β}
    (h : (first >>= next) = .ok result) :
    ∃ value, first = .ok value ∧ next value = .ok result := by
  cases first with
  | error fault => cases h
  | ok value => exact ⟨value, rfl, h⟩

/-- The value of an integer converted to a 64-bit `size_t`. -/
def sizeT (n : Int) : Nat := (n % 2 ^ 64).toNat

/-- The value of a `size_t` converted to a 32-bit `int`. -/
def int32 (n : Nat) : Int :=
  if n % 2 ^ 32 < 2 ^ 31 then (n % 2 ^ 32 : Nat)
  else (n % 2 ^ 32 : Nat) - (2 ^ 32 : Int)

theorem sizeT_natCast {n : Nat} (h : n < 2 ^ 64) : sizeT n = n := by
  unfold sizeT
  omega

theorem int32_of_lt {n : Nat} (h : n < 2 ^ 31) : int32 n = n := by
  unfold int32
  rw [Nat.mod_eq_of_lt (by omega), if_pos h]

/-- `s.substr(position, length)`. -/
def substr (s : Str) (position length : Nat) : Except Fault Str :=
  if position ≤ s.length then .ok ((s.drop position).take length)
  else .error .outOfRange

/-- `s.substr(position)`. -/
def substrFrom (s : Str) (position : Nat) : Except Fault Str :=
  if position ≤ s.length then .ok (s.drop position) else .error .outOfRange

theorem substr_ok {s : Str} {position : Nat} (h : position ≤ s.length)
    (length : Nat) :
    substr s position length = .ok ((s.drop position).take length) := by
  simp [substr, h]

theorem substr_zero (s : Str) (length : Nat) :
    substr s 0 length = .ok (s.take length) := by
  simp [substr]

theorem substrFrom_ok {s : Str} {position : Nat} (h : position ≤ s.length) :
    substrFrom s position = .ok (s.drop position) := by
  simp [substrFrom, h]

theorem substrFrom_eq_ok {s result : Str} {position : Nat}
    (h : substrFrom s position = .ok result) :
    position ≤ s.length ∧ result = s.drop position := by
  unfold substrFrom at h
  split at h
  · exact ⟨‹_›, (Except.ok.inj h).symm⟩
  · cases h

theorem substr_eq_ok {s result : Str} {position length : Nat}
    (h : substr s position length = .ok result) :
    position ≤ s.length ∧ result = (s.drop position).take length := by
  unfold substr at h
  split at h
  · exact ⟨‹_›, (Except.ok.inj h).symm⟩
  · cases h

/-- The characters of `s.c_str()` that a C function sees. -/
def cStr (s : Str) : Str := s.takeWhile (· ≠ '\x00')

theorem mem_cStr {s : Str} {c : Char} (h : c ∈ cStr s) : c ≠ '\x00' := by
  simpa using List.mem_takeWhile_imp h

theorem cStr_eq_self {s : Str} (h : '\x00' ∉ s) : cStr s = s := by
  apply List.takeWhile_eq_self_iff.mpr
  intro c hc
  have hne : c ≠ '\x00' := fun heq => h (heq ▸ hc)
  simpa using hne

/-- `strncmp` on two C strings: the sign of the first difference. -/
def strncmp : Nat → Str → Str → Int
  | 0, _, _ => 0
  | n + 1, a, b =>
      let x := a.headD '\x00'
      let y := b.headD '\x00'
      if x ≠ y then (x.toNat : Int) - y.toNat
      else if x = '\x00' then 0
      else strncmp n a.tail b.tail

theorem strncmp_eq_zero_iff {n : Nat} {a b : Str} (hnul : '\x00' ∉ a)
    (hn : n ≤ a.length) : strncmp n a b = 0 ↔ a.take n <+: b := by
  induction n generalizing a b with
  | zero => simp [strncmp]
  | succ n ih =>
      cases a with
      | nil => simp at hn
      | cons x a =>
          obtain ⟨hx, hnul⟩ := not_or.mp (List.mem_cons.not.mp hnul)
          have hdiff : ∀ y : Char, x ≠ y → (x.toNat : Int) - y.toNat ≠ 0 := by
            intro y hne hzero
            exact hne (Char.toNat_inj.mp (by omega))
          cases b with
          | nil =>
              have hfirst : x ≠ '\x00' := Ne.symm hx
              simp [strncmp, hfirst]
              simpa using hdiff _ hfirst
          | cons y b =>
              by_cases hxy : x = y
              · subst hxy
                have hrest := ih (b := b) hnul (by simpa using hn)
                simp [strncmp, Ne.symm hx, hrest]
              · simp [strncmp, hxy, hdiff y hxy]

def isspace (c : Char) : Bool :=
  c = ' ' ∨ c = '\t' ∨ c = '\n' ∨ c = '\x0b' ∨ c = '\x0c' ∨ c = '\r'

def isprint (c : Char) : Bool := 32 ≤ c.toNat ∧ c.toNat ≤ 126

def isdigit (c : Char) : Bool := 48 ≤ c.toNat ∧ c.toNat ≤ 57

/-- The successive results of `std::getline` on a stream over the text. -/
def getlines : Str → List Str
  | [] => []
  | c :: s =>
      if c = '\n' then [] :: getlines s
      else
        match getlines s with
        | [] => [[c]]
        | line :: rest => (c :: line) :: rest

/-- The successive words that `>>` extracts from a stream over the text. -/
def words (s : Str) : List Str :=
  (s.splitOnP isspace).filter (· ≠ [])

/-- Both ends of a text freed of the characters that satisfy `drop`. -/
def trimBy (drop : Char → Bool) (s : Str) : Str :=
  ((s.dropWhile drop).reverse.dropWhile drop).reverse

/-- `find_last_of` of one character. -/
def findLast? (c : Char) (s : Str) : Option Nat :=
  (s.reverse.findIdx? (· = c)).map fun i => s.length - 1 - i

/-- `<<` of a non-negative number. -/
def decimal (n : Nat) : Str := (toString n).toList

/-- `<<` of an `int`. -/
def decimalInt (n : Int) : Str := (toString n).toList

theorem isDigit_of_mem_decimal {n : Nat} {c : Char} (h : c ∈ decimal n) :
    c.isDigit = true := by
  unfold decimal at h
  rw [show toString n = n.repr from rfl, Nat.toList_repr] at h
  exact Nat.isDigit_of_mem_toDigits (by decide) (by decide) h

/-- `>>` into a `size_t`, with the stream's failure afterwards: it follows
`strtoull`, which negates modulo `2 ^ 64` after a minus sign. -/
def extractSizeT (s : Str) : Nat × Bool :=
  let s := s.dropWhile isspace
  let negative := s.head? = some '-'
  let digits := (if s.head? = some '-' ∨ s.head? = some '+' then s.tail
    else s).takeWhile isdigit
  let value := digits.foldl (fun n c => n * 10 + (c.toNat - 48)) 0
  if digits = [] then (0, true)
  else if 2 ^ 64 ≤ value then (2 ^ 64 - 1, true)
  else (if negative then (2 ^ 64 - value) % 2 ^ 64 else value, false)

/-- `>>` of an `int` from a word: the value stays 0 where no digit is found,
and saturates where it does not fit. -/
def extractInt (s : Str) : Int :=
  let negative := s.head? = some '-'
  let digits := (if s.head? = some '-' ∨ s.head? = some '+' then s.tail
    else s).takeWhile isdigit
  let value := digits.foldl (fun (n : Nat) c => n * 10 + (c.toNat - 48)) 0
  if negative then max (-(value : Int)) (-2 ^ 31)
  else min (value : Int) (2 ^ 31 - 1)

/-- The lines of a text, put back together without a final line break. -/
def joinLines : List Str → Str
  | [] => []
  | [line] => line
  | line :: rest => line ++ '\n' :: joinLines rest

def dropFinalNewline (s : Str) : Str :=
  if s.getLast? = some '\n' then s.dropLast else s

theorem getlines_cons_newline (s : Str) :
    getlines ('\n' :: s) = [] :: getlines s := by
  simp [getlines]

theorem getlines_eq_nil_iff {s : Str} : getlines s = [] ↔ s = [] := by
  cases s with
  | nil => simp [getlines]
  | cons c s =>
      simp only [getlines]
      split
      · simp
      · split <;> simp

theorem getlines_line_append {line : Str} (hline : '\n' ∉ line) (rest : Str) :
    getlines (line ++ '\n' :: rest) = line :: getlines rest := by
  induction line with
  | nil => exact getlines_cons_newline rest
  | cons c line ih =>
      obtain ⟨hc, hline⟩ := not_or.mp (List.mem_cons.not.mp hline)
      simp [getlines, ih hline, Ne.symm hc]

theorem getlines_single {line : Str} (hline : '\n' ∉ line)
    (hne : line ≠ []) : getlines line = [line] := by
  induction line with
  | nil => exact absurd rfl hne
  | cons c line ih =>
      obtain ⟨hc, hline⟩ := not_or.mp (List.mem_cons.not.mp hline)
      by_cases hnil : line = []
      · subst hnil
        simp [getlines, Ne.symm hc]
      · simp [getlines, ih hline hnil, Ne.symm hc]

theorem getlines_headD (buffer : Str) :
    (getlines buffer).headD [] = buffer.takeWhile (· ≠ '\n') := by
  have hcover : buffer = buffer.takeWhile (· ≠ '\n') ++
      buffer.dropWhile (· ≠ '\n') := List.takeWhile_append_dropWhile.symm
  have hline : '\n' ∉ buffer.takeWhile (· ≠ '\n') := by
    intro hmem
    simpa using List.mem_takeWhile_imp hmem
  cases hrest : buffer.dropWhile (· ≠ '\n') with
  | nil =>
      rw [hrest, List.append_nil] at hcover
      cases buffer with
      | nil => rfl
      | cons c buffer =>
          rw [← hcover] at hline ⊢
          rw [getlines_single hline (by simp)]
          rfl
  | cons c rest =>
      have hc : c = '\n' := by
        have hhead := List.head_dropWhile_not (· ≠ '\n') (l := buffer)
          (by rw [hrest]; simp)
        simp only [hrest, List.head_cons] at hhead
        simpa using hhead
      subst hc
      rw [hrest] at hcover
      conv_lhs => rw [hcover]
      rw [getlines_line_append hline]
      rfl

theorem dropFinalNewline_cons {c : Char} {s : Str} (hne : s ≠ []) :
    dropFinalNewline (c :: s) = c :: dropFinalNewline s := by
  unfold dropFinalNewline
  rw [List.getLast?_cons_of_ne_nil hne, List.dropLast_cons_of_ne_nil hne]
  split <;> rfl

/-- Reading a text line by line and joining the lines again loses exactly a
final line break. -/
theorem joinLines_getlines (s : Str) :
    joinLines (getlines s) = dropFinalNewline s := by
  induction s with
  | nil => rfl
  | cons c s ih =>
      by_cases hnil : s = []
      · subst hnil
        by_cases hc : c = '\n'
        · subst hc
          rfl
        · simp [getlines, hc, joinLines, dropFinalNewline]
      · rw [dropFinalNewline_cons hnil, ← ih]
        have hlines : getlines s ≠ [] := mt getlines_eq_nil_iff.mp hnil
        obtain ⟨line, rest, hsplit⟩ := List.exists_cons_of_ne_nil hlines
        by_cases hc : c = '\n'
        · subst hc
          rw [getlines_cons_newline, hsplit]
          rfl
        · cases rest with
          | nil => simp [getlines, hc, hsplit, joinLines]
          | cons next rest => simp [getlines, hc, hsplit, joinLines]

theorem dropFinalNewline_eq_self_iff {s : Str} :
    dropFinalNewline s = s ↔ s.getLast? ≠ some '\n' := by
  unfold dropFinalNewline
  split
  · rename_i hlast
    have hne : s ≠ [] := by
      rintro rfl
      simp at hlast
    constructor
    · intro heq
      have hlength := congrArg List.length heq
      have hpositive := List.length_pos_iff.mpr hne
      rw [List.length_dropLast] at hlength
      omega
    · intro h
      exact absurd hlast h
  · simpa

end Webserv.Cxx
