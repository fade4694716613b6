import Mathlib.Data.List.Infix

namespace Webserv.Cxx

/-! Sequences searched for a contiguous pattern, as `std::string::find` does. -/

section Occurrence

variable {α : Type}

/-- The prefix relation at one position of a text. -/
def OccursAt (pattern text : List α) (position : Nat) : Prop :=
  pattern <+: text.drop position

theorem occursAt_append {pattern front back : List α} {position : Nat}
    (hinside : position + pattern.length ≤ front.length) :
    OccursAt pattern (front ++ back) position ↔
      OccursAt pattern front position := by
  unfold OccursAt
  rw [List.drop_append_of_le_length (by omega)]
  constructor
  · intro h
    exact List.prefix_of_prefix_length_le h (List.prefix_append _ _)
      (by rw [List.length_drop]; omega)
  · intro h
    exact h.trans (List.prefix_append _ _)

theorem OccursAt.before_separator
    {pattern front separator back : List α} {position : Nat}
    (hpattern : pattern ≠ []) (hseparator : separator ≠ [])
    (hdisjoint : ∀ c ∈ separator, c ∉ pattern)
    (hoccurs : OccursAt pattern (front ++ separator ++ back) position)
    (hposition : position < front.length + separator.length) :
    position + pattern.length ≤ front.length := by
  by_contra hover
  have hpositive : 0 < pattern.length := List.length_pos_iff.mpr hpattern
  have hwidth : 0 < separator.length := List.length_pos_iff.mpr hseparator
  -- The first element of the separator that the occurrence covers.
  let covered := max position front.length
  have hinPattern : covered - position < pattern.length := by omega
  have hinSeparator : covered - front.length < separator.length := by omega
  have hsame : pattern[covered - position] =
      separator[covered - front.length] := by
    rw [List.IsPrefix.getElem hoccurs hinPattern, List.getElem_drop,
      List.getElem_append_left (by rw [List.length_append]; omega),
      List.getElem_append_right (by omega)]
    congr 1
    omega
  exact hdisjoint _ (List.getElem_mem hinSeparator)
    (hsame ▸ List.getElem_mem hinPattern)

end Occurrence

section Search

variable {α : Type} [DecidableEq α]

/-- The first position at which `pattern` occurs. -/
def search? (pattern : List α) : List α → Option Nat
  | [] => if pattern.isPrefixOf [] then some 0 else none
  | c :: text =>
      if pattern.isPrefixOf (c :: text) then some 0
      else (search? pattern text).map (· + 1)

/-- The first position from `start` on at which `pattern` occurs. -/
def searchFrom? (pattern text : List α) (start : Nat) : Option Nat :=
  if start ≤ text.length then
    (search? pattern (text.drop start)).map (· + start)
  else none

theorem search?_cons_of_starts {pattern text : List α} {c : α}
    (h : pattern <+: c :: text) : search? pattern (c :: text) = some 0 := by
  simp [search?, h]

theorem search?_cons_of_not_starts {pattern text : List α} {c : α}
    (h : ¬ pattern <+: c :: text) :
    search? pattern (c :: text) = (search? pattern text).map (· + 1) := by
  simp [search?, h]

theorem search?_eq_some_iff {pattern text : List α} {position : Nat} :
    search? pattern text = some position ↔
      position ≤ text.length ∧ OccursAt pattern text position ∧
        ∀ earlier < position, ¬ OccursAt pattern text earlier := by
  induction text generalizing position with
  | nil =>
      simp only [search?, List.isPrefixOf_iff_prefix, List.prefix_nil]
      split
      · rename_i hnil
        subst hnil
        simp only [Option.some.injEq, List.length_nil, Nat.le_zero]
        constructor
        · rintro rfl
          exact ⟨rfl, List.nil_prefix, fun _ h => absurd h (by omega)⟩
        · rintro ⟨rfl, -, -⟩
          rfl
      · rename_i hne
        simp only [reduceCtorEq, false_iff, not_and]
        intro hzero hat
        simp only [OccursAt, List.drop_nil, List.prefix_nil] at hat
        exact absurd hat hne
  | cons c text ih =>
      by_cases hstarts : pattern <+: c :: text
      · rw [search?_cons_of_starts hstarts]
        simp only [Option.some.injEq]
        constructor
        · rintro rfl
          exact ⟨Nat.zero_le _, hstarts, fun _ h => absurd h (by omega)⟩
        · rintro ⟨-, -, hfirst⟩
          by_contra hne
          exact hfirst 0 (by omega) hstarts
      · rw [search?_cons_of_not_starts hstarts]
        simp only [Option.map_eq_some_iff]
        constructor
        · rintro ⟨tailPosition, htail, rfl⟩
          obtain ⟨hle, hat, hfirst⟩ := ih.mp htail
          refine ⟨by simpa using hle, hat, ?_⟩
          intro earlier hearlier
          cases earlier with
          | zero => exact hstarts
          | succ earlier => exact hfirst earlier (by omega)
        · rintro ⟨hle, hat, hfirst⟩
          cases position with
          | zero => exact absurd hat hstarts
          | succ position =>
              refine ⟨position, ih.mpr ⟨by simpa using hle, hat, ?_⟩, rfl⟩
              intro earlier hearlier
              exact hfirst (earlier + 1) (by omega)

theorem search?_eq_none_iff {pattern text : List α} :
    search? pattern text = none ↔ ¬ pattern <:+: text := by
  induction text with
  | nil => simp [search?, List.prefix_nil, List.infix_nil]
  | cons c text ih =>
      by_cases hstarts : pattern <+: c :: text
      · rw [search?_cons_of_starts hstarts]
        simpa using hstarts.isInfix
      · rw [search?_cons_of_not_starts hstarts, List.infix_cons_iff]
        simp [hstarts, ih]

theorem search?_isSome_iff {pattern text : List α} :
    (search? pattern text).isSome = true ↔ pattern <:+: text := by
  rw [← not_iff_not, ← search?_eq_none_iff]
  simp

theorem search?_occursAt {pattern text : List α} {position : Nat}
    (h : search? pattern text = some position) :
    OccursAt pattern text position :=
  (search?_eq_some_iff.mp h).2.1

theorem search?_le_length {pattern text : List α} {position : Nat}
    (h : search? pattern text = some position) : position ≤ text.length :=
  (search?_eq_some_iff.mp h).1

theorem search?_add_length_le {pattern text : List α} {position : Nat}
    (h : search? pattern text = some position) :
    position + pattern.length ≤ text.length := by
  have hle := search?_le_length h
  have hlength := (search?_occursAt h).length_le
  rw [List.length_drop] at hlength
  omega

theorem search?_split {pattern text : List α} {position : Nat}
    (h : search? pattern text = some position) :
    text = text.take position ++ pattern ++
      text.drop (position + pattern.length) := by
  obtain ⟨rest, hrest⟩ := search?_occursAt h
  have hdrop : text.drop (position + pattern.length) = rest := by
    rw [← List.drop_drop, ← hrest, List.drop_left]
  rw [hdrop, List.append_assoc, hrest, List.take_append_drop]

theorem search?_append_of_some {pattern front back : List α} {position : Nat}
    (h : search? pattern front = some position) :
    search? pattern (front ++ back) = some position := by
  have hinside := search?_add_length_le h
  obtain ⟨hle, hat, hfirst⟩ := search?_eq_some_iff.mp h
  refine search?_eq_some_iff.mpr ⟨?_, ?_, ?_⟩
  · rw [List.length_append]
    omega
  · exact (occursAt_append hinside).mpr hat
  · intro earlier hearlier hoccurs
    exact hfirst earlier hearlier
      ((occursAt_append (by omega)).mp hoccurs)

theorem search?_append_pattern {pattern front : List α} (back : List α)
    (hfirst : ∀ earlier < front.length,
      ¬OccursAt pattern (front ++ pattern) earlier) :
    search? pattern (front ++ pattern ++ back) = some front.length := by
  refine search?_append_of_some
    (search?_eq_some_iff.mpr ⟨by simp, ?_, hfirst⟩)
  rw [OccursAt, List.drop_left]

theorem search?_cons_first {c : α} {pattern front back : List α}
    (h : c ∉ front) :
    search? (c :: pattern) (front ++ (c :: pattern) ++ back) =
      some front.length := by
  induction front with
  | nil => exact search?_cons_of_starts (by simp)
  | cons x front ih =>
      obtain ⟨hne, hrest⟩ := not_or.mp (List.mem_cons.not.mp h)
      have hfound := ih hrest
      rw [List.cons_append, List.cons_append,
        search?_cons_of_not_starts (by simp [hne]), hfound]
      simp

theorem search?_first {c : α} {front back : List α} (h : c ∉ front) :
    search? [c] (front ++ c :: back) = some front.length := by
  have hfound := @search?_cons_first α _ c [] front back h
  rwa [List.append_assoc] at hfound

theorem search?_after_separator {pattern front separator back : List α}
    (hpattern : pattern ≠ []) (hseparator : separator ≠ [])
    (hdisjoint : ∀ c ∈ separator, c ∉ pattern)
    (habsent : ¬ pattern <:+: front) :
    search? pattern (front ++ separator ++ pattern ++ back) =
      some (front.length + separator.length) := by
  refine search?_eq_some_iff.mpr ⟨by simp, ?_, ?_⟩
  · unfold OccursAt
    rw [List.append_assoc, ← List.length_append, List.drop_left]
    exact List.prefix_append _ _
  · intro earlier hearlier hoccurs
    rw [List.append_assoc _ pattern] at hoccurs
    have hinside := hoccurs.before_separator hpattern hseparator hdisjoint hearlier
    rw [List.append_assoc] at hoccurs
    exact habsent (((occursAt_append hinside).mp hoccurs).isInfix.trans
      (List.drop_suffix _ _).isInfix)

theorem infix_append_separator_iff {pattern front separator back : List α}
    (hpattern : pattern ≠ []) (hseparator : separator ≠ [])
    (hdisjoint : ∀ c ∈ separator, c ∉ pattern) :
    pattern <:+: front ++ separator ++ back ↔
      pattern <:+: front ∨ pattern <:+: back := by
  constructor
  · intro h
    obtain ⟨position, hsome⟩ := Option.isSome_iff_exists.mp
      (search?_isSome_iff.mpr h)
    have hoccurs := search?_occursAt hsome
    by_cases hposition : position < front.length + separator.length
    · have hinside := hoccurs.before_separator hpattern hseparator hdisjoint hposition
      rw [List.append_assoc] at hoccurs
      exact .inl (((occursAt_append hinside).mp hoccurs).isInfix.trans
        (List.drop_suffix _ _).isInfix)
    · right
      have hdrop : (front ++ separator ++ back).drop position =
          back.drop (position - (front ++ separator).length) := by
        rw [List.drop_append, List.drop_eq_nil_of_le (by simp; omega),
          List.nil_append]
      unfold OccursAt at hoccurs
      rw [hdrop] at hoccurs
      exact hoccurs.isInfix.trans (List.drop_suffix _ _).isInfix
  · rintro (h | h)
    · exact h.trans ⟨[], separator ++ back, by simp⟩
    · exact h.trans ⟨front ++ separator, [], by simp⟩

end Search

end Webserv.Cxx
