import Webserv.Coding.Chunks

namespace Webserv.Coding

open Cxx

/-! Lines that end with a carriage return and a line break. -/

def blankLine : Str := crlf ++ crlf

def joinCrlf (lines : List Str) : Str := (lines.map (· ++ crlf)).flatten

@[simp] theorem joinCrlf_nil : joinCrlf [] = [] := rfl

@[simp] theorem joinCrlf_cons (line : Str) (rest : List Str) :
    joinCrlf (line :: rest) = line ++ crlf ++ joinCrlf rest := by
  simp [joinCrlf]

/-- A line that no reader takes for a blank one. -/
structure Solid (line : Str) : Prop where
  noBreak : '\n' ∉ line
  ne_nil : line ≠ []
  noReturn : line.head? ≠ some '\r'

theorem Solid.cons {line : Str} (h : Solid line) :
    ∃ c rest, line = c :: rest ∧ c ≠ '\r' := by
  obtain ⟨c, rest, rfl⟩ := List.exists_cons_of_ne_nil h.ne_nil
  exact ⟨c, rest, rfl, fun heq => h.noReturn (by rw [heq]; rfl)⟩

theorem search_blankLine_skip {line rest : Str} (hline : '\n' ∉ line)
    (hrest : ¬crlf <+: rest) :
    search? blankLine (line ++ crlf ++ rest) =
      (search? blankLine rest).map (· + (line.length + 2)) := by
  induction line with
  | nil =>
      have hreturn : ¬blankLine <+: '\r' :: '\n' :: rest := by
        intro h
        exact hrest ((List.prefix_append_right_inj crlf).mp h)
      have hbreak : ¬blankLine <+: '\n' :: rest := by
        intro h
        exact absurd (List.cons_prefix_cons.mp h).1 (by decide)
      change search? blankLine ('\r' :: '\n' :: rest) = _
      rw [search?_cons_of_not_starts hreturn,
        search?_cons_of_not_starts hbreak, Option.map_map]
      rfl
  | cons c line ih =>
      obtain ⟨-, hline⟩ := not_or.mp (List.mem_cons.not.mp hline)
      have hstarts : ¬blankLine <+: c :: (line ++ crlf ++ rest) := by
        intro h
        obtain ⟨-, hnext⟩ := List.cons_prefix_cons.mp h
        cases line with
        | nil => exact absurd (List.cons_prefix_cons.mp hnext).1 (by decide)
        | cons d line =>
            obtain ⟨rfl, -⟩ := List.cons_prefix_cons.mp hnext
            exact hline List.mem_cons_self
      rw [List.cons_append, List.cons_append,
        search?_cons_of_not_starts hstarts, ih hline, Option.map_map]
      rfl

theorem search_blankLine_end {line : Str} (hline : '\n' ∉ line) :
    search? blankLine (line ++ crlf ++ crlf) = some line.length := by
  induction line with
  | nil => exact search?_cons_of_starts (List.prefix_refl _)
  | cons c line ih =>
      obtain ⟨-, hline⟩ := not_or.mp (List.mem_cons.not.mp hline)
      have hstarts : ¬blankLine <+: c :: (line ++ crlf ++ crlf) := by
        intro h
        obtain ⟨-, hnext⟩ := List.cons_prefix_cons.mp h
        cases line with
        | nil => exact absurd (List.cons_prefix_cons.mp hnext).1 (by decide)
        | cons d line =>
            obtain ⟨rfl, -⟩ := List.cons_prefix_cons.mp hnext
            exact hline List.mem_cons_self
      rw [List.cons_append, List.cons_append,
        search?_cons_of_not_starts hstarts, ih hline]
      rfl

theorem search_blankLine {first : Str} {lines : List Str}
    (hfirst : '\n' ∉ first) (h : ∀ line ∈ lines, Solid line) :
    ∃ position, search? blankLine (joinCrlf (first :: lines) ++ crlf) =
        some position ∧
      (joinCrlf (first :: lines) ++ crlf).length = position + 4 := by
  induction lines generalizing first with
  | nil =>
      refine ⟨first.length, ?_, ?_⟩
      · simpa using search_blankLine_end hfirst
      · simp [crlf]
  | cons next lines ih =>
      have hnext := h next List.mem_cons_self
      obtain ⟨position, hfound, hlength⟩ := ih hnext.noBreak fun line hline =>
        h line (List.mem_cons_of_mem _ hline)
      have hstarts : ¬crlf <+: joinCrlf (next :: lines) ++ crlf := by
        obtain ⟨c, rest, rfl, hc⟩ := hnext.cons
        intro hcrlf
        have hcons : '\r' :: ['\n'] <+: c :: (rest ++ crlf ++
            joinCrlf lines ++ crlf) := by
          simpa [crlf] using hcrlf
        exact hc (List.cons_prefix_cons.mp hcons).1.symm
      have hsplit : joinCrlf (first :: next :: lines) ++ crlf =
          first ++ crlf ++ (joinCrlf (next :: lines) ++ crlf) := by
        simp
      rw [hsplit, search_blankLine_skip hfirst hstarts, hfound]
      refine ⟨position + (first.length + 2), rfl, ?_⟩
      simp only [List.length_append] at hlength ⊢
      simp only [show crlf.length = 2 from rfl] at hlength ⊢
      omega

/-- What has been received of some lines is a number of whole lines and a
part of the next one. -/
theorem joinCrlf_prefix_cases {lines : List Str} {received : Str}
    (h : received <+: joinCrlf lines) :
    ∃ front back part, lines = front ++ back ∧
      received = joinCrlf front ++ part ∧
      (part = [] ∨
        ∃ next more, back = next :: more ∧ part <+: next ++ ['\r']) := by
  induction lines generalizing received with
  | nil => exact ⟨[], [], [], rfl, List.prefix_nil.mp h, .inl rfl⟩
  | cons line lines ih =>
      rw [joinCrlf_cons] at h
      by_cases hlength : (line ++ crlf).length ≤ received.length
      · obtain ⟨rest, rfl⟩ : line ++ crlf <+: received :=
          List.prefix_of_prefix_length_le (List.prefix_append _ _) h hlength
        obtain ⟨front, back, part, hlines, hrest, hpart⟩ :=
          ih ((List.prefix_append_right_inj _).mp h)
        refine ⟨line :: front, back, part, ?_, ?_, hpart⟩
        · rw [hlines, List.cons_append]
        · simp only [hrest, joinCrlf_cons, List.append_assoc]
      · refine ⟨[], line :: lines, received, rfl, rfl,
          .inr ⟨line, lines, rfl, ?_⟩⟩
        have hshort : received <+: (line ++ ['\r']) ++ ('\n' ::
            joinCrlf lines) := by
          simpa [crlf] using h
        refine List.prefix_of_prefix_length_le hshort
          (List.prefix_append _ _) ?_
        simp only [List.length_append, show crlf.length = 2 from rfl,
          List.length_cons, List.length_nil] at hlength ⊢
        omega

theorem getlines_joinCrlf {lines : List Str} (rest : Str)
    (h : ∀ line ∈ lines, '\n' ∉ line) :
    getlines (joinCrlf lines ++ rest) =
      lines.map (· ++ ['\r']) ++ getlines rest := by
  induction lines with
  | nil => rfl
  | cons line lines ih =>
      have hline : '\n' ∉ line ++ ['\r'] := by
        simp [h line List.mem_cons_self]
      have hsplit : joinCrlf (line :: lines) ++ rest =
          (line ++ ['\r']) ++ '\n' :: (joinCrlf lines ++ rest) := by
        simp [crlf]
      rw [hsplit, getlines_line_append hline,
        ih fun other hother => h other (List.mem_cons_of_mem _ hother)]
      rfl

/-- A beginning of lines is read as whole lines and at most one cut line. -/
theorem getlines_cut {lines : List Str} {received : Str}
    (h : received <+: joinCrlf lines) (hlines : ∀ line ∈ lines, '\n' ∉ line) :
    ∃ front back last, lines = front ++ back ∧
      getlines received = front.map (· ++ ['\r']) ++ last ∧
      (last = [] ∨ ∃ part next more, last = [part] ∧ part ≠ [] ∧
        back = next :: more ∧ part <+: next ++ ['\r']) := by
  obtain ⟨front, back, part, rfl, rfl, hpart⟩ := joinCrlf_prefix_cases h
  have hfront := fun line hline => hlines line (List.mem_append_left back hline)
  rw [getlines_joinCrlf part hfront]
  by_cases hnil : part = []
  · subst hnil
    exact ⟨front, back, [], rfl, rfl, .inl rfl⟩
  · obtain ⟨next, more, rfl, hnext⟩ := hpart.resolve_left hnil
    have hbreak : '\n' ∉ part := by
      intro hmem
      have hwhole := hnext.subset hmem
      have hline := hlines next (by simp)
      simp [hline] at hwhole
    refine ⟨front, next :: more, [part], rfl, ?_, ?_⟩
    · rw [getlines_single hbreak hnil]
    · exact .inr ⟨part, next, more, rfl, hnil, rfl, hnext⟩

end Webserv.Coding
