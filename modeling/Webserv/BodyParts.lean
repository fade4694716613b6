import Webserv.Decoding

namespace Webserv

open Cxx

/-! Multipart bodies whose parts have header lines of any kind, in any order,
and how a part's first lines read when a buffer ends in them. -/

def dispositionField : Str := "Content-Disposition:".toList

def filenameKey : Str := "filename=\"".toList

/-- A header line that gives a part's file name. -/
structure NamesFile (line name : Str) : Prop where
  noQuote : '"' ∉ name
  noNul : '\x00' ∉ name
  spelled : ∃ before after, line = dispositionField ++ before ++ filenameKey ++
      (name ++ '"' :: after) ∧
    ∀ earlier < (dispositionField ++ before).length,
      ¬OccursAt filenameKey (dispositionField ++ before ++ filenameKey) earlier

structure BodyPart where
  headers : List Str
  content : Str
  deriving DecidableEq, Repr

namespace BodyPart

def text (part : BodyPart) : Str :=
  (part.headers.map (· ++ endOfLine)).flatten ++ endOfLine ++ part.content

/-- A part that carries a file name, in whichever of its header lines. -/
def Carries (part : BodyPart) (name : Str) : Prop :=
  ∃ line ∈ part.headers, NamesFile line name

def Named (part : BodyPart) : Prop := ∃ name, part.Carries name

/-- The first header line gives every file name that the part carries. -/
def NamesFirst (part : BodyPart) : Prop :=
  ∀ name, part.Carries name → ∃ line, part.headers.head? = some line ∧
    NamesFile line name

/-- Lines are lines, and the text does not look like the end of the part. -/
structure Plain (boundary : Str) (part : BodyPart) : Prop where
  noBreak : ∀ header ∈ part.headers, '\n' ∉ header
  noDelimiter : ¬delimiter boundary <:+: part.text

theorem NamesFirst.length_le {part : BodyPart} (h : part.NamesFirst)
    (hnamed : part.Named) : dispositionField.length ≤ part.text.length := by
  obtain ⟨name, hcarries⟩ := hnamed
  obtain ⟨line, hhead, hnames⟩ := h name hcarries
  obtain ⟨before, after, hspelled, -⟩ := hnames.spelled
  have hline : line ∈ part.headers := List.mem_of_mem_head? hhead
  obtain ⟨front, back, hheaders⟩ := List.append_of_mem hline
  rw [text, hheaders, hspelled]
  simp only [List.map_append, List.map_cons, List.flatten_append,
    List.flatten_cons, List.length_append]
  omega

end BodyPart

/-- What follows a delimiter: the closing hyphens, or the parts and the
delimiters behind them. -/
def following (boundary : Str) : List BodyPart → Str
  | [] => "--".toList ++ endOfLine
  | part :: rest =>
      endOfLine ++ (part.text ++ endOfLine ++ delimiter boundary ++
        following boundary rest)

def encodeParts (boundary : Str) (parts : List BodyPart) : Str :=
  delimiter boundary ++ following boundary parts

/-- How much of the text behind a delimiter must be in one buffer with it for
the file name behind it to be seen. -/
def opening : Nat := endOfLine.length + dispositionField.length

/-- A buffer that ends with so much of the body left does not end in the
delimiter in front of a part with a file name, nor before the first line of
the part can be told. -/
def ClearFrom (boundary : Str) (parts : List BodyPart) (left : Nat) : Prop :=
  ∀ rest, rest <:+ parts → ∀ part ∈ rest.head?, part.Named →
    (delimiter boundary ++ following boundary rest).length ≤ left ∨
      left + opening ≤ (following boundary rest).length

/-- The same for a whole body: the delimiter in front of it is kept until its
line is complete. -/
structure EndsClear (boundary : Str) (parts : List BodyPart) (left : Nat) :
    Prop where
  first : ∀ part ∈ parts.head?, part.Named →
    (following boundary parts).length < left + endOfLine.length ∨
      left + opening ≤ (following boundary parts).length
  later : ClearFrom boundary parts.tail left

theorem ClearFrom.tail {boundary : Str} {part : BodyPart}
    {parts : List BodyPart} {left : Nat}
    (h : ClearFrom boundary (part :: parts) left) :
    ClearFrom boundary parts left :=
  fun rest hrest => h rest (hrest.trans (List.suffix_cons part parts))

/-! The first line of a part, as far as a buffer holds it. -/

theorem takeWhile_prefix_takeWhile {buffer whole : Str} (p : Char → Bool)
    (h : buffer <+: whole) : buffer.takeWhile p <+: whole.takeWhile p := by
  obtain ⟨rest, rfl⟩ := h
  rw [List.takeWhile_append]
  split
  · exact (List.takeWhile_prefix p).trans (List.prefix_append _ _)
  · exact List.prefix_refl _

theorem lineHead_cut {front after line name : Str} (hquote : '"' ∉ name)
    (hfirst : ∀ earlier < front.length,
      ¬OccursAt filenameKey (front ++ filenameKey) earlier)
    (hline : line <+: front ++ filenameKey ++ (name ++ '"' :: after)) :
    search? filenameKey line = none ∨
      ∃ rest, line = front ++ filenameKey ++ rest ∧
        search? filenameKey line = some front.length ∧
        (search? ['"'] rest = none ∨
          (search? ['"'] rest = some name.length ∧
            rest.take name.length = name)) := by
  rcases List.prefix_or_prefix_of_prefix hline (List.prefix_append
    (front ++ filenameKey) (name ++ '"' :: after)) with hinside | hbehind
  · -- the key is not complete, or stands at the end
    by_cases hwhole : front ++ filenameKey <+: line
    · obtain rfl := hinside.eq_of_length_le hwhole.length_le
      refine .inr ⟨[], by simp, ?_, .inl rfl⟩
      have hfound := search?_append_pattern [] hfirst
      rwa [List.append_nil] at hfound
    · left
      rw [search?_eq_none_iff]
      rintro ⟨left, right, hoccurs⟩
      have hlengths := congrArg List.length hoccurs
      simp only [List.length_append] at hlengths
      have hshorter : line.length < (front ++ filenameKey).length := by
        refine lt_of_le_of_ne hinside.length_le fun heq => hwhole ?_
        rw [hinside.eq_of_length heq]
      rw [List.length_append] at hshorter
      refine hfirst left.length (by omega) ?_
      obtain ⟨rest, hrest⟩ := hinside
      rw [← hrest, ← hoccurs, OccursAt, List.append_assoc, List.append_assoc,
        List.drop_left]
      exact List.prefix_append _ _
  · right
    obtain ⟨rest, rfl⟩ := hbehind
    refine ⟨rest, rfl, search?_append_pattern rest hfirst, ?_⟩
    have hrest : rest <+: name ++ '"' :: after :=
      (List.prefix_append_right_inj _).mp hline
    rcases List.prefix_or_prefix_of_prefix hrest
      (List.prefix_append name ('"' :: after)) with hname | hname
    · left
      rw [search?_eq_none_iff]
      intro hmem
      exact hquote (hname.subset (hmem.subset (by simp)))
    · obtain ⟨tail, rfl⟩ := hname
      have htail : tail <+: '"' :: after :=
        (List.prefix_append_right_inj _).mp hrest
      rcases List.prefix_cons_iff.mp htail with rfl | ⟨tail, rfl, -⟩
      · left
        rw [List.append_nil, search?_eq_none_iff]
        intro hmem
        exact hquote (hmem.subset (by simp))
      · exact .inr ⟨search?_first hquote, List.take_left⟩

/-- The file name is looked for in a line that says where it belongs. -/
theorem partHead_disposition {buffer : Str}
    (h : (search? dispositionField
      (buffer.takeWhile (· ≠ '\n'))).isSome = true) :
    partHead buffer =
      match search? filenameKey (buffer.takeWhile (· ≠ '\n')) with
      | none => .ok .unnamed
      | some start =>
          match searchFrom? ['"'] (buffer.takeWhile (· ≠ '\n'))
            (start + 10) with
          | none => .ok .unterminated
          | some stop => do
              let filename ← substr (buffer.takeWhile (· ≠ '\n'))
                (start + 10) (stop - (start + 10))
              return .named filename := by
  unfold partHead
  rw [getlines_headD]
  refine (if_pos h).trans ?_
  cases hname : search? filenameKey (buffer.takeWhile (· ≠ '\n')) with
  | none =>
      unfold filenameKey at hname
      rw [hname]
  | some start =>
      unfold filenameKey at hname
      rw [hname]
      rfl

theorem partHead_cut {line name buffer more : Str} (hline : '\n' ∉ line)
    (hnames : NamesFile line name)
    (hbuffer : buffer <+: line ++ '\r' :: '\n' :: more)
    (hfield : dispositionField.length ≤ buffer.length) :
    partHead buffer = .ok (.named name) ∨ partHead buffer = .ok .unnamed ∨
      partHead buffer = .ok .unterminated := by
  obtain ⟨before, after, hspelled, hfirst⟩ := hnames.spelled
  have hstart : dispositionField <+: buffer := by
    refine List.prefix_of_prefix_length_le ?_ hbuffer hfield
    rw [hspelled]
    simp only [List.append_assoc]
    exact List.prefix_append _ _
  have hread : buffer.takeWhile (· ≠ '\n') <+: line ++ ['\r'] := by
    have hwhole := takeWhile_prefix_takeWhile (· ≠ '\n') hbuffer
    rw [List.takeWhile_append_of_pos fun c hc => by
      simpa using ne_of_mem_of_not_mem hc hline] at hwhole
    exact hwhole
  have hdisposition : (search? dispositionField
      (buffer.takeWhile (· ≠ '\n'))).isSome = true := by
    obtain ⟨rest, rfl⟩ := hstart
    have hfixed : ∀ c ∈ dispositionField,
        decide (c ≠ '\n') = true := by decide
    rw [List.takeWhile_append_of_pos hfixed]
    exact search?_isSome_iff.mpr (List.prefix_append _ _).isInfix
  have hkey : filenameKey.length = 10 := by decide
  have hcut := @lineHead_cut (dispositionField ++ before) (after ++ ['\r'])
    (buffer.takeWhile (· ≠ '\n')) name hnames.noQuote hfirst
    (by rw [hspelled] at hread; simpa using hread)
  rw [partHead_disposition hdisposition]
  generalize buffer.takeWhile (· ≠ '\n') = read at *
  rcases hcut with hnone | ⟨rest, rfl, hfound, hquote⟩
  · rw [hnone]
    exact .inr (.inl rfl)
  · have hdrop : (dispositionField ++ before ++ filenameKey ++ rest).drop
        ((dispositionField ++ before).length + 10) = rest := by
      rw [← hkey, ← List.length_append, List.drop_left]
    have hbound : (dispositionField ++ before).length + 10 ≤
        (dispositionField ++ before ++ filenameKey ++ rest).length := by
      simp only [List.length_append, hkey]
      omega
    rw [hfound]
    simp only
    rw [searchFrom?, if_pos hbound, hdrop]
    rcases hquote with hnone | ⟨hsome, htake⟩
    · rw [hnone]
      exact .inr (.inr rfl)
    · left
      rw [hsome]
      simp only [Option.map_some]
      rw [substr_ok hbound, hdrop, Nat.add_sub_cancel, htake]
      rfl

end Webserv
