import Webserv.Cxx.Text

namespace Webserv.Coding

open Cxx

/-! The chunked transfer coding, and what a beginning of it may look like. -/

def crlf : Str := "\r\n".toList

def hexDigit (c : Char) : Option Nat :=
  if '0' ≤ c ∧ c ≤ '9' then some (c.toNat - '0'.toNat)
  else if 'a' ≤ c ∧ c ≤ 'f' then some (c.toNat - 'a'.toNat + 10)
  else if 'A' ≤ c ∧ c ≤ 'F' then some (c.toNat - 'A'.toNat + 10)
  else none

def hexValue (digits : Str) : Nat :=
  digits.foldl (fun value c => value * 16 + (hexDigit c).getD 0) 0

structure Chunk where
  size : Str
  data : Str
  deriving DecidableEq, Repr

namespace Chunk

def head (chunk : Chunk) : Str := chunk.size ++ crlf

def text (chunk : Chunk) : Str := chunk.head ++ chunk.data ++ crlf

/-- The size line tells the length of the data. -/
structure Sized (chunk : Chunk) : Prop where
  digits : ∀ c ∈ chunk.size, (hexDigit c).isSome = true
  value : hexValue chunk.size = chunk.data.length

def last : Chunk := ⟨"0".toList, []⟩

theorem Sized.noReturn {chunk : Chunk} (h : chunk.Sized) :
    '\r' ∉ chunk.size := by
  intro hmem
  have hdigit := h.digits '\r' hmem
  revert hdigit
  decide

theorem Sized.noBreak {chunk : Chunk} (h : chunk.Sized) :
    '\n' ∉ chunk.size := by
  intro hmem
  have hdigit := h.digits '\n' hmem
  revert hdigit
  decide

end Chunk

def texts (chunks : List Chunk) : Str := (chunks.map Chunk.text).flatten

def content (chunks : List Chunk) : Str := (chunks.map Chunk.data).flatten

def encodeChunks (chunks : List Chunk) : Str := texts (chunks ++ [.last])

@[simp] theorem texts_nil : texts [] = [] := rfl

@[simp] theorem texts_cons (chunk : Chunk) (rest : List Chunk) :
    texts (chunk :: rest) = chunk.text ++ texts rest := rfl

@[simp] theorem texts_append (front back : List Chunk) :
    texts (front ++ back) = texts front ++ texts back := by
  simp [texts]

@[simp] theorem content_nil : content [] = [] := rfl

@[simp] theorem content_cons (chunk : Chunk) (rest : List Chunk) :
    content (chunk :: rest) = chunk.data ++ content rest := rfl

@[simp] theorem content_append (front back : List Chunk) :
    content (front ++ back) = content front ++ content back := by
  simp [content]

/-- The data of a chunk is there to its end, the line break behind it not. -/
def Halfway (chunks : List Chunk) (received : Str) : Prop :=
  ∃ front chunk back rest, chunks = front ++ chunk :: back ∧
    rest <+: crlf ∧ rest ≠ crlf ∧
    received = texts front ++ (chunk.head ++ chunk.data ++ rest)

/-- Some of a chunk's data, or of its size line, is missing. -/
def Short (chunk : Chunk) (rest : Str) : Prop :=
  rest <+: chunk.head ++ chunk.data ∧ rest ≠ chunk.head ++ chunk.data

theorem Short.cases {chunk : Chunk} {rest : Str} (h : Short chunk rest) :
    rest <+: chunk.size ++ ['\r'] ∨
      ∃ data, rest = chunk.head ++ data ∧
        data.length < chunk.data.length := by
  have hhead : chunk.head = (chunk.size ++ ['\r']) ++ ['\n'] := by
    simp [Chunk.head, crlf]
  have hbehind : ∀ data, rest = chunk.head ++ data →
      data.length < chunk.data.length := by
    rintro data rfl
    have hdata : data <+: chunk.data :=
      (List.prefix_append_right_inj _).mp h.1
    refine lt_of_le_of_ne hdata.length_le fun heq => h.2 ?_
    rw [hdata.eq_of_length heq]
  cases List.prefix_or_prefix_of_prefix h.1
    (List.prefix_append chunk.head chunk.data) with
  | inl hinside =>
      rw [hhead] at hinside
      cases List.prefix_concat_iff.mp hinside with
      | inl hline =>
          right
          refine ⟨[], by rw [hline, hhead, List.append_nil], ?_⟩
          exact hbehind [] (by rw [hline, hhead, List.append_nil])
      | inr hline => exact .inl hline
  | inr hline =>
      obtain ⟨data, rfl⟩ := hline
      exact .inr ⟨data, rfl, hbehind data rfl⟩

theorem text_prefix_cases {chunk : Chunk} {received : Str}
    (h : received <+: chunk.text) (hne : received ≠ chunk.text) :
    Short chunk received ∨ ∃ rest, rest <+: crlf ∧ rest ≠ crlf ∧
      received = chunk.head ++ chunk.data ++ rest := by
  have hdata : chunk.head ++ chunk.data <+: chunk.text :=
    List.prefix_append _ _
  by_cases hshort : Short chunk received
  · exact .inl hshort
  · right
    have hall : chunk.head ++ chunk.data <+: received := by
      cases List.prefix_or_prefix_of_prefix h hdata with
      | inl hbefore =>
          have heq : received = chunk.head ++ chunk.data := by
            by_contra hdiffers
            exact hshort ⟨hbefore, hdiffers⟩
          rw [heq]
      | inr hbehind => exact hbehind
    obtain ⟨rest, rfl⟩ := hall
    refine ⟨rest, ?_, ?_, rfl⟩
    · exact (List.prefix_append_right_inj _).mp h
    · rintro rfl
      exact hne rfl

/-- A beginning of an encoding ends with a chunk, halfway behind the data of
one, or before. -/
theorem texts_prefix_cases {chunks : List Chunk} {received : Str}
    (h : received <+: texts chunks) :
    received = texts chunks ∨ Halfway chunks received ∨
      ∃ front chunk back rest, chunks = front ++ chunk :: back ∧
        Short chunk rest ∧ received = texts front ++ rest := by
  induction chunks generalizing received with
  | nil => exact .inl (List.prefix_nil.mp h)
  | cons chunk chunks ih =>
      cases List.prefix_or_prefix_of_prefix h
        (List.prefix_append chunk.text (texts chunks)) with
      | inl hinside =>
          by_cases hwhole : received = chunk.text
          · subst hwhole
            cases chunks with
            | nil => exact .inl (by simp)
            | cons next back =>
                right; right
                refine ⟨[chunk], next, back, [], rfl, ?_, by simp⟩
                refine ⟨List.nil_prefix, ?_⟩
                simp [Chunk.head, crlf]
          · cases text_prefix_cases hinside hwhole with
            | inl hshort =>
                exact .inr (.inr ⟨[], chunk, chunks, received, rfl, hshort,
                  rfl⟩)
            | inr hhalf =>
                obtain ⟨rest, hstarts, hne, rfl⟩ := hhalf
                exact .inr (.inl ⟨[], chunk, chunks, rest, rfl, hstarts, hne,
                  rfl⟩)
      | inr hbehind =>
          obtain ⟨later, rfl⟩ := hbehind
          rw [texts_cons] at h
          rcases ih ((List.prefix_append_right_inj _).mp h) with
            rfl | ⟨front, next, back, rest, rfl, hstarts, hne, rfl⟩ |
            ⟨front, next, back, rest, rfl, hshort, rfl⟩
          · exact .inl rfl
          · exact .inr (.inl ⟨chunk :: front, next, back, rest, rfl, hstarts,
              hne, by simp⟩)
          · exact .inr (.inr ⟨chunk :: front, next, back, rest, rfl, hshort,
              by simp⟩)

theorem halfway_append_iff {front : List Chunk} {chunk : Chunk}
    {back : List Chunk} {received : Str} :
    Halfway (front ++ chunk :: back) (texts front ++ received) ↔
      Halfway (chunk :: back) received := by
  constructor
  · rintro ⟨done, half, later, rest, hchunks, hstarts, hne, htext⟩
    rcases List.append_eq_append_iff.mp hchunks with
      ⟨between, rfl, hback⟩ | ⟨between, rfl, hback⟩
    · refine ⟨between, half, later, rest, hback, hstarts, hne, ?_⟩
      rw [texts_append, List.append_assoc] at htext
      exact List.append_cancel_left htext
    · cases between with
      | nil =>
          refine ⟨[], half, later, rest, ?_, hstarts, hne, ?_⟩
          · simpa using hback.symm
          · rw [List.append_nil] at htext
            exact List.append_cancel_left htext
      | cons next between =>
          -- the chunk that is halfway would be done
          obtain ⟨rfl, -⟩ := List.cons.inj hback
          have hlength := congrArg List.length htext
          have hshorter : rest.length < crlf.length :=
            lt_of_le_of_ne hstarts.length_le fun heq =>
              hne (hstarts.eq_of_length heq)
          simp only [texts_append, texts_cons, Chunk.text,
            List.length_append] at hlength
          omega
  · rintro ⟨done, half, later, rest, hchunks, hstarts, hne, rfl⟩
    exact ⟨front ++ done, half, later, rest, by rw [hchunks]; simp, hstarts,
      hne, by simp⟩

theorem Short.not_halfway {chunk : Chunk} {back : List Chunk} {rest : Str}
    (h : Short chunk rest) : ¬Halfway (chunk :: back) rest := by
  rintro ⟨front, half, later, more, hchunks, hstarts, hne, rfl⟩
  have hlength := h.1.length_le
  cases front with
  | nil =>
      obtain ⟨rfl, -⟩ := List.cons.inj hchunks
      apply h.2
      exact h.1.eq_of_length (le_antisymm hlength (by simp))
  | cons first front =>
      obtain ⟨rfl, -⟩ := List.cons.inj hchunks
      have hbreak : 0 < crlf.length := by decide
      simp only [texts_cons, Chunk.text, List.length_append] at hlength
      omega

theorem length_le_texts (chunks : List Chunk) :
    chunks.length ≤ (texts chunks).length := by
  induction chunks with
  | nil => exact Nat.le_refl _
  | cons chunk chunks ih =>
      have hbreak : crlf.length = 2 := rfl
      simp [Chunk.text]
      omega

theorem exists_of_append_last {chunks front back : List Chunk}
    {chunk : Chunk} (h : chunks ++ [.last] = front ++ chunk :: back) :
    ∃ left, chunks = front ++ left ∧ left ++ [.last] = chunk :: back := by
  obtain ⟨left, final, hleft⟩ :=
    (List.eq_nil_or_concat (chunk :: back)).resolve_left (by simp)
  rw [List.concat_eq_append] at hleft
  rw [hleft, ← List.append_assoc] at h
  obtain ⟨hchunks, hfinal⟩ := List.append_inj' h rfl
  refine ⟨left, hchunks, ?_⟩
  rw [hleft, hfinal]

end Webserv.Coding
