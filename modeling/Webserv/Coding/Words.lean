import Webserv.Cxx.Text

namespace Webserv.Coding

open Cxx

/-! Words between blanks, and pieces of a text between semicolons. -/

/-- A word that `>>` extracts in one piece. -/
structure SolidWord (word : Str) : Prop where
  ne_nil : word ≠ []
  noSpace : ∀ c ∈ word, isspace c = false

@[simp] theorem words_nil : words [] = [] := by
  simp [words]

theorem words_append_space (front back : Str) {c : Char}
    (h : isspace c = true) :
    words (front ++ c :: back) = words front ++ words back := by
  unfold words
  rw [List.splitOnP_append_cons front back h, List.filter_append]

theorem words_space_cons (back : Str) {c : Char} (h : isspace c = true) :
    words (c :: back) = words back := by
  have hempty := words_append_space [] back h
  simpa using hempty

theorem flatten_words (text : Str) :
    (words text).flatten = text.filter fun c => !isspace c := by
  unfold words
  rw [List.flatten_filter_ne_nil]
  induction text with
  | nil => simp
  | cons c text ih =>
      rw [List.splitOnP_cons_eq_if_modifyHead]
      cases hspace : isspace c with
      | true => simp [hspace, ih]
      | false =>
          rw [if_neg (by simp), List.filter_cons_of_pos (by simp [hspace]),
            ← ih]
          obtain ⟨word, more, hsplit⟩ := List.exists_cons_of_ne_nil
            (List.splitOnP_ne_nil isspace text)
          rw [hsplit]
          rfl

theorem solidWord_of_mem_words {text word : Str} (h : word ∈ words text) :
    SolidWord word where
  ne_nil := by
    have hfilter := (List.mem_filter.mp h).2
    simpa using hfilter
  noSpace c hc := by
    have hmem : c ∈ (words text).flatten := List.mem_flatten_of_mem h hc
    rw [flatten_words] at hmem
    have hsolid := (List.mem_filter.mp hmem).2
    simpa using hsolid

def solid (text : Str) : Nat := text.countP fun c => !isspace c

theorem solid_eq_sum (text : Str) :
    solid text = ((words text).map List.length).sum := by
  rw [← List.length_flatten, flatten_words, solid,
    List.countP_eq_length_filter]

theorem solid_le_length (text : Str) : solid text ≤ text.length :=
  List.countP_le_length

theorem SolidWord.words_eq {word : Str} (h : SolidWord word) :
    words word = [word] := by
  unfold words
  rw [List.splitOnP_eq_singleton h.noSpace]
  simp [h.ne_nil]

def unwords : List Str → Str
  | [] => []
  | [word] => word
  | word :: next :: rest => word ++ ' ' :: unwords (next :: rest)

theorem unwords_cons {rest : List Str} (word : Str) (hne : rest ≠ []) :
    unwords (word :: rest) = word ++ ' ' :: unwords rest := by
  obtain ⟨next, more, rfl⟩ := List.exists_cons_of_ne_nil hne
  rfl

theorem words_unwords {list : List Str} (h : ∀ word ∈ list, SolidWord word) :
    words (unwords list) = list := by
  induction list with
  | nil => rfl
  | cons word rest ih =>
      have hword := (h word List.mem_cons_self).words_eq
      have hrest := ih fun other hother => h other (List.mem_cons_of_mem _ hother)
      cases rest with
      | nil => exact hword
      | cons next more =>
          rw [unwords, words_append_space _ _ (by decide), hword, hrest]
          rfl

def pieces (text : Str) : List (List Str) := (text.splitOn ';').map words

def addWords (front : List Str) (parts : List (List Str)) :
    List (List Str) :=
  parts.modifyHead (front ++ ·)

@[simp] theorem addWords_cons (front part : List Str)
    (parts : List (List Str)) :
    addWords front (part :: parts) = (front ++ part) :: parts := rfl

@[simp] theorem addWords_nil (parts : List (List Str)) :
    addWords [] parts = parts := by
  cases parts <;> rfl

theorem addWords_addWords (front back : List Str)
    (parts : List (List Str)) :
    addWords front (addWords back parts) = addWords (front ++ back) parts := by
  cases parts with
  | nil => rfl
  | cons part parts => simp

@[simp] theorem pieces_nil : pieces [] = [[]] := by
  simp [pieces]

theorem pieces_semicolon {front : Str} (h : ';' ∉ front) (back : Str) :
    pieces (front ++ ';' :: back) = words front :: pieces back := by
  unfold pieces
  rw [List.splitOn_append_cons_self_of_not_mem h, List.map_cons]

theorem splitOn_append_of_not_mem {separator : Char} {front : Str}
    (h : separator ∉ front) (back : Str) :
    (front ++ back).splitOn separator =
      (back.splitOn separator).modifyHead (front ++ ·) := by
  induction front with
  | nil =>
      rw [List.nil_append]
      cases back.splitOn separator with
      | nil => rfl
      | cons part parts => rfl
  | cons c front ih =>
      obtain ⟨hne, hfront⟩ := not_or.mp (List.mem_cons.not.mp h)
      rw [List.cons_append, List.splitOn_cons_eq_if_modifyHead,
        if_neg (by simpa using Ne.symm hne), ih hfront,
        List.modifyHead_modifyHead]
      rfl

theorem pieces_space {front : Str} (h : ';' ∉ front) (back : Str) :
    pieces (front ++ ' ' :: back) = addWords (words front) (pieces back) := by
  have hsplit : ';' ∉ front ++ [' '] := by simp [h]
  unfold pieces
  rw [List.append_cons, splitOn_append_of_not_mem hsplit]
  cases back.splitOn ';' with
  | nil => rfl
  | cons part parts =>
      simp [words_append_space front part (show isspace ' ' = true by decide)]

theorem pieces_blank (back : Str) : pieces (' ' :: back) = pieces back := by
  have hempty := @pieces_space [] (by simp) back
  simpa using hempty

theorem unwords_append {front back : List Str} (hfront : front ≠ [])
    (hback : back ≠ []) :
    unwords (front ++ back) = unwords front ++ ' ' :: unwords back := by
  induction front with
  | nil => exact absurd rfl hfront
  | cons word rest ih =>
      cases rest with
      | nil => exact unwords_cons word hback
      | cons next more =>
          rw [List.cons_append, unwords_cons word (by simp),
            ih (List.cons_ne_nil _ _), unwords_cons word (List.cons_ne_nil _ _)]
          simp

/-- What a text puts in front of the pieces behind it. -/
structure Shapes (text : Str) (shape : List (List Str) → List (List Str)) :
    Prop where
  front : ∀ back, pieces (text ++ ' ' :: back) = shape (pieces back)
  whole : pieces text = shape (pieces [])

theorem Shapes.word {word : Str} (hsolid : SolidWord word)
    (hsemicolon : ';' ∉ word) : Shapes word (addWords [word]) where
  front back := by rw [pieces_space hsemicolon, hsolid.words_eq]
  whole := by
    have hsplit : word.splitOn ';' = [word] :=
      List.splitOn_eq_singleton hsemicolon
    rw [pieces, hsplit]
    simp [hsolid.words_eq]

theorem Shapes.ended {list : List Str}
    (hsolid : ∀ word ∈ list, SolidWord word)
    (hsemicolon : ∀ word ∈ list, ';' ∉ word) :
    Shapes (unwords list ++ [';']) (list :: ·) := by
  have hno : ';' ∉ unwords list := by
    induction list with
    | nil => exact List.not_mem_nil
    | cons word rest ih =>
        cases rest with
        | nil => exact hsemicolon word List.mem_cons_self
        | cons next more =>
            have hrest := ih
              (fun other hother => hsolid other (List.mem_cons_of_mem _ hother))
              fun other hother => hsemicolon other (List.mem_cons_of_mem _ hother)
            rw [unwords]
            simp [hsemicolon word List.mem_cons_self, hrest]
  constructor
  · intro back
    rw [List.append_assoc, List.singleton_append, pieces_semicolon hno,
      words_unwords hsolid, pieces_blank]
  · rw [pieces_semicolon hno, words_unwords hsolid]

theorem Shapes.append {front back : List Str}
    {shape shape' : List (List Str) → List (List Str)} (hfront : front ≠ [])
    (hback : back ≠ []) (h : Shapes (unwords front) shape)
    (h' : Shapes (unwords back) shape') :
    Shapes (unwords (front ++ back)) (shape ∘ shape') := by
  rw [unwords_append hfront hback]
  constructor
  · intro rest
    rw [List.append_assoc, List.cons_append, h.front, h'.front]
    rfl
  · rw [h.front, h'.whole]
    rfl

theorem Shapes.list {ι : Type} {text : ι → Str}
    {shape : ι → List (List Str) → List (List Str)} {items : List ι}
    (hne : items ≠ []) (h : ∀ item ∈ items, Shapes (text item) (shape item)) :
    Shapes (unwords (items.map text)) fun parts => items.foldr shape parts := by
  induction items with
  | nil => exact absurd rfl hne
  | cons item rest ih =>
      have hitem := h item List.mem_cons_self
      cases rest with
      | nil => exact hitem
      | cons next more =>
          have hrest := ih (List.cons_ne_nil _ _)
            fun other hother => h other (List.mem_cons_of_mem _ hother)
          exact Shapes.append (List.cons_ne_nil _ []) (by simp) hitem hrest

end Webserv.Coding
