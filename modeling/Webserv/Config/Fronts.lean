import Webserv.Config.Reader

namespace Webserv

open Cxx Coding

/-! How a part starts, by its words: with the name and the brace of a server. -/

/-- The words in front of the first opening brace, and those behind it. -/
def cutWords : List Str → Option (List Str × List Str)
  | [] => none
  | word :: rest =>
      if '{' ∈ word then
        some ([word.takeWhile (· ≠ '{')].filter (· ≠ []),
          [(word.dropWhile (· ≠ '{')).tail].filter (· ≠ []) ++ rest)
      else (cutWords rest).map fun cut => (word :: cut.1, cut.2)

/-- The words behind `server {`. -/
def openWords (list : List Str) : Option (List Str) :=
  match cutWords list with
  | some (front, back) => if front = ["server".toList] then some back else none
  | none => none

theorem words_solid_cons {c : Char} (h : isspace c = false) (text : Str) :
    words (c :: text) =
      match text.head? with
      | none => [[c]]
      | some d =>
          if isspace d = true then [c] :: words text
          else (words text).modifyHead (c :: ·) := by
  cases text with
  | nil =>
      have hsolid : SolidWord [c] := ⟨by simp, by simpa using h⟩
      exact hsolid.words_eq
  | cons d text =>
      simp only [List.head?_cons]
      by_cases hd : isspace d = true
      · have hsolid : SolidWord [c] := ⟨by simp, by simpa using h⟩
        rw [if_pos hd, words_space_cons text hd]
        have hcut := words_append_space [c] text hd
        rw [hsolid.words_eq] at hcut
        exact hcut
      · rw [if_neg hd]
        unfold words
        rw [List.splitOnP_cons_eq_if_modifyHead, h, if_neg (by decide),
          List.splitOnP_cons_eq_if_modifyHead, if_neg hd]
        obtain ⟨word, more, hsplit⟩ := List.exists_cons_of_ne_nil
          (List.splitOnP_ne_nil isspace text)
        rw [hsplit]
        simp

theorem words_solid_head {c : Char} (h : isspace c = false) (text : Str) :
    ∃ word more, words (c :: text) = (c :: word) :: more := by
  induction text generalizing c with
  | nil => exact ⟨[], [], by rw [words_solid_cons h]; rfl⟩
  | cons d text ih =>
      rw [words_solid_cons h]
      simp only [List.head?_cons]
      cases hd : isspace d with
      | true => exact ⟨[], words (d :: text), rfl⟩
      | false =>
          obtain ⟨word, more, hwords⟩ := ih hd
          exact ⟨d :: word, more, by rw [hwords]; rfl⟩

theorem words_append_solid {word : Str} (hword : SolidWord word) {text : Str}
    (hhead : ∀ c ∈ text.head?, isspace c = false) :
    words (word ++ text) =
      match words text with
      | [] => [word]
      | next :: more => (word ++ next) :: more := by
  cases text with
  | nil => rw [List.append_nil, hword.words_eq, words_nil]
  | cons d text =>
      have hd := hhead d rfl
      obtain ⟨next, more, hwords⟩ := words_solid_head hd text
      rw [hwords]
      obtain ⟨hne, hsolid⟩ := hword
      induction word with
      | nil => exact absurd rfl hne
      | cons c word ih =>
          rw [List.cons_append, words_solid_cons (hsolid c List.mem_cons_self)]
          cases word with
          | nil =>
              simp only [List.nil_append, List.head?_cons]
              rw [if_neg (by simp [hd]), hwords]
              rfl
          | cons e word =>
              have he := hsolid e (by simp)
              have hrest := ih (List.cons_ne_nil _ _)
                fun c hc => hsolid c (List.mem_cons_of_mem _ hc)
              simp only [List.cons_append, List.head?_cons] at hrest ⊢
              rw [if_neg (by simp [he]), hrest]
              rfl

theorem cutWords_cons {c d : Char} {word word' : Str}
    {more more' back : List Str} (hc : c ≠ '{')
    (h : cutWords ((d :: word) :: more) =
      some ((d :: word') :: more', back)) :
    cutWords ((c :: d :: word) :: more) =
      some ((c :: d :: word') :: more', back) := by
  unfold cutWords at h ⊢
  by_cases hmem : '{' ∈ d :: word
  · rw [if_pos hmem] at h
    rw [if_pos (List.mem_cons_of_mem _ hmem)]
    by_cases hd : d = '{'
    · simp [hd] at h
    · simp only [ne_eq, hd, not_false_eq_true, decide_true,
        List.takeWhile_cons_of_pos, List.dropWhile_cons_of_pos] at h
      simp only [ne_eq, hc, hd, not_false_eq_true, decide_true,
        List.takeWhile_cons_of_pos, List.dropWhile_cons_of_pos]
      simp at h ⊢
      exact h
  · rw [if_neg hmem] at h
    rw [if_neg fun hmem' => hmem
      ((List.mem_cons.mp hmem').resolve_left (Ne.symm hc))]
    obtain ⟨cut, hcut, hsame⟩ := Option.map_eq_some_iff.mp h
    obtain ⟨hfront, rfl⟩ := Prod.mk.inj hsame
    obtain ⟨hword, rfl⟩ := List.cons.inj hfront
    rw [hcut, hword]
    rfl

theorem cutWords_words {front : Str} (h : '{' ∉ front) (back : Str) :
    cutWords (words (front ++ '{' :: back)) =
      some (words front, words back) := by
  have hbrace : cutWords (words ('{' :: back)) = some ([], words back) := by
    rw [words_solid_cons (by decide)]
    cases back with
    | nil => simp [cutWords]
    | cons d text =>
        simp only [List.head?_cons]
        cases hd : isspace d with
        | true => simp [cutWords]
        | false =>
            obtain ⟨word, more, hwords⟩ := words_solid_head hd text
            rw [hwords]
            simp [cutWords]
  induction front with
  | nil => simpa using hbrace
  | cons c front ih =>
      obtain ⟨hc, hfront⟩ := not_or.mp (List.mem_cons.not.mp h)
      have hrest := ih hfront
      cases hspace : isspace c with
      | true =>
          rw [List.cons_append, words_space_cons _ hspace,
            words_space_cons _ hspace]
          exact hrest
      | false =>
          rw [List.cons_append, words_solid_cons hspace,
            words_solid_cons hspace front]
          cases front with
          | nil =>
              obtain ⟨word, more, hwords⟩ := words_solid_head
                (show isspace '{' = false by decide) back
              rw [hwords] at hbrace
              simp only [List.nil_append, List.head?_cons, List.head?_nil]
              rw [if_neg (by decide), hwords]
              simp only [List.modifyHead_cons]
              unfold cutWords at hbrace ⊢
              simp at hbrace
              simp [Ne.symm hc, hbrace]
          | cons d front =>
              simp only [List.cons_append, List.head?_cons]
              cases hd : isspace d with
              | true =>
                  rw [if_pos rfl, if_pos rfl]
                  unfold cutWords
                  rw [if_neg (by simpa using hc)]
                  rw [List.cons_append] at hrest
                  rw [hrest]
                  rfl
              | false =>
                  obtain ⟨word, more, hwords⟩ := words_solid_head hd
                    (front ++ '{' :: back)
                  obtain ⟨word', more', hwords'⟩ := words_solid_head hd front
                  rw [List.cons_append, hwords, hwords'] at hrest
                  rw [if_neg (by decide), if_neg (by decide), hwords, hwords']
                  exact cutWords_cons (Ne.symm hc) hrest

theorem trimBy_split (drop : Char → Bool) (text : Str) :
    ∃ before behind, text = before ++ (trimBy drop text ++ behind) ∧
      (∀ c ∈ before, drop c = true) ∧ ∀ c ∈ behind, drop c = true := by
  refine ⟨text.takeWhile drop,
    ((text.dropWhile drop).reverse.takeWhile drop).reverse, ?_, ?_, ?_⟩
  · rw [trimBy, ← List.reverse_append, List.takeWhile_append_dropWhile,
      List.reverse_reverse, List.takeWhile_append_dropWhile]
  · exact fun c hc => List.mem_takeWhile_imp hc
  · exact fun c hc => List.mem_takeWhile_imp (List.mem_reverse.mp hc)

theorem words_blank_append {before : Str} (text : Str)
    (h : ∀ c ∈ before, isspace c = true) : words (before ++ text) = words text := by
  induction before with
  | nil => rfl
  | cons c before ih =>
      rw [List.cons_append, words_space_cons _ (h c List.mem_cons_self)]
      exact ih fun d hd => h d (List.mem_cons_of_mem _ hd)

theorem words_append_blank {behind : Str} (text : Str)
    (h : ∀ c ∈ behind, isspace c = true) : words (text ++ behind) = words text := by
  cases behind with
  | nil => rw [List.append_nil]
  | cons c behind =>
      have hnil : words behind = [] := by
        have hblank := words_blank_append [] fun d hd =>
          h d (List.mem_cons_of_mem _ hd)
        rwa [List.append_nil, words_nil] at hblank
      rw [words_append_space _ _ (h c List.mem_cons_self), hnil,
        List.append_nil]

theorem words_trimBy_space (text : Str) :
    words (trimBy (· = ' ') text) = words text := by
  obtain ⟨before, behind, htext, hbefore, hbehind⟩ :=
    trimBy_split (· = ' ') text
  have hspace : ∀ c, decide (c = ' ') = true → isspace c = true := by
    intro c hc
    rw [of_decide_eq_true hc]
    decide
  conv => rhs; rw [htext]
  rw [words_blank_append _ fun c hc => hspace c (hbefore c hc),
    words_append_blank _ fun c hc => hspace c (hbehind c hc)]

end Webserv
