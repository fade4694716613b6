import Webserv.Config.Fronts
import Webserv.Config.Refinement
import Mathlib.Data.List.Forall2

namespace Webserv

open Cxx Coding Machine Reading

/-! Parts whose words are cut in different ways around their braces, and that
the reader still takes alike. -/

inductive Alike : List Str → List Str → Prop
  | same (list : List Str) : Alike list list
  /-- Behind a closing brace, unless an opening one follows. -/
  | closes {word word' : Str} {args args' : List Str} :
      word.head? = some '}' → word'.head? = some '}' →
      (word.tail.head? = some '{' ↔ word'.tail.head? = some '{') →
      Alike (behindWords word args) (behindWords word' args') →
      Alike (word :: args) (word' :: args')
  | opensServer {list list' back back' : List Str} :
      openWords list = some back → openWords list' = some back' →
      Alike back back' → Alike list list'
  | opensLocation {args args' : List Str} {uri text text' : Str} :
      checkFirstLine ("location".toList :: args) = .ok (.opens uri text) →
      checkFirstLine ("location".toList :: args') = .ok (.opens uri text') →
      Alike (words text) (words text') →
      Alike ("location".toList :: args) ("location".toList :: args')

theorem Alike.symm {list list' : List Str} (h : Alike list list') :
    Alike list' list := by
  induction h with
  | same list => exact .same list
  | closes hword hword' hnext _ ih => exact .closes hword' hword hnext.symm ih
  | opensServer hback hback' _ ih => exact .opensServer hback' hback ih
  | opensLocation hopens hopens' _ ih => exact .opensLocation hopens' hopens ih

theorem Alike.nil {list : List Str} (h : Alike [] list) : list = [] := by
  cases h with
  | same => rfl
  | opensServer hback => cases hback

theorem Alike.eq_nil_iff {list list' : List Str} (h : Alike list list') :
    list = [] ↔ list' = [] := by
  constructor
  · rintro rfl
    exact h.nil
  · rintro rfl
    exact h.symm.nil

theorem takeWhile_front {front : Str} {c : Char} (h : c ∉ front) (back : Str) :
    (front ++ c :: back).takeWhile (· ≠ c) = front := by
  rw [List.takeWhile_append_of_pos]
  · simp
  · intro d hd
    exact decide_eq_true fun heq => h (heq ▸ hd)

theorem openWords_first {word : Str} {args back : List Str}
    (h : openWords (word :: args) = some back) :
    word = "server".toList ∨ ∃ more, word = "server\x7b".toList ++ more := by
  unfold openWords cutWords at h
  by_cases hbrace : '{' ∈ word
  · rw [if_pos hbrace] at h
    simp only at h
    split at h
    · rename_i hfront
      obtain ⟨front, more, rfl, hno⟩ := List.eq_append_cons_of_mem hbrace
      right
      rw [takeWhile_front hno] at hfront
      obtain hnil | hne := eq_or_ne front []
      · rw [hnil] at hfront
        cases hfront
      · rw [List.filter_cons_of_pos (by simpa using hne)] at hfront
        rw [(List.cons.inj hfront).1]
        exact ⟨more, rfl⟩
    · cases h
  · rw [if_neg hbrace] at h
    left
    cases hcut : cutWords args with
    | none =>
        rw [hcut] at h
        cases h
    | some cut =>
        rw [hcut, Option.map_some] at h
        simp only at h
        split at h
        · rename_i hfront
          exact (List.cons.inj hfront).1
        · cases h

theorem openWords_undirected {W : Type} [Os W] {word : Str}
    {args back : List Str} (h : openWords (word :: args) = some back) :
    word.head? ≠ some '}' ∧ word ≠ "location".toList ∧
      (∀ (world : W) (numb : Int) (server : ServerBlock),
        serverDirective world numb server (word :: args) = none) ∧
      ∀ (world : W) (route : RouteBlock),
        routeDirective world route (word :: args) = none := by
  obtain rfl | ⟨more, rfl⟩ := openWords_first h
  · exact ⟨by decide, by decide, fun _ _ _ => rfl, fun _ _ => rfl⟩
  · refine ⟨nofun, nofun, ?_, ?_⟩
    · intro world numb server
      simp [serverDirective]
    · intro world route
      simp [routeDirective]

/-- How the first words of two parts that are alike compare. -/
inductive AlikeFirst : List Str → List Str → Prop
  | same {word : Str} {args : List Str} : word.head? ≠ some '}' →
      AlikeFirst (word :: args) (word :: args)
  | closes {word word' : Str} {args args' : List Str} :
      word.head? = some '}' → word'.head? = some '}' →
      (word.tail.head? = some '{' ↔ word'.tail.head? = some '{') →
      Alike (behindWords word args) (behindWords word' args') →
      AlikeFirst (word :: args) (word' :: args')
  | opensServer {word word' : Str} {args args' back back' : List Str} :
      openWords (word :: args) = some back →
      openWords (word' :: args') = some back' →
      AlikeFirst (word :: args) (word' :: args')
  | opensLocation {args args' : List Str} {uri text text' : Str} :
      checkFirstLine ("location".toList :: args) = .ok (.opens uri text) →
      checkFirstLine ("location".toList :: args') = .ok (.opens uri text') →
      Alike (words text) (words text') →
      AlikeFirst ("location".toList :: args) ("location".toList :: args')

theorem Alike.view {list list' : List Str} (h : Alike list list') :
    (list = [] ∧ list' = []) ∨
      ∃ word args word' args', list = word :: args ∧ list' = word' :: args' ∧
        AlikeFirst (word :: args) (word' :: args') := by
  cases h with
  | same =>
      cases list with
      | nil => exact .inl ⟨rfl, rfl⟩
      | cons word args =>
          refine .inr ⟨word, args, word, args, rfl, rfl, ?_⟩
          by_cases hword : word.head? = some '}'
          · exact .closes hword hword .rfl (.same _)
          · exact .same hword
  | closes hword hword' hnext hbehind =>
      exact .inr ⟨_, _, _, _, rfl, rfl, .closes hword hword' hnext hbehind⟩
  | opensServer hback hback' halike =>
      cases list with
      | nil => cases hback
      | cons word args =>
          cases list' with
          | nil => cases hback'
          | cons word' args' =>
              exact .inr ⟨_, _, _, _, rfl, rfl, .opensServer hback hback'⟩
  | opensLocation hopens hopens' halike =>
      exact .inr ⟨_, _, _, _, rfl, rfl, .opensLocation hopens hopens' halike⟩

theorem openWords_cons_eq_none {word : Str} {args : List Str}
    (h : word.head? = some '}' ∨ word = "location".toList) :
    openWords (word :: args) = none := by
  cases hopen : openWords (word :: args) with
  | none => rfl
  | some back =>
      obtain hword | ⟨more, hword⟩ := openWords_first hopen
      · subst hword
        cases h with
        | inl hhead => cases hhead
        | inr hname => cases hname
      · subst hword
        cases h with
        | inl hhead => cases hhead
        | inr hname => cases hname

/-- What `check_first_line` makes of two parts that are alike. -/
inductive FirstLineAlike :
    Except Fault FirstLine → Except Fault FirstLine → Prop
  | same (result : Except Fault FirstLine) : FirstLineAlike result result
  | opens (uri : Str) {text text' : Str} : Alike (words text) (words text') →
      FirstLineAlike (.ok (.opens uri text)) (.ok (.opens uri text'))

theorem Alike.checkFirstLine {list list' : List Str} (h : Alike list list') :
    FirstLineAlike (Webserv.checkFirstLine list)
      (Webserv.checkFirstLine list') := by
  cases h with
  | same => exact .same _
  | closes hword hword' =>
      have hends : ∀ {word : Str} (args : List Str), word.head? = some '}' →
          Webserv.checkFirstLine (word :: args) = .ok .ends := by
        intro word args hclose
        apply checkFirstLine_other args
        · rintro rfl
          cases hclose
        · rintro rfl
          cases hclose
      rw [hends _ hword, hends _ hword']
      exact .same _
  | opensServer hback hback' =>
      have hends : ∀ {list back : List Str},
          openWords list = some back →
            Webserv.checkFirstLine list = .ok .ends := by
        intro list back hopen
        cases list with
        | nil => cases hopen
        | cons word args =>
            obtain rfl | ⟨more, rfl⟩ := openWords_first hopen
            · rfl
            · exact checkFirstLine_other args nofun (by simp)
      rw [hends hback, hends hback']
      exact .same _
  | opensLocation hopens hopens' halike =>
      rw [hopens, hopens']
      exact .opens _ halike

theorem Alike.openWords {list list' back : List Str} (h : Alike list list')
    (hopen : Webserv.openWords list = some back) :
    ∃ back', Webserv.openWords list' = some back' ∧ Alike back back' := by
  cases h with
  | same => exact ⟨back, hopen, .same _⟩
  | closes hword =>
      rw [openWords_cons_eq_none (.inl hword)] at hopen
      cases hopen
  | opensServer hback hback' halike =>
      rw [hback] at hopen
      obtain rfl := Option.some.inj hopen
      exact ⟨_, hback', halike⟩
  | opensLocation =>
      rw [openWords_cons_eq_none (.inr rfl)] at hopen
      cases hopen

theorem Alike.isSome_openWords {list list' : List Str}
    (h : Alike list list') :
    (Webserv.openWords list).isSome = (Webserv.openWords list').isSome := by
  rw [Bool.eq_iff_iff, Option.isSome_iff_exists, Option.isSome_iff_exists]
  constructor
  · rintro ⟨back, hopen⟩
    obtain ⟨back', hopen', -⟩ := h.openWords hopen
    exact ⟨back', hopen'⟩
  · rintro ⟨back', hopen'⟩
    obtain ⟨back, hopen, -⟩ := h.symm.openWords hopen'
    exact ⟨back, hopen⟩

/-! The opening of a server, which is looked at character by character. -/

/-- Blanks only in front of the first brace: what `trimstr` takes away. -/
def CleanFront (line : Str) : Prop :=
  ∀ c ∈ line.takeWhile (· ≠ '{'), isspace c = true → c = ' '

theorem trimBy_head (drop : Char → Bool) (text : Str) :
    ∀ c ∈ (trimBy drop text).head?, drop c = false := by
  intro c hc
  have hfront : trimBy drop text <+: text.dropWhile drop := by
    rw [trimBy, ← List.reverse_suffix, List.reverse_reverse]
    exact List.dropWhile_suffix _
  obtain ⟨behind, hbehind⟩ := hfront
  have hhead : (text.dropWhile drop).head? = some c := by
    rw [← hbehind, List.head?_append, hc]
    rfl
  have hkeep := List.head?_dropWhile_not drop text
  rw [hhead] at hkeep
  simpa using hkeep

theorem trimBy_last (drop : Char → Bool) (text : Str) :
    ∀ c ∈ (trimBy drop text).getLast?, drop c = false := by
  intro c hc
  rw [trimBy, List.getLast?_reverse] at hc
  have hkeep := List.head?_dropWhile_not drop (text.dropWhile drop).reverse
  rw [hc] at hkeep
  simpa using hkeep

theorem words_ne_nil_of_mem {text : Str} {c : Char} (hc : c ∈ text)
    (hsolid : isspace c = false) : words text ≠ [] := by
  intro hnil
  have hmem : c ∈ (words text).flatten := by
    rw [flatten_words]
    exact List.mem_filter.mpr ⟨hc, by simp [hsolid]⟩
  rw [hnil] at hmem
  exact absurd hmem List.not_mem_nil

theorem eq_of_words_single {text word : Str}
    (hhead : ∀ c ∈ text.head?, isspace c = false)
    (hlast : ∀ c ∈ text.getLast?, isspace c = false)
    (h : words text = [word]) : text = word := by
  have hsolid : ∀ c ∈ text, isspace c = false := by
    intro c hc
    by_contra hspace
    rw [Bool.not_eq_false] at hspace
    obtain ⟨front, back, rfl⟩ := List.append_of_mem hc
    have hfront : words front ≠ [] := by
      cases front with
      | nil =>
          have hsolid := hhead c rfl
          rw [hspace] at hsolid
          cases hsolid
      | cons d front =>
          exact words_ne_nil_of_mem List.mem_cons_self (hhead d rfl)
    have hback : words back ≠ [] := by
      obtain rfl | ⟨back, d, rfl⟩ := List.eq_nil_or_concat back
      · have hsolid := hlast c (by simp)
        rw [hspace] at hsolid
        cases hsolid
      · refine @words_ne_nil_of_mem _ d (by simp) (hlast d ?_)
        rw [List.concat_eq_append, ← List.cons_append, ← List.append_assoc,
          List.getLast?_concat]
        rfl
    rw [words_append_space _ _ hspace] at h
    have hlength := congrArg List.length h
    rw [List.length_append, List.length_singleton] at hlength
    have hposFront := List.length_pos_iff.mpr hfront
    have hposBack := List.length_pos_iff.mpr hback
    omega
  have hne : text ≠ [] := by
    rintro rfl
    cases h
  have hsingle : SolidWord text := ⟨hne, hsolid⟩
  rw [hsingle.words_eq] at h
  exact (List.cons.inj h).1

theorem trimBy_eq_server_iff {front : Str} :
    trimBy (· = ' ') front = "server".toList ↔
      words front = ["server".toList] ∧
        ∀ c ∈ front, isspace c = true → c = ' ' := by
  obtain ⟨before, behind, htext, hbefore, hbehind⟩ :=
    trimBy_split (· = ' ') front
  constructor
  · intro htrim
    have hsolid : SolidWord "server".toList := ⟨by decide, by decide⟩
    refine ⟨?_, fun c hc hspace => ?_⟩
    · rw [← words_trimBy_space, htrim, hsolid.words_eq]
    · rw [htext, htrim] at hc
      cases List.mem_append.mp hc with
      | inl hc => exact of_decide_eq_true (hbefore c hc)
      | inr hc =>
          cases List.mem_append.mp hc with
          | inl hc =>
              rw [hsolid.noSpace c hc] at hspace
              cases hspace
          | inr hc => exact of_decide_eq_true (hbehind c hc)
  · rintro ⟨hwords, hclean⟩
    have hmem : ∀ c ∈ trimBy (· = ' ') front, c ∈ front := by
      intro c hc
      rw [htext]
      exact List.mem_append_right _ (List.mem_append_left _ hc)
    have hend : ∀ c, c ∈ trimBy (· = ' ') front →
        decide (c = ' ') = false → isspace c = false := by
      intro c hc hkeep
      by_contra hspace
      rw [Bool.not_eq_false] at hspace
      exact of_decide_eq_false hkeep (hclean c (hmem c hc) hspace)
    refine eq_of_words_single ?_ ?_ ((words_trimBy_space front).trans hwords)
    · exact fun c hc => hend c (List.mem_of_head? hc) (trimBy_head _ _ c hc)
    · exact fun c hc => hend c (List.mem_of_getLast? hc) (trimBy_last _ _ c hc)

theorem openWords_append {front : Str} (h : '{' ∉ front) (back : Str) :
    openWords (words (front ++ '{' :: back)) =
      if words front = ["server".toList] then some (words back) else none := by
  rw [openWords, cutWords_words h]

theorem openWords_of_not_mem {line : Str} (h : '{' ∉ line) :
    openWords (words line) = none := by
  have hcut : cutWords (words line) = none := by
    have hall : ∀ word ∈ words line, '{' ∉ word := by
      intro word hword hmem
      have hflat := List.mem_flatten_of_mem hword hmem
      rw [flatten_words] at hflat
      exact h (List.mem_filter.mp hflat).1
    generalize words line = list at hall
    induction list with
    | nil => rfl
    | cons word list ih =>
        rw [cutWords, if_neg (hall word List.mem_cons_self),
          ih fun other hother => hall other (List.mem_cons_of_mem _ hother)]
        rfl
  rw [openWords, hcut]

theorem checkLine_words (line : Str) :
    (line.head? = some '{' ∧ checkLine line = .error .badSlot) ∨
      line.head? ≠ some '{' ∧
        ((¬(∃ back, openWords (words line) = some back ∧ CleanFront line) ∧
            checkLine line = .ok none) ∨
          ∃ text, checkLine line = .ok (some text) ∧ CleanFront line ∧
            openWords (words line) = some (words text)) := by
  by_cases hmem : '{' ∈ line
  · obtain ⟨front, back, rfl, hfront⟩ := List.eq_append_cons_of_mem hmem
    rw [checkLine_append hfront, openWords_append hfront]
    obtain rfl | hne := eq_or_ne front []
    · exact .inl ⟨rfl, if_pos rfl⟩
    · obtain ⟨c, front, rfl⟩ := List.exists_cons_of_ne_nil hne
      have hc : c ≠ '{' := fun heq => hfront (heq ▸ List.mem_cons_self)
      have hclean : CleanFront (c :: front ++ '{' :: back) ↔
          ∀ d ∈ c :: front, isspace d = true → d = ' ' := by
        rw [CleanFront, takeWhile_front hfront]
      refine .inr ⟨by simpa using hc, ?_⟩
      rw [if_neg hne, hclean]
      by_cases hserver : trimBy (· = ' ') (c :: front) = "server".toList
      · obtain ⟨hwords, hspaces⟩ := trimBy_eq_server_iff.mp hserver
        right
        refine ⟨' ' :: back, if_pos hserver, hspaces, ?_⟩
        rw [if_pos hwords, words_space_cons _ (by decide)]
      · left
        refine ⟨?_, if_neg hserver⟩
        rintro ⟨text, hopen, hspaces⟩
        split at hopen
        · rename_i hwords
          exact hserver (trimBy_eq_server_iff.mpr ⟨hwords, hspaces⟩)
        · cases hopen
  · refine .inr ⟨fun hhead => hmem (List.mem_of_head? hhead), .inl ⟨?_, ?_⟩⟩
    · rintro ⟨back, hopen, -⟩
      rw [openWords_of_not_mem hmem] at hopen
      cases hopen
    · unfold checkLine
      rw [splitBrace_none hmem]

/-- What decides, beside the words, whether a part opens a server. -/
structure SameOpening (line line' : Str) : Prop where
  brace : line.head? = some '{' ↔ line'.head? = some '{'
  clean : (openWords (words line)).isSome = true →
    (CleanFront line ↔ CleanFront line')

theorem SameOpening.refl (line : Str) : SameOpening line line :=
  ⟨.rfl, fun _ => .rfl⟩

theorem SameOpening.checkLine {line line' : Str} (h : SameOpening line line')
    (halike : Alike (words line) (words line')) :
    (Webserv.checkLine line = .error .badSlot ∧
        Webserv.checkLine line' = .error .badSlot) ∨
      (Webserv.checkLine line = .ok none ∧
        Webserv.checkLine line' = .ok none) ∨
      ∃ text text', Webserv.checkLine line = .ok (some text) ∧
        Webserv.checkLine line' = .ok (some text') ∧
        Alike (words text) (words text') := by
  obtain ⟨hhead, hline⟩ | ⟨hhead, hline⟩ := checkLine_words line
  · obtain ⟨-, hline'⟩ | ⟨hhead', -⟩ := checkLine_words line'
    · exact .inl ⟨hline, hline'⟩
    · exact absurd (h.brace.mp hhead) hhead'
  · obtain ⟨hhead', -⟩ | ⟨-, hline'⟩ := checkLine_words line'
    · exact absurd (h.brace.mpr hhead') hhead
    · obtain ⟨hno, hline⟩ | ⟨text, hline, hclean, hopen⟩ := hline
      · obtain ⟨-, hline'⟩ | ⟨text', -, hclean', hopen'⟩ := hline'
        · exact .inr (.inl ⟨hline, hline'⟩)
        · obtain ⟨back, hopen, -⟩ := halike.symm.openWords hopen'
          have hsome : (openWords (words line)).isSome = true := by
            rw [hopen]
            rfl
          exact absurd ⟨back, hopen, (h.clean hsome).mpr hclean'⟩ hno
      · obtain ⟨back', hopen', hback⟩ := halike.openWords hopen
        have hsome : (openWords (words line)).isSome = true := by
          rw [hopen]
          rfl
        obtain ⟨hno', -⟩ | ⟨text', hline', -, hopen''⟩ := hline'
        · exact absurd ⟨back', hopen', (h.clean hsome).mp hclean⟩ hno'
        · rw [hopen'] at hopen''
          rw [Option.some.inj hopen''] at hback
          exact .inr (.inr ⟨text, text', hline, hline', hback⟩)

theorem cleanFront_behindBrace {word : Str} {args : List Str}
    (h : ∀ other ∈ word :: args, SolidWord other) :
    CleanFront (behindBrace word args) := by
  intro c hc hspace
  have hmem : c ∈ behindBrace word args := (List.takeWhile_sublist _).subset hc
  have hsolid : ∀ other ∈ (if 1 < word.length then word.tail else [' ']) :: args,
      ∀ d ∈ other, isspace d = true → d = ' ' := by
    intro other hother d hd hdspace
    cases List.mem_cons.mp hother with
    | inl hfirst =>
        rw [hfirst] at hd
        split at hd
        · have hno := (h word List.mem_cons_self).noSpace d
            (List.mem_of_mem_tail hd)
          rw [hno] at hdspace
          cases hdspace
        · exact List.mem_singleton.mp hd
    | inr hargs =>
        have hno := (h other (List.mem_cons_of_mem _ hargs)).noSpace d hd
        rw [hno] at hdspace
        cases hdspace
  unfold behindBrace spaceBehind at hmem
  obtain ⟨other, hother, hc⟩ := List.mem_flatMap.mp hmem
  cases List.mem_append.mp hc with
  | inl hc => exact hsolid other hother c hc hspace
  | inr hc => exact List.mem_singleton.mp hc

theorem head?_behindBrace {word : Str} {args : List Str} :
    (behindBrace word args).head? = some '{' ↔ word.tail.head? = some '{' := by
  unfold behindBrace spaceBehind
  cases word with
  | nil => simp
  | cons c word =>
      cases word with
      | nil => simp
      | cons d word => simp

structure BehindAlike (word word' : Str) (args args' : List Str) : Prop where
  alike : Alike (words (behindBrace word args))
    (words (behindBrace word' args'))
  opening : SameOpening (behindBrace word args) (behindBrace word' args')
  alone : (word = "\x7d".toList ∧ args = []) ↔ word' = "\x7d".toList ∧ args' = []

theorem behindWords_eq_nil_iff {word : Str} {args : List Str}
    (hword : word.head? = some '}') :
    behindWords word args = [] ↔ word = "\x7d".toList ∧ args = [] := by
  cases word with
  | nil => cases hword
  | cons c word =>
      obtain rfl : c = '}' := Option.some.inj hword
      unfold behindWords
      cases word with
      | nil => simp
      | cons d word => simp

theorem BehindAlike.of_words {line line' word word' : Str}
    {args args' : List Str} (hwords : words line = word :: args)
    (hwords' : words line' = word' :: args') (hword : word.head? = some '}')
    (hword' : word'.head? = some '}')
    (hnext : word.tail.head? = some '{' ↔ word'.tail.head? = some '{')
    (h : Alike (behindWords word args) (behindWords word' args')) :
    BehindAlike word word' args args' := by
  have hsolid : ∀ other ∈ word :: args, SolidWord other := fun other hother =>
    solidWord_of_mem_words (hwords ▸ hother)
  have hsolid' : ∀ other ∈ word' :: args', SolidWord other :=
    fun other hother => solidWord_of_mem_words (hwords' ▸ hother)
  constructor
  · rwa [words_behindBrace hsolid, words_behindBrace hsolid']
  · constructor
    · rw [head?_behindBrace, head?_behindBrace, hnext]
    · exact fun _ => iff_of_true (cleanFront_behindBrace hsolid)
        (cleanFront_behindBrace hsolid')
  · rw [← behindWords_eq_nil_iff hword, ← behindWords_eq_nil_iff hword',
      h.eq_nil_iff]

/-! The reader over two lists of parts. -/

abbrev PartsAlike (parts parts' : List Str) : Prop :=
  List.Forall₂ (fun line line' => Alike (words line) (words line')) parts parts'

/-- Readings at the same place, of parts that are alike. -/
structure Reading.Alike (reading reading' : Reading) : Prop where
  servers : reading.servers = reading'.servers
  place : reading.place = reading'.place
  parts : PartsAlike reading.parts reading'.parts
  opening : reading.place = .between →
    SameOpening (reading.parts.headD []) (reading'.parts.headD [])

section Moves

variable {W : Type} [Os W] {world : W} {numbs : Nat → Int}
  {servers : List ServerBlock} {line line' : Str} {rest rest' : List Str}

theorem PartsAlike.eq_nil_iff (h : PartsAlike rest rest') :
    rest = [] ↔ rest' = [] := by
  cases h with
  | nil => rfl
  | cons => simp

theorem behindDirective_alike (h : PartsAlike rest rest')
    {reading reading' : Reading} (hservers : reading.servers = reading'.servers)
    {result : Option (Nesting × Bool)}
    (hplace : ∀ place status, result = some (place, status) →
      place ≠ .between) :
    Move.Related Reading.Alike (reading.behindDirective rest result)
      (reading'.behindDirective rest' result) := by
  unfold behindDirective
  cases result with
  | none => exact .halt _
  | some result =>
      obtain ⟨place, status⟩ := result
      simp only
      by_cases hrest : rest = []
      · rw [if_pos hrest, if_pos (h.eq_nil_iff.mp hrest)]
        exact .halt _
      · rw [if_neg hrest, if_neg (mt h.eq_nil_iff.mpr hrest)]
        cases status with
        | false => exact .halt _
        | true =>
            refine .step ⟨hservers, rfl, h, fun hbetween => ?_⟩
            exact absurd hbetween (hplace place true rfl)

theorem closeServer_alike {reading reading' : Reading} {server : ServerBlock}
    {parts parts' : List Str} (hservers : reading.servers = reading'.servers)
    (hparts : PartsAlike parts parts')
    (hopening : SameOpening (parts.headD []) (parts'.headD [])) :
    Move.Related Reading.Alike (reading.closeServer server parts)
      (reading'.closeServer server parts') := by
  unfold closeServer
  generalize server.checkStatus = checked
  obtain ⟨server', status⟩ := checked
  cases status with
  | false => exact .halt _
  | true =>
      refine .step ⟨?_, rfl, hparts, fun _ => hopening⟩
      rw [hservers]

theorem openMove_alike {place : Nesting} {server : ServerBlock}
    (hline : Alike (words line) (words line'))
    (hrest : PartsAlike rest rest') :
    Move.Related Reading.Alike
      (openMove ⟨servers, place, line :: rest⟩ server line rest)
      (openMove ⟨servers, place, line' :: rest'⟩ server line' rest') := by
  unfold openMove
  generalize checkFirstLine (words line) = first, checkFirstLine (words line') =
    first', hline.checkFirstLine = hfirst
  cases hfirst with
  | same =>
      cases first with
      | error fault => exact .halt _
      | ok first =>
          cases first with
          | ends => exact .step ⟨rfl, rfl, .cons hline hrest, nofun⟩
          | invalid => exact .halt _
          | opens uri text =>
              exact .step ⟨rfl, rfl, .cons (.same _) hrest, nofun⟩
  | opens uri halike => exact .step ⟨rfl, rfl, .cons halike hrest, nofun⟩

theorem insideMove_alike {server : ServerBlock}
    (hline : Alike (words line) (words line'))
    (hrest : PartsAlike rest rest') :
    Move.Related Reading.Alike
      (insideMove world numbs ⟨servers, .inside server, line :: rest⟩ server line
        rest)
      (insideMove world numbs ⟨servers, .inside server, line' :: rest'⟩ server
        line' rest') := by
  have hopen := @openMove_alike servers line line' rest rest' (.inside server)
    server hline hrest
  have hlength := hrest.length_eq
  unfold insideMove
  obtain ⟨hwords, hwords'⟩ |
    ⟨word, args, word', args', hwords, hwords', hfirst⟩ := hline.view
  · rw [hwords, hwords']
    exact .halt _
  simp only [hwords, hwords']
  cases hfirst with
  | same hclose =>
      rw [if_neg hclose, if_neg hclose]
      by_cases hlocation : word = "location".toList
      · rw [if_pos hlocation, if_pos hlocation]
        exact hopen
      · rw [if_neg hlocation, if_neg hlocation, hlength]
        refine behindDirective_alike hrest rfl fun place status h => ?_
        obtain ⟨filled, -, hplace⟩ := Option.map_eq_some_iff.mp h
        rw [← (Prod.mk.inj hplace).1]
        exact nofun
  | closes hclose hclose' hnext hbehind =>
      have hbraces := BehindAlike.of_words hwords hwords' hclose hclose'
        hnext hbehind
      rw [if_pos hclose, if_pos hclose']
      by_cases halone : word = "\x7d".toList ∧ args = []
      · rw [if_pos halone, if_pos (hbraces.alone.mp halone)]
        by_cases hend : rest = []
        · rw [if_pos hend, if_pos (hrest.eq_nil_iff.mp hend)]
          exact closeServer_alike rfl (.cons (.same _) .nil) (.refl _)
        · rw [if_neg hend, if_neg (mt hrest.eq_nil_iff.mpr hend)]
          exact .halt _
      · rw [if_neg halone, if_neg (mt hbraces.alone.mpr halone)]
        exact closeServer_alike rfl (.cons hbraces.alike hrest)
          hbraces.opening
  | opensServer hback hback' =>
      obtain ⟨hclose, hlocation, hnone, -⟩ :=
        @openWords_undirected W _ _ _ _ hback
      obtain ⟨hclose', hlocation', hnone', -⟩ :=
        @openWords_undirected W _ _ _ _ hback'
      rw [if_neg hclose, if_neg hclose', if_neg hlocation,
        if_neg hlocation', hnone, hnone']
      exact .halt _
  | opensLocation =>
      have hclose : "location".toList.head? ≠ some '}' := by decide
      rw [if_neg hclose, if_neg hclose, if_pos rfl, if_pos rfl]
      exact hopen

theorem locationMove_alike {server : ServerBlock} {route : RouteBlock}
    (hline : Alike (words line) (words line'))
    (hrest : PartsAlike rest rest') :
    Move.Related Reading.Alike
      (locationMove world ⟨servers, .location server route, line :: rest⟩ server
        route line rest)
      (locationMove world ⟨servers, .location server route, line' :: rest'⟩
        server route line' rest') := by
  unfold locationMove
  obtain ⟨hwords, hwords'⟩ |
    ⟨word, args, word', args', hwords, hwords', hfirst⟩ := hline.view
  · rw [hwords, hwords']
    exact .halt _
  simp only [hwords, hwords']
  cases hfirst with
  | same hclose =>
      rw [if_neg hclose, if_neg hclose]
      refine behindDirective_alike hrest rfl fun place status h => ?_
      obtain ⟨filled, -, hplace⟩ := Option.map_eq_some_iff.mp h
      rw [← (Prod.mk.inj hplace).1]
      exact nofun
  | closes hclose hclose' hnext hbehind =>
      have hbraces := BehindAlike.of_words hwords hwords' hclose hclose'
        hnext hbehind
      rw [if_pos hclose, if_pos hclose']
      by_cases halone : word = "\x7d".toList ∧ args = []
      · rw [if_pos halone, if_pos (hbraces.alone.mp halone)]
        exact .halt _
      · rw [if_neg halone, if_neg (mt hbraces.alone.mpr halone)]
        exact .step ⟨rfl, rfl, .cons hbraces.alike hrest, nofun⟩
  | opensServer hback hback' =>
      obtain ⟨hclose, -, -, hnone⟩ :=
        @openWords_undirected W _ _ _ _ hback
      obtain ⟨hclose', -, -, hnone'⟩ :=
        @openWords_undirected W _ _ _ _ hback'
      rw [if_neg hclose, if_neg hclose', hnone, hnone']
      exact .halt _
  | opensLocation =>
      have hclose : "location".toList.head? ≠ some '}' := by decide
      rw [if_neg hclose, if_neg hclose]
      exact .halt _

theorem betweenMove_alike (hopening : SameOpening line line')
    (hline : Alike (words line) (words line'))
    (hrest : PartsAlike rest rest') :
    Move.Related Reading.Alike
      (betweenMove ⟨servers, .between, line :: rest⟩ line rest)
      (betweenMove ⟨servers, .between, line' :: rest'⟩ line' rest') := by
  unfold betweenMove
  by_cases hwords : words line = []
  · rw [if_pos hwords, if_pos (hline.eq_nil_iff.mp hwords)]
    exact .halt _
  · rw [if_neg hwords, if_neg (mt hline.eq_nil_iff.mpr hwords)]
    obtain ⟨hcheck, hcheck'⟩ | ⟨hcheck, hcheck'⟩ |
      ⟨text, text', hcheck, hcheck', halike⟩ := hopening.checkLine hline
    · rw [hcheck, hcheck']
      exact .halt _
    · rw [hcheck, hcheck']
      exact .halt _
    · rw [hcheck, hcheck']
      exact .step ⟨rfl, rfl, .cons halike hrest, nofun⟩

theorem Reading.Alike.move {reading reading' : Reading}
    (h : reading.Alike reading') :
    Move.Related Reading.Alike (reading.move world numbs)
      (reading'.move world numbs) := by
  obtain ⟨servers, place, parts⟩ := reading
  obtain ⟨servers', place', parts'⟩ := reading'
  obtain ⟨hservers, hplace, hparts, hopening⟩ := h
  simp only at hservers hplace hparts hopening
  subst hservers hplace
  cases hparts with
  | nil => cases place <;> exact .halt _
  | cons hline hrest =>
      cases place with
      | between => exact betweenMove_alike (hopening rfl) hline hrest
      | inside server => exact insideMove_alike hline hrest
      | behind server => exact openMove_alike hline hrest
      | location server route => exact locationMove_alike hline hrest

theorem halts_alike {parts parts' : List Str} (hparts : PartsAlike parts parts')
    (hopening : SameOpening (parts.headD []) (parts'.headD []))
    {verdict : Verdict} (h : Halts (move world numbs) (start parts) verdict) :
    Halts (move world numbs) (start parts') verdict := by
  have hstart : (start parts).Alike (start parts') :=
    ⟨rfl, rfl, hparts, fun _ => hopening⟩
  exact h.related (fun _ _ => Reading.Alike.move) hstart

end Moves

end Webserv
