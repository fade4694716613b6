import Webserv.Config.Alike
import Webserv.Config.RoundTrip

namespace Webserv

open Cxx Coding

/-! The tokens of a configuration file between two semicolons, and the words
the parser takes them for: a line break between two tokens does not keep them
apart. -/

inductive Token
  | word (text : Str) (plain : PlainWord text)
  | opens
  | closes

namespace Token

def text : Token → Str
  | word text _ => text
  | opens => ['{']
  | closes => ['}']

theorem solid (token : Token) : SolidWord token.text := by
  cases token with
  | word text plain => exact plain.toSolidWord
  | opens => exact ⟨List.cons_ne_nil _ _, by decide⟩
  | closes => exact ⟨List.cons_ne_nil _ _, by decide⟩

theorem noSemicolon (token : Token) : ';' ∉ token.text := by
  cases token with
  | word text plain => exact plain.noSemicolon
  | opens => decide
  | closes => decide

theorem noHash (token : Token) : '#' ∉ token.text := by
  cases token with
  | word text plain => exact plain.noHash
  | opens => decide
  | closes => decide

theorem eq_opens {token : Token} (h : token.text.head? = some '{') :
    token = opens := by
  cases token with
  | word text plain => exact absurd (List.mem_of_head? h) plain.noOpen
  | opens => rfl
  | closes => cases h

theorem plain {token : Token} (hopen : token ≠ opens)
    (hclose : token ≠ closes) : PlainWord token.text := by
  cases token with
  | word text plain => exact plain
  | opens => exact absurd rfl hopen
  | closes => exact absurd rfl hclose

end Token

/-- Tokens, each with whether a word ends behind it. -/
abbrev CutTokens := List (Token × Bool)

def joined : CutTokens → List Str
  | [] => []
  | (token, true) :: rest => token.text :: joined rest
  | (token, false) :: rest =>
      match joined rest with
      | [] => [token.text]
      | word :: more => (token.text ++ word) :: more

variable {rest rest' items items' : CutTokens} {token : Token}

theorem joined_eq_nil_iff : joined items = [] ↔ items = [] := by
  cases items with
  | nil => simp [joined]
  | cons item rest =>
      obtain ⟨token, ends⟩ := item
      cases ends with
      | true => simp [joined]
      | false =>
          rw [joined]
          cases joined rest <;> simp

theorem solid_joined : ∀ word ∈ joined items, SolidWord word := by
  induction items with
  | nil => exact fun word hword => absurd hword List.not_mem_nil
  | cons item rest ih =>
      obtain ⟨token, ends⟩ := item
      intro word hword
      cases ends with
      | true =>
          cases List.mem_cons.mp hword with
          | inl hfirst => exact hfirst ▸ token.solid
          | inr hmem => exact ih word hmem
      | false =>
          rw [joined] at hword
          cases hrest : joined rest with
          | nil =>
              rw [hrest] at hword
              exact List.mem_singleton.mp hword ▸ token.solid
          | cons next more =>
              rw [hrest] at hword ih
              cases List.mem_cons.mp hword with
              | inl hfirst =>
                  have hnext := ih next List.mem_cons_self
                  subst hfirst
                  refine ⟨by simp [hnext.ne_nil], fun c hc => ?_⟩
                  cases List.mem_append.mp hc with
                  | inl hc => exact token.solid.noSpace c hc
                  | inr hc => exact hnext.noSpace c hc
              | inr hmem => exact ih word (List.mem_cons_of_mem _ hmem)

theorem head?_joined (token : Token) (ends : Bool) (rest : CutTokens) :
    ∃ word more, joined ((token, ends) :: rest) = word :: more ∧
      word.head? = token.text.head? := by
  cases ends with
  | true => exact ⟨_, _, rfl, rfl⟩
  | false =>
      rw [joined]
      cases joined rest with
      | nil => exact ⟨_, _, rfl, rfl⟩
      | cons next more =>
          refine ⟨_, _, rfl, ?_⟩
          obtain ⟨c, tail, htoken⟩ :=
            List.exists_cons_of_ne_nil token.solid.ne_nil
          rw [htoken]
          rfl

def StartsOpen (items : CutTokens) : Prop :=
  items.head?.map Prod.fst = some .opens

theorem startsOpen_iff : StartsOpen items ↔
    ∃ word more, joined items = word :: more ∧ word.head? = some '{' := by
  cases items with
  | nil => simp [StartsOpen, joined]
  | cons item rest =>
      obtain ⟨token, ends⟩ := item
      obtain ⟨word, more, hjoined, hhead⟩ := head?_joined token ends rest
      constructor
      · intro hopen
        obtain rfl : token = .opens := Option.some.inj hopen
        exact ⟨word, more, hjoined, hhead⟩
      · rintro ⟨other, others, hother, hbrace⟩
        rw [hjoined] at hother
        rw [(List.cons.inj hother).1.symm, hhead] at hbrace
        rw [Token.eq_opens hbrace]
        rfl

theorem joined_closes (ends : Bool) (rest : CutTokens) :
    ∃ word args, joined ((.closes, ends) :: rest) = word :: args ∧
      word.head? = some '}' ∧ behindWords word args = joined rest ∧
      (word.tail.head? = some '{' ↔ ends = false ∧ StartsOpen rest) := by
  cases ends with
  | true => exact ⟨_, _, rfl, rfl, rfl, by simp [Token.text]⟩
  | false =>
      rw [startsOpen_iff, joined]
      cases hrest : joined rest with
      | nil => exact ⟨_, _, rfl, rfl, rfl, by simp [Token.text]⟩
      | cons next more =>
          have hne := @solid_joined rest next (by rw [hrest]; simp)
          obtain ⟨c, tail, rfl⟩ := List.exists_cons_of_ne_nil hne.ne_nil
          refine ⟨_, _, rfl, rfl, ?_, ?_⟩
          · simp [behindWords, Token.text]
          · simp [Token.text]

theorem openWords_joined (hname : token.text = "server".toList)
    (ends ends' : Bool) (rest : CutTokens) :
    openWords (joined ((token, ends) :: (.opens, ends') :: rest)) =
      some (joined rest) := by
  have hbrace : ∃ tail more, joined ((.opens, ends') :: rest) =
      ('{' :: tail) :: more ∧
        [tail].filter (· ≠ []) ++ more = joined rest := by
    cases ends' with
    | true => exact ⟨_, _, rfl, rfl⟩
    | false =>
        rw [joined]
        cases hrest : joined rest with
        | nil => exact ⟨_, _, rfl, rfl⟩
        | cons next more =>
            have hne := @solid_joined rest next (by rw [hrest]; simp)
            refine ⟨_, _, rfl, ?_⟩
            simp [hne.ne_nil]
  obtain ⟨tail, more, hopens, hbehind⟩ := hbrace
  cases ends with
  | true =>
      rw [joined, hopens, hname, openWords, cutWords, if_neg (by decide),
        cutWords, if_pos List.mem_cons_self]
      simpa using hbehind
  | false =>
      rw [joined, hopens, hname, openWords]
      simp only
      rw [cutWords, if_pos (by simp)]
      simpa using hbehind

theorem checkFirstLine_joined {address : Token}
    (hname : token.text = "location".toList)
    (hslash : address.text.head? = some '/') {ends : Bool}
    (hrest : ends = true ∧ rest ≠ [] ∨ 2 ≤ (joined rest).length) :
    checkFirstLine
        (joined ((token, true) :: (address, ends) :: (.opens, true) :: rest)) =
      .ok (.opens address.text (spaceBefore (joined rest))) := by
  have hplain : PlainWord address.text := by
    apply Token.plain
    · rintro rfl
      cases hslash
    · rintro rfl
      cases hslash
  obtain ⟨first, more, hjoined⟩ : ∃ first more, joined rest = first :: more := by
    apply List.exists_cons_of_ne_nil
    intro hnil
    rw [hnil] at hrest
    obtain ⟨-, hne⟩ | hlength := hrest
    · exact hne (joined_eq_nil_iff.mp hnil)
    · cases hlength
  rw [joined, hname]
  cases ends with
  | true =>
      rw [joined, joined, hjoined]
      exact checkFirstLine_location hplain hslash first more
  | false =>
      have hlength := hrest.resolve_left nofun
      rw [joined, joined, hjoined]
      simp only
      rw [hjoined, List.length_cons] at hlength
      obtain ⟨second, more, rfl⟩ := List.exists_cons_of_ne_nil
        (List.length_pos_iff.mp (show 0 < more.length by omega))
      have hbrace : hasBrace address.text = false := by
        simp [hasBrace, hplain.noOpen, hplain.noClose]
      unfold checkFirstLine
      simp only
      rw [if_neg (by decide), if_pos (by simp [Token.text]), Token.text,
        List.dropLast_concat, openLocation, if_neg (by simp [hbrace]),
        if_neg (by simp [hslash])]

/-- Tokens that are cut at the same places, but for places around braces where
the parser does not care. -/
inductive TokensAlike : CutTokens → CutTokens → Prop
  | same (items : CutTokens) : TokensAlike items items
  /-- Behind a closing brace, unless an opening one follows. -/
  | closes {ends ends' : Bool} {rest rest' : CutTokens} :
      ends = ends' ∨ ¬StartsOpen rest → TokensAlike rest rest' →
      TokensAlike ((.closes, ends) :: rest) ((.closes, ends') :: rest')
  /-- Around the opening brace of a server. -/
  | server {token : Token} {front front' behind behind' : Bool}
      {rest rest' : CutTokens} : token.text = "server".toList →
      TokensAlike rest rest' →
      TokensAlike ((token, front) :: (.opens, behind) :: rest)
        ((token, front') :: (.opens, behind') :: rest')
  /-- In front of the opening brace of a location, if at least two words stand
  behind it. -/
  | location {token address : Token} {ends ends' : Bool}
      {rest rest' : CutTokens} : token.text = "location".toList →
      address.text.head? = some '/' →
      (ends = true ∧ ends' = true) ∨
        (2 ≤ (joined rest).length ∧ 2 ≤ (joined rest').length) →
      TokensAlike rest rest' →
      TokensAlike ((token, true) :: (address, ends) :: (.opens, true) :: rest)
        ((token, true) :: (address, ends') :: (.opens, true) :: rest')

namespace TokensAlike

theorem tokens (h : TokensAlike items items') :
    items.map Prod.fst = items'.map Prod.fst := by
  induction h with
  | same => rfl
  | closes _ _ ih => rw [List.map_cons, List.map_cons, ih]
  | server _ _ ih => simp [ih]
  | location _ _ _ _ ih => simp [ih]

theorem startsOpen_iff (h : TokensAlike items items') :
    StartsOpen items ↔ StartsOpen items' := by
  have hhead := congrArg List.head? h.tokens
  rw [List.head?_map, List.head?_map] at hhead
  rw [StartsOpen, StartsOpen, hhead]

theorem eq_nil_iff (h : TokensAlike items items') : items = [] ↔ items' = [] := by
  have hnil := congrArg (· = []) h.tokens
  simpa using hnil

theorem words_spaceBefore_joined :
    words (spaceBefore (joined items)) = joined items :=
  words_spaceBefore solid_joined

theorem alike (h : TokensAlike items items') :
    Alike (joined items) (joined items') := by
  induction h with
  | same items => exact .same _
  | closes hends hrest ih =>
      rename_i ends ends' rest rest'
      obtain ⟨word, args, hjoined, hclose, hbehind, hnext⟩ :=
        joined_closes ends rest
      obtain ⟨word', args', hjoined', hclose', hbehind', hnext'⟩ :=
        joined_closes ends' rest'
      rw [hjoined, hjoined']
      refine .closes hclose hclose' ?_ ?_
      · rw [hnext, hnext', ← hrest.startsOpen_iff]
        cases hends with
        | inl hsame => rw [hsame]
        | inr hno => simp [hno]
      · rw [hbehind, hbehind']
        exact ih
  | server hname hrest ih =>
      exact .opensServer (openWords_joined hname _ _ _)
        (openWords_joined hname _ _ _) ih
  | location hname hslash hlength hrest ih =>
      rename_i token address ends ends' rest rest'
      by_cases hnil : rest = []
      · obtain rfl := hnil
        obtain rfl := hrest.eq_nil_iff.mp rfl
        obtain ⟨rfl, rfl⟩ | ⟨htwo, -⟩ := hlength
        · exact .same _
        · cases htwo
      · have hnil' : rest' ≠ [] := mt hrest.eq_nil_iff.mpr hnil
        have hopens := @checkFirstLine_joined rest token address hname hslash
          ends (hlength.imp (fun h => ⟨h.1, hnil⟩) And.left)
        have hopens' := @checkFirstLine_joined rest' token address hname hslash
          ends' (hlength.imp (fun h => ⟨h.2, hnil'⟩) And.right)
        rw [joined, hname] at hopens hopens' ⊢
        rw [joined, hname]
        refine .opensLocation hopens hopens' ?_
        rw [words_spaceBefore_joined, words_spaceBefore_joined]
        exact ih

end TokensAlike

end Webserv
