import Webserv.Config.Bounds
import Webserv.Config.Tokens

namespace Webserv

open Cxx Coding Machine Reading

/-! Configuration files that lay out the same tokens in different ways. -/

/-- What a file consists of beside blanks and comments. -/
inductive Lexeme
  | token (token : Token)
  | semicolon

namespace Lexeme

def text : Lexeme → Str
  | .token inner => inner.text
  | .semicolon => [';']

def isWord : Lexeme → Bool
  | .token (.word _ _) => true
  | _ => false

end Lexeme

inductive Filler
  | space
  | tab
  | newline
  /-- A comment, with the end of its line. -/
  | comment (text : Str) (line : '\n' ∉ text)

namespace Filler

def text : Filler → Str
  | space => [' ']
  | tab => ['\t']
  | newline => ['\n']
  | comment text _ => '#' :: (text ++ ['\n'])

def left : Filler → Str
  | space => [' ']
  | tab => ['\t']
  | newline => []
  | comment _ _ => []

end Filler

abbrev Gap := List Filler

namespace Gap

def text (gap : Gap) : Str := gap.flatMap Filler.text

def left (gap : Gap) : Str := gap.flatMap Filler.left

theorem blank_left {gap : Gap} : ∀ c ∈ gap.left, c = ' ' ∨ c = '\t' := by
  intro c hc
  obtain ⟨filler, -, hc⟩ := List.mem_flatMap.mp hc
  cases filler with
  | space => exact .inl (List.mem_singleton.mp hc)
  | tab => exact .inr (List.mem_singleton.mp hc)
  | newline => exact absurd hc List.not_mem_nil
  | comment => exact absurd hc List.not_mem_nil

theorem noSemicolon {gap : Gap} : ';' ∉ gap.left := by
  intro hmem
  cases blank_left _ hmem with
  | inl hspace => cases hspace
  | inr htab => cases htab

theorem space_left {gap : Gap} : ∀ c ∈ gap.left, isspace c = true := by
  intro c hc
  cases blank_left c hc with
  | inl hspace => exact hspace ▸ rfl
  | inr htab => exact htab ▸ rfl

end Gap

/-- Lexemes, each with the gap behind it. -/
abbrev Spaced := List (Lexeme × Gap)

/-- A file cut into its lexemes; two words have a gap between them. -/
structure Layout where
  front : Gap
  items : Spaced
  /-- A comment behind the last line break. -/
  ending : Option Str
  line : ∀ text ∈ ending, '\n' ∉ text
  apart : items.IsChain fun item next =>
    item.2 = [] → ¬(item.1.isWord = true ∧ next.1.isWord = true)

namespace Layout

def text (layout : Layout) : Str :=
  layout.front.text ++
    (layout.items.flatMap (fun item => item.1.text ++ item.2.text) ++
      (layout.ending.map fun text => '#' :: text).getD [])

/-- Two files of the same lexemes, with gaps between the same of them. -/
structure Relaid (layout layout' : Layout) : Prop where
  lexemes : layout.items.map Prod.fst = layout'.items.map Prod.fst
  gaps : layout.items.dropLast.map (fun item => item.2.isEmpty) =
    layout'.items.dropLast.map fun item => item.2.isEmpty

end Layout

/-! A text without its line breaks and comments. -/

def uncommented (text : Str) : Str :=
  ((getlines text).map fun line => line.takeWhile (· ≠ '#')).flatten

@[simp] theorem uncommented_nil : uncommented [] = [] := rfl

theorem uncommented_newline (rest : Str) :
    uncommented ('\n' :: rest) = uncommented rest := by
  simp [uncommented, getlines_cons_newline]

theorem uncommented_cons {c : Char} (hline : c ≠ '\n') (hhash : c ≠ '#')
    (rest : Str) : uncommented (c :: rest) = c :: uncommented rest := by
  unfold uncommented
  rw [getlines, if_neg hline]
  cases getlines rest with
  | nil => simp [hhash]
  | cons line lines => simp [hhash]

theorem uncommented_comment {text : Str} (h : '\n' ∉ text) (rest : Str) :
    uncommented ('#' :: (text ++ '\n' :: rest)) = uncommented rest := by
  have hline : '\n' ∉ '#' :: text := by simp [h]
  rw [← List.cons_append, uncommented, getlines_line_append hline]
  simp [uncommented]

theorem uncommented_ending {text : Str} (h : '\n' ∉ text) :
    uncommented ('#' :: text) = [] := by
  have hline : '\n' ∉ '#' :: text := by simp [h]
  rw [uncommented, getlines_single hline (List.cons_ne_nil _ _)]
  simp

def Leaves (text left : Str) : Prop :=
  ∀ rest, uncommented (text ++ rest) = left ++ uncommented rest

theorem Leaves.append {text text' left left' : Str} (h : Leaves text left)
    (h' : Leaves text' left') : Leaves (text ++ text') (left ++ left') := by
  intro rest
  rw [List.append_assoc, h, h', List.append_assoc]

theorem Leaves.flatMap {ι : Type} {text left : ι → Str} {list : List ι}
    (h : ∀ i ∈ list, Leaves (text i) (left i)) :
    Leaves (list.flatMap text) (list.flatMap left) := by
  induction list with
  | nil => exact fun rest => rfl
  | cons i list ih =>
      rw [List.flatMap_cons, List.flatMap_cons]
      exact (h i List.mem_cons_self).append
        (ih fun j hj => h j (List.mem_cons_of_mem _ hj))

theorem Leaves.self {text : Str} (hline : '\n' ∉ text) (hhash : '#' ∉ text) :
    Leaves text text := by
  intro rest
  induction text with
  | nil => rfl
  | cons c text ih =>
      obtain ⟨hc, hline⟩ := not_or.mp (List.mem_cons.not.mp hline)
      obtain ⟨hc', hhash⟩ := not_or.mp (List.mem_cons.not.mp hhash)
      rw [List.cons_append, uncommented_cons (Ne.symm hc) (Ne.symm hc'),
        ih hline hhash]
      rfl

theorem Gap.leaves (gap : Gap) : Leaves gap.text gap.left := by
  refine Leaves.flatMap fun filler _ => ?_
  cases filler with
  | space => exact .self (by decide) (by decide)
  | tab => exact .self (by decide) (by decide)
  | newline => exact uncommented_newline
  | comment text line =>
      intro rest
      rw [Filler.text, List.cons_append, List.append_assoc]
      exact uncommented_comment line rest

theorem Lexeme.leaves (lexeme : Lexeme) : Leaves lexeme.text lexeme.text := by
  cases lexeme with
  | token token =>
      refine .self (fun hmem => ?_) token.noHash
      have hsolid := token.solid.noSpace _ hmem
      cases hsolid
  | semicolon => exact .self (by decide) (by decide)

def Spaced.left (items : Spaced) : Str :=
  items.flatMap fun item => item.1.text ++ item.2.left

def Layout.left (layout : Layout) : Str :=
  layout.front.left ++ layout.items.left

theorem Layout.uncommented_text (layout : Layout) :
    uncommented layout.text = layout.left := by
  obtain ⟨front, items, ending, line, apart⟩ := layout
  have hitems : Leaves (items.flatMap fun item => item.1.text ++ item.2.text)
      items.left :=
    Leaves.flatMap fun item _ => item.1.leaves.append item.2.leaves
  have hending : uncommented ((ending.map fun text => '#' :: text).getD []) =
      [] := by
    cases ending with
    | none => rfl
    | some text => exact uncommented_ending (line text rfl)
  rw [text, left, front.leaves, hitems, hending, List.append_nil]

/-! The parts between the semicolons. -/

/-- A word ends in front of a blank, and at the end of its part. -/
def cutParts : Spaced → List CutTokens
  | [] => [[]]
  | (.semicolon, _) :: rest => [] :: cutParts rest
  | (.token token, gap) :: rest =>
      match cutParts rest with
      | [] => [[(token, true)]]
      | part :: parts =>
          ((token, !gap.left.isEmpty || part.isEmpty) :: part) :: parts

/-- A part with a token that is no NUL. -/
def Fills (part : CutTokens) : Prop :=
  ∃ token ∈ part.head?.map Prod.fst, token.text.head? ≠ some '\x00'

structure Reads (part : CutTokens) (piece : Str) : Prop where
  words : words piece = joined part
  full : checkEmpt piece = true ↔ Fills part

theorem checkEmpt_blank {c : Char} (h : c = ' ' ∨ c = '\t') (text : Str) :
    checkEmpt (c :: text) = checkEmpt text := by
  obtain rfl | rfl := h
  · simp [checkEmpt, cStr]
  · simp [checkEmpt, cStr]

theorem checkEmpt_solid {c : Char} (h : isspace c = false) (text : Str) :
    checkEmpt (c :: text) = true ↔ c ≠ '\x00' := by
  by_cases hnul : c = '\x00'
  · subst hnul
    simp [checkEmpt, cStr]
  · have hblank : c ≠ ' ' ∧ c ≠ '\n' ∧ c ≠ '\t' := by
      refine ⟨?_, ?_, ?_⟩
      · rintro rfl
        cases h
      · rintro rfl
        cases h
      · rintro rfl
        cases h
    simp [checkEmpt, cStr, hnul, hblank]

theorem Reads.nil : Reads [] [] := ⟨words_nil, by simp [checkEmpt, cStr, Fills]⟩

theorem Reads.blank {part : CutTokens} {piece : Str} (h : Reads part piece)
    (gap : Gap) : Reads part (gap.left ++ piece) := by
  refine ⟨?_, ?_⟩
  · rw [words_blank_append _ Gap.space_left, h.words]
  · rw [← h.full]
    have hblank := @Gap.blank_left gap
    generalize gap.left = front at hblank
    induction front with
    | nil => rfl
    | cons c front ih =>
        rw [List.cons_append, checkEmpt_blank (hblank c List.mem_cons_self)]
        exact ih fun d hd => hblank d (List.mem_cons_of_mem _ hd)

theorem Reads.token {part : CutTokens} {piece : Str} (h : Reads part piece)
    (hhead : ∀ c ∈ piece.head?, isspace c = false) (token : Token) (gap : Gap) :
    Reads ((token, !gap.left.isEmpty || part.isEmpty) :: part)
      (token.text ++ (gap.left ++ piece)) := by
  refine ⟨?_, ?_⟩
  · have hspace := @Gap.space_left gap
    cases hgap : gap.left with
    | nil =>
        rw [List.nil_append, words_append_solid token.solid hhead, h.words]
        cases part with
        | nil => rfl
        | cons item part => rfl
    | cons c blanks =>
        rw [hgap] at hspace
        rw [List.cons_append,
          words_append_space _ _ (hspace c List.mem_cons_self),
          token.solid.words_eq,
          words_blank_append _ fun d hd => hspace d (List.mem_cons_of_mem _ hd),
          h.words]
        rfl
  · have hsolid := token.solid
    obtain ⟨c, text, htext⟩ := List.exists_cons_of_ne_nil hsolid.ne_nil
    rw [Fills]
    simp only [List.head?_cons, Option.map_some, Option.mem_some_iff,
      exists_eq_left']
    rw [htext] at hsolid ⊢
    rw [List.cons_append,
      checkEmpt_solid (hsolid.noSpace c List.mem_cons_self)]
    simp

theorem reads_cutParts (items : Spaced) :
    ∃ part parts piece pieces, cutParts items = part :: parts ∧
      items.left.splitOn ';' = piece :: pieces ∧
      (∀ c ∈ piece.head?, isspace c = false) ∧ Reads part piece ∧
      List.Forall₂ Reads parts pieces := by
  induction items with
  | nil => exact ⟨[], [], [], [], rfl, rfl, nofun, .nil, .nil⟩
  | cons item rest ih =>
      obtain ⟨lexeme, gap⟩ := item
      obtain ⟨part, parts, piece, pieces, hparts, hpieces, hhead, hpart,
        hmore⟩ := ih
      cases lexeme with
      | semicolon =>
          have hleft : Spaced.left ((.semicolon, gap) :: rest) =
              [] ++ ';' :: (gap.left ++ Spaced.left rest) := rfl
          refine ⟨[], part :: parts, [], (gap.left ++ piece) :: pieces, ?_, ?_,
            nofun, .nil, .cons (hpart.blank gap) hmore⟩
          · rw [cutParts, hparts]
          · rw [hleft, List.splitOn_append_cons_self_of_not_mem (by simp),
              splitOn_append_of_not_mem Gap.noSemicolon, hpieces]
            rfl
      | token token =>
          have hleft : Spaced.left ((.token token, gap) :: rest) =
              token.text ++ (gap.left ++ Spaced.left rest) := by
            simp [Spaced.left, Lexeme.text]
          refine ⟨_, parts, token.text ++ (gap.left ++ piece), pieces, ?_, ?_, ?_,
            hpart.token hhead token gap, hmore⟩
          · rw [cutParts, hparts]
          · rw [hleft, splitOn_append_of_not_mem token.noSemicolon,
              splitOn_append_of_not_mem Gap.noSemicolon, hpieces]
            rfl
          · intro c hc
            have hsolid := token.solid
            obtain ⟨d, text, htext⟩ := List.exists_cons_of_ne_nil hsolid.ne_nil
            rw [htext] at hc
            obtain rfl : d = c := Option.some.inj hc
            exact hsolid.noSpace d (by rw [htext]; exact List.mem_cons_self)

theorem Layout.reads (layout : Layout) :
    List.Forall₂ Reads (cutParts layout.items) (layout.left.splitOn ';') := by
  obtain ⟨part, parts, piece, pieces, hparts, hpieces, -, hpart, hmore⟩ :=
    reads_cutParts layout.items
  rw [left, splitOn_append_of_not_mem Gap.noSemicolon, hpieces, hparts]
  exact .cons (hpart.blank layout.front) hmore

/-! Two layouts of which the same is read. -/

/-- Pieces that are parts for the parser, and taken in the same way. -/
structure PiecesAlike (piece piece' : Str) : Prop where
  words : Alike (words piece) (words piece')
  full : checkEmpt piece = checkEmpt piece'

theorem Fills.congr {part part' : CutTokens} (h : TokensAlike part part') :
    Fills part ↔ Fills part' := by
  have hhead := congrArg List.head? h.tokens
  rw [List.head?_map, List.head?_map] at hhead
  rw [Fills, Fills, hhead]

theorem piecesAlike_of_reads {parts parts' : List CutTokens}
    {pieces pieces' : List Str} (h : List.Forall₂ TokensAlike parts parts')
    (hreads : List.Forall₂ Reads parts pieces)
    (hreads' : List.Forall₂ Reads parts' pieces') :
    List.Forall₂ PiecesAlike pieces pieces' := by
  induction h generalizing pieces pieces' with
  | nil =>
      cases hreads
      cases hreads'
      exact .nil
  | cons halike _ ih =>
      cases hreads with
      | cons hread hmore =>
          cases hreads' with
          | cons hread' hmore' =>
              refine .cons ⟨?_, ?_⟩ (ih hmore hmore')
              · rw [hread.words, hread'.words]
                exact halike.alike
              · rw [Bool.eq_iff_iff, hread.full, hread'.full]
                exact Fills.congr halike

/-- Nothing but comments and line breaks behind the last semicolon. -/
def Closed (text : Str) : Prop := (text.splitOn ';').getLast? = some []

instance (text : Str) : Decidable (Closed text) :=
  inferInstanceAs (Decidable (_ = _))

theorem getpieces_eq (text : Str) :
    getpieces text =
      if Closed text then (text.splitOn ';').dropLast else text.splitOn ';' :=
  rfl

theorem getpieces_alike {text text' : Str} (hclosed : Closed text ↔ Closed text')
    (h : List.Forall₂ PiecesAlike (text.splitOn ';') (text'.splitOn ';')) :
    List.Forall₂ PiecesAlike (getpieces text) (getpieces text') := by
  rw [getpieces_eq, getpieces_eq]
  by_cases hlast : Closed text
  · rw [if_pos hlast, if_pos (hclosed.mp hlast), List.dropLast_eq_take,
      List.dropLast_eq_take, h.length_eq]
    exact List.forall₂_take _ h
  · rw [if_neg hlast, if_neg (mt hclosed.mpr hlast)]
    exact h

theorem getpieces_headD (text : Str) :
    (getpieces text).headD [] = text.takeWhile (· ≠ ';') := by
  unfold getpieces
  by_cases hmem : ';' ∈ text
  · obtain ⟨front, back, rfl, hfront⟩ := List.eq_append_cons_of_mem hmem
    obtain ⟨piece, pieces, hsplit⟩ := List.exists_cons_of_ne_nil
      (List.splitOn_ne_nil ';' back)
    rw [List.splitOn_append_cons_self_of_not_mem hfront, hsplit,
      takeWhile_front hfront]
    simp only
    split <;> rfl
  · have htake : text.takeWhile (· ≠ ';') = text := by
      apply List.takeWhile_eq_self_iff.mpr
      intro c hc
      exact decide_eq_true fun heq => hmem (heq ▸ hc)
    rw [List.splitOn_eq_singleton hmem, htake]
    simp only
    split
    · rename_i hlast
      obtain rfl : text = [] := Option.some.inj hlast
      rfl
    · rfl

theorem openWords_takeWhile {text : Str}
    (h : (openWords (words (text.takeWhile (· ≠ ';')))).isSome = true) :
    (openWords (words text)).isSome = true ∧
      (CleanFront (text.takeWhile (· ≠ ';')) ↔ CleanFront text) := by
  by_cases hmem : '{' ∈ text.takeWhile (· ≠ ';')
  · obtain ⟨front, back, hpiece, hfront⟩ := List.eq_append_cons_of_mem hmem
    have htext : text = front ++ '{' :: (back ++ text.dropWhile (· ≠ ';')) := by
      rw [← List.cons_append, ← List.append_assoc, ← hpiece,
        List.takeWhile_append_dropWhile]
    rw [hpiece] at h ⊢
    rw [htext]
    rw [openWords_append hfront] at h ⊢
    rw [CleanFront, CleanFront, takeWhile_front hfront, takeWhile_front hfront]
    refine ⟨?_, .rfl⟩
    by_cases hwords : words front = ["server".toList]
    · rw [if_pos hwords]
      rfl
    · rw [if_neg hwords] at h
      cases h
  · rw [openWords_of_not_mem hmem] at h
    cases h

theorem SameOpening.takeWhile {text text' : Str} (h : SameOpening text text')
    (halike : Alike (words (text.takeWhile (· ≠ ';')))
      (words (text'.takeWhile (· ≠ ';')))) :
    SameOpening (text.takeWhile (· ≠ ';')) (text'.takeWhile (· ≠ ';')) := by
  have hbrace : ∀ text : Str,
      (text.takeWhile (· ≠ ';')).head? = some '{' ↔ text.head? = some '{' := by
    intro text
    cases text with
    | nil => rfl
    | cons c text =>
        by_cases hc : c = ';'
        · simp [hc]
        · simp [hc]
  constructor
  · rw [hbrace, hbrace, h.brace]
  · intro hopen
    have hopen' := halike.isSome_openWords ▸ hopen
    obtain ⟨hsome, hclean⟩ := openWords_takeWhile hopen
    obtain ⟨-, hclean'⟩ := openWords_takeWhile hopen'
    rw [hclean, hclean', h.clean hsome]

section Layouts

variable {W : Type} [Os W] {world : W} {numbs : Nat → Int}

def Confile.accepted (conf : Confile) : Option (List ServerBlock) :=
  if conf.status then some conf.servers else none

theorem Concludes.congr {reading reading' : Reading}
    {result result' : Except Fault Confile}
    (h : Concludes world numbs reading result)
    (h' : Concludes world numbs reading' result')
    (hsame : ∀ verdict, Halts (move world numbs) reading verdict →
      Halts (move world numbs) reading' verdict) :
    result.map Confile.accepted = result'.map Confile.accepted := by
  have hverdict : ∀ {verdict verdict' : Verdict},
      Halts (move world numbs) reading verdict →
        Halts (move world numbs) reading' verdict' →
          verdict = verdict' :=
    fun hhalts hhalts' => (hsame _ hhalts).unique hhalts'
  cases result with
  | error fault =>
      cases fault with
      | outOfRange => cases h
      | diverges => cases h
      | badSlot =>
          cases result' with
          | error fault' =>
              cases fault' with
              | outOfRange => cases h'
              | diverges => cases h'
              | badSlot => rfl
          | ok conf' =>
              obtain ⟨-, -, hhalts⟩ | ⟨-, hhalts⟩ := h'
              · cases hverdict h hhalts
              · cases hverdict h hhalts
  | ok conf =>
      cases result' with
      | error fault' =>
          cases fault' with
          | outOfRange => cases h'
          | diverges => cases h'
          | badSlot =>
              obtain ⟨-, -, hhalts⟩ | ⟨-, hhalts⟩ := h
              · cases hverdict hhalts h'
              · cases hverdict hhalts h'
      | ok conf' =>
          obtain ⟨hstatus, -, hhalts⟩ | ⟨hstatus, hhalts⟩ := h
          · obtain ⟨hstatus', -, hhalts'⟩ | ⟨-, hhalts'⟩ := h'
            · have hservers := Verdict.accepted.inj (hverdict hhalts hhalts')
              change Except.ok conf.accepted = .ok conf'.accepted
              rw [Confile.accepted, Confile.accepted, hstatus, hstatus',
                hservers]
            · cases hverdict hhalts hhalts'
          · obtain ⟨-, -, hhalts'⟩ | ⟨hstatus', -⟩ := h'
            · cases hverdict hhalts hhalts'
            · change Except.ok conf.accepted = .ok conf'.accepted
              rw [Confile.accepted, Confile.accepted, hstatus, hstatus']
              rfl

theorem partsAlike_headD {parts parts' : List Str}
    (h : PartsAlike parts parts') :
    Alike (words (parts.headD [])) (words (parts'.headD [])) := by
  cases h with
  | nil => exact .same _
  | cons hfirst => exact hfirst

/-- Parts that are alike configure the same servers. -/
theorem configure_alike {text text' : Str} {parts parts' : List Str}
    (hparts : getParts text = .ok (some parts))
    (hparts' : getParts text' = .ok (some parts'))
    (halike : PartsAlike parts parts')
    (hopening : SameOpening (parts.headD []) (parts'.headD [])) :
    configure world numbs text = configure world numbs text' := by
  cases hpage : setDefaultPage world with
  | mk world' found =>
      cases found with
      | false =>
          unfold configure setServer
          rw [hparts, hparts', hpage]
          rfl
      | true =>
          rw [configure_of_parts hparts hpage, configure_of_parts hparts' hpage]
          have hrun := @setServerLoop_concludes W _ world' numbs (turns parts) []
            ⟨parts, 0⟩ (extent_lt_turns parts)
          have hrun' := @setServerLoop_concludes W _ world' numbs (turns parts')
            [] ⟨parts', 0⟩ (extent_lt_turns parts')
          exact hrun.congr hrun' fun _ => halts_alike halike hopening

/-- The last full lines of two files end in the same way. -/
structure SameEnding (text text' : Str) : Prop where
  filled : Filled text ↔ Filled text'
  bare : Filled text →
    (cutComment (lastLine text) = [] ↔ cutComment (lastLine text') = [])
  semicolon : Filled text →
    (';' ∈ cutComment (lastLine text) ↔ ';' ∈ cutComment (lastLine text'))

/-- Comments stand in full lines only. -/
def Commented (text : Str) : Prop :=
  ∀ line ∈ getlines text, '#' ∈ line → fullLine line = true

theorem Commented.gluedText {text : Str} (h : Commented text) :
    gluedText text = uncommented text := by
  rw [Webserv.gluedText, uncommented]
  congr 1
  apply List.map_congr_left
  intro line hline
  rw [cutComment]
  by_cases hhash : '#' ∈ line
  · rw [if_pos (h line hline hhash)]
  · have htake : line.takeWhile (· ≠ '#') = line := by
      apply List.takeWhile_eq_self_iff.mpr
      intro c hc
      exact decide_eq_true fun heq => hhash (heq ▸ hc)
    rw [htake]
    split <;> rfl

/-- A file that is cut into parts, whatever these are. -/
def Passes (text : Str) : Prop :=
  Filled text ∧ cutComment (lastLine text) ≠ [] ∧
    ';' ∉ cutComment (lastLine text)

instance (text : Str) : Decidable (Commented text) :=
  inferInstanceAs (Decidable (∀ line ∈ getlines text, _))

/-- Layouts whose parts differ only where the parser does not care. -/
structure Layout.SameParts (layout layout' : Layout) : Prop where
  commented : Commented layout.text
  commented' : Commented layout'.text
  closed : Closed layout.left ↔ Closed layout'.left
  opening : SameOpening layout.left layout'.left
  parts : List.Forall₂ TokensAlike (cutParts layout.items)
    (cutParts layout'.items)

structure Layout.ReadAlike (layout layout' : Layout) : Prop where
  ending : SameEnding layout.text layout'.text
  parts : Passes layout.text → layout.SameParts layout'

/-- No access of the parser is out of range: the condition of
`configure_inBounds_iff`. -/
def ReadInBounds (world : W) (numbs : Nat → Int) (text : Str) : Prop :=
  ¬(Filled text ∧ (lastLine text).head? = some '#') ∧
    (Admitted text → ∀ world', setDefaultPage world = (world', true) →
      ∀ reading, Steps (move world' numbs)
        (start (getpieces (gluedText text))) reading →
          ¬reading.Dangling world' numbs)

/-- Two files of the same lexemes are both turned down, or both accepted with
the same servers. -/
def Layout.Insensitive (world : W) (numbs : Nat → Int)
    (layout layout' : Layout) : Prop :=
  layout.Relaid layout' →
    (configure world numbs layout.text = .ok none ∧
      configure world numbs layout'.text = .ok none) ∨
    ∃ servers, configure world numbs layout.text = .ok (some servers) ∧
      configure world numbs layout'.text = .ok (some servers)

theorem all_full_congr {pieces pieces' : List Str}
    (h : List.Forall₂ PiecesAlike pieces pieces') :
    (∀ piece ∈ pieces, piece ≠ [] ∧ checkEmpt piece = true) ↔
      ∀ piece ∈ pieces', piece ≠ [] ∧ checkEmpt piece = true := by
  have hfull : ∀ piece : Str, piece ≠ [] ∧ checkEmpt piece = true ↔
      checkEmpt piece = true := by
    intro piece
    refine and_iff_right_of_imp fun hfull => ?_
    rintro rfl
    cases hfull
  simp only [hfull]
  induction h with
  | nil => rfl
  | cons hpiece _ ih =>
      rw [List.forall_mem_cons, List.forall_mem_cons, hpiece.full]
      exact and_congr .rfl ih

theorem Layout.SameParts.configure_eq {layout layout' : Layout}
    (h : layout.SameParts layout') (hpasses : Passes layout.text)
    (hpasses' : Passes layout'.text) :
    configure world numbs layout.text = configure world numbs layout'.text := by
  have hpieces : List.Forall₂ PiecesAlike (getpieces layout.left)
      (getpieces layout'.left) :=
    getpieces_alike h.closed
      (piecesAlike_of_reads h.parts layout.reads layout'.reads)
  have hfull := all_full_congr hpieces
  have hparts := getParts_of_filled hpasses.1
  have hparts' := getParts_of_filled hpasses'.1
  rw [if_neg hpasses.2.1, if_neg hpasses.2.2, h.commented.gluedText,
    layout.uncommented_text] at hparts
  rw [if_neg hpasses'.2.1, if_neg hpasses'.2.2, h.commented'.gluedText,
    layout'.uncommented_text] at hparts'
  by_cases hall : ∀ piece ∈ getpieces layout.left,
      piece ≠ [] ∧ checkEmpt piece = true
  · rw [if_pos hall] at hparts
    rw [if_pos (hfull.mp hall)] at hparts'
    have hwords : PartsAlike (getpieces layout.left)
        (getpieces layout'.left) :=
      hpieces.imp fun _ _ hpiece => hpiece.words
    refine configure_alike hparts hparts' hwords ?_
    have hhead := partsAlike_headD hwords
    rw [getpieces_headD, getpieces_headD] at hhead ⊢
    exact h.opening.takeWhile hhead
  · rw [if_neg hall] at hparts
    rw [if_neg (mt hfull.mpr hall)] at hparts'
    rw [configure_of_none hparts, configure_of_none hparts']

theorem Layout.ReadAlike.configure_eq {layout layout' : Layout}
    (h : layout.ReadAlike layout') (world : W) (numbs : Nat → Int) :
    configure world numbs layout.text =
      configure world numbs layout'.text := by
  by_cases hfilled : Filled layout.text
  · have hfilled' := h.ending.filled.mp hfilled
    have hbare := h.ending.bare hfilled
    have hsemicolon := h.ending.semicolon hfilled
    have hparts := getParts_of_filled hfilled
    have hparts' := getParts_of_filled hfilled'
    by_cases hcut : cutComment (lastLine layout.text) = []
    · rw [if_pos hcut] at hparts
      rw [if_pos (hbare.mp hcut)] at hparts'
      unfold configure
      rw [hparts, hparts']
    have hcut' := mt hbare.mpr hcut
    by_cases hmem : ';' ∈ cutComment (lastLine layout.text)
    · rw [if_neg hcut, if_pos hmem] at hparts
      rw [if_neg hcut', if_pos (hsemicolon.mp hmem)] at hparts'
      rw [configure_of_none hparts, configure_of_none hparts']
    · have hpasses : Passes layout.text := ⟨hfilled, hcut, hmem⟩
      exact (h.parts hpasses).configure_eq hpasses
        ⟨hfilled', hcut', mt hsemicolon.mpr hmem⟩
  · rw [configure_of_none (getParts_of_not_filled hfilled),
      configure_of_none
        (getParts_of_not_filled (mt h.ending.filled.mpr hfilled))]

/-- The verdict and the servers do not depend on what keeps the tokens apart, as
long as the file is read in bounds and the layouts differ only where the parser
does not care. -/
theorem insensitive_of_readAlike {layout layout' : Layout} {world : W}
    {numbs : Nat → Int} (h : layout.ReadAlike layout')
    (hbounds : ReadInBounds world numbs layout.text) :
    layout.Insensitive world numbs layout' := by
  intro _
  have hno := (configure_inBounds_iff world numbs layout.text).mpr hbounds
  rw [← h.configure_eq world numbs]
  cases hresult : configure world numbs layout.text with
  | error fault => exact absurd hresult (hno fault)
  | ok found =>
      cases found with
      | none => exact .inl ⟨rfl, rfl⟩
      | some servers => exact .inr ⟨servers, rfl, rfl⟩

end Layouts

/-! One server in several layouts. -/

def plainToken (text : Str) (plain : PlainWord text) : Lexeme :=
  .token (.word text plain)

/-- What stands behind the name of the server and in front of the port. -/
def portLayout (server port : Filler) : Layout where
  front := []
  items :=
    [(plainToken "server".toList (by decide), [server]),
      (.token .opens, [.newline]),
      (plainToken "host".toList (by decide), [.space]),
      (plainToken "127.0.0.1".toList (by decide), []),
      (.semicolon, [.newline]),
      (plainToken "listen".toList (by decide), [port]),
      (plainToken "80".toList (by decide), []),
      (.semicolon, [.newline]),
      (.token .closes, [.newline])]
  ending := none
  line := nofun
  apart := by simp [plainToken, Lexeme.isWord]

example : (portLayout .space .space).text =
    "server \x7b\nhost 127.0.0.1;\nlisten 80;\n\x7d\n".toList := by decide

theorem portLayout_readAlike :
    (portLayout .space .space).ReadAlike (portLayout .newline .tab) where
  ending := ⟨by decide, fun _ => by decide, fun _ => by decide⟩
  parts _ := by
    refine ⟨by decide, by decide, by decide, ⟨by decide, fun _ => ?_⟩, ?_⟩
    · exact iff_of_true (by unfold CleanFront; decide)
        (by unfold CleanFront; decide)
    · exact .cons (.server rfl (.same _)) (.cons (.same _) (.cons (.same _) .nil))

theorem setServerLoop_plain (world : Disk) :
    setServerLoop world (fun _ => 0)
      (turns ["server \x7bhost 127.0.0.1".toList, "listen 80".toList,
        "\x7d".toList]) {} ⟨["server \x7bhost 127.0.0.1".toList,
          "listen 80".toList, "\x7d".toList], 0⟩ =
      .ok (Confile.holding
        [{ host := "127.0.0.1".toList, port := [80] }]) := rfl

theorem configure_plain :
    configure pageDisk (fun _ => 0) (portLayout .space .space).text =
      .ok (some [{ host := "127.0.0.1".toList, port := [80] }]) := by
  obtain ⟨world', hpage⟩ := setDefaultPage_pageDisk
  have hparts : getParts (portLayout .space .space).text =
      .ok (some ["server \x7bhost 127.0.0.1".toList, "listen 80".toList,
        "\x7d".toList]) := by decide
  rw [configure_of_parts hparts hpage, setServerLoop_plain]
  rfl

theorem insensitive_of_readAlike_brace :
    (portLayout .space .space).Insensitive pageDisk (fun _ => 0)
        (portLayout .newline .tab) ∧
      configure pageDisk (fun _ => 0) (portLayout .newline .tab).text =
        .ok (some [{ host := "127.0.0.1".toList, port := [80] }]) := by
  have hbounds : ReadInBounds pageDisk (fun _ => 0)
      (portLayout .space .space).text := by
    refine (configure_inBounds_iff _ _ _).mp fun fault hfault => ?_
    rw [configure_plain] at hfault
    cases hfault
  refine ⟨insensitive_of_readAlike portLayout_readAlike hbounds, ?_⟩
  rw [← portLayout_readAlike.configure_eq]
  exact configure_plain

/-- A line break in front of the port does not keep it apart. -/
theorem insensitive_fails_newline :
    ¬∀ layout layout' : Layout,
      layout.Insensitive pageDisk (fun _ => 0) layout' := by
  intro hall
  have hrelaid : (portLayout .space .space).Relaid
      (portLayout .space .newline) := ⟨rfl, rfl⟩
  obtain ⟨world', hpage⟩ := setDefaultPage_pageDisk
  have hparts' : getParts (portLayout .space .newline).text =
      .ok (some ["server \x7bhost 127.0.0.1".toList, "listen80".toList,
        "\x7d".toList]) := by decide
  have hloop' : setServerLoop world' (fun _ => 0)
      (turns ["server \x7bhost 127.0.0.1".toList, "listen80".toList,
        "\x7d".toList]) {} ⟨["server \x7bhost 127.0.0.1".toList,
          "listen80".toList, "\x7d".toList], 0⟩ =
        .ok { status := false } := rfl
  rcases hall _ _ hrelaid with ⟨hnone, -⟩ | ⟨servers, -, hsome⟩
  · rw [configure_plain] at hnone
    cases hnone
  · rw [configure_of_parts hparts' hpage, hloop'] at hsome
    cases hsome

end Webserv
