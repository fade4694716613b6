import Webserv.Config.Accepted
import Webserv.Config.Numbers

namespace Webserv

open Cxx Coding

/-! The pieces of a configuration's text between the semicolons. -/

def isName (word : Str) : Bool :=
  !word.isEmpty && word.all fun c => !isspace c && c != ';'

theorem solid_of_isName {word : Str} (h : isName word = true) :
    SolidWord word ∧ ';' ∉ word := by
  simp only [isName, Bool.and_eq_true, Bool.not_eq_true',
    List.isEmpty_eq_false_iff, List.all_eq_true, bne_iff_ne] at h
  exact ⟨⟨h.1, fun c hc => (h.2 c hc).1⟩, fun hmem => (h.2 _ hmem).2 rfl⟩

theorem plain_of_named {name : Str} {arguments : List Str}
    (hname : isName name = true)
    (harguments : ∀ word ∈ arguments, PlainWord word) :
    ∀ word ∈ name :: arguments, SolidWord word ∧ ';' ∉ word := by
  intro word hword
  cases List.mem_cons.mp hword with
  | inl hfirst => exact hfirst ▸ solid_of_isName hname
  | inr hrest =>
      have hplain := harguments word hrest
      exact ⟨hplain.toSolidWord, hplain.noSemicolon⟩

theorem foldr_addWords (list : List Str) (parts : List (List Str)) :
    list.foldr (fun word => addWords [word]) parts = addWords list parts := by
  induction list with
  | nil => exact (addWords_nil parts).symm
  | cons word rest ih => rw [List.foldr_cons, ih, addWords_addWords]; rfl

theorem Shapes.words {list : List Str} (hne : list ≠ [])
    (hsolid : ∀ word ∈ list, SolidWord word)
    (hsemicolon : ∀ word ∈ list, ';' ∉ word) :
    Shapes (unwords list) (addWords list) := by
  have hlist := @Shapes.list Str id (fun word => addWords [word]) list hne
    fun word hword => Shapes.word (hsolid word hword) (hsemicolon word hword)
  rw [List.map_id] at hlist
  simpa only [foldr_addWords] using hlist

theorem Shapes.block {ι : Type} {text : ι → Str}
    {shape : ι → List (List Str) → List (List Str)} {opening : List Str}
    {items : List ι} (hopening : opening ≠ []) (hitems : items ≠ [])
    (hsolid : ∀ word ∈ opening, SolidWord word)
    (hsemicolon : ∀ word ∈ opening, ';' ∉ word)
    (h : ∀ item ∈ items, Shapes (text item) (shape item)) :
    Shapes (blockText opening (items.map text)) fun parts =>
      addWords opening (items.foldr shape (addWords ["\x7d".toList] parts)) := by
  have hbrace : Shapes (unwords ["\x7d".toList]) (addWords ["\x7d".toList]) :=
    Shapes.word ⟨by decide, by decide⟩ (by decide)
  have hbody := (Shapes.list hitems h).append (by simpa using hitems)
    (List.cons_ne_nil _ []) hbrace
  have hblock := (Shapes.words hopening hsolid hsemicolon).append hopening
    (by simp) hbody
  rw [blockText, List.append_assoc]
  exact hblock

namespace RouteItem

theorem Valid.plainWords {W : Type} [Os W] {world : W} {item : RouteItem}
    (h : item.Valid world) :
    ∀ word ∈ item.words, SolidWord word ∧ ';' ∉ word :=
  plain_of_named (by cases item <;> rfl) h.plain

theorem Valid.shapes {W : Type} [Os W] {world : W} {item : RouteItem}
    (h : item.Valid world) : Shapes item.text (item.words :: ·) :=
  Shapes.ended (fun word hword => (h.plainWords word hword).1)
    fun word hword => (h.plainWords word hword).2

end RouteItem

namespace ServerItem

def shape : ServerItem → List (List Str) → List (List Str)
  | location uri items => fun parts =>
      addWords ["location".toList, uri, "\x7b".toList]
        (items.foldr (fun item => (item.words :: ·))
          (addWords ["\x7d".toList] parts))
  | item => (item.words :: ·)

theorem address_plainWord (address : Address) : PlainWord address.text where
  ne_nil := by
    rw [Address.text_eq]
    simp
  noSpace c hc := by
    by_cases hdot : c = '.'
    · rw [hdot]
      decide
    · have hdigit := Address.isdigit_of_mem_text hc hdot
      by_contra hspace
      simp only [isspace, Bool.not_eq_false, decide_eq_true_eq] at hspace
      obtain rfl | rfl | rfl | rfl | rfl | rfl := hspace <;>
        exact absurd hdigit (by decide)
  noSemicolon h :=
    absurd (Address.isdigit_of_mem_text h (by decide)) (by decide)
  noHash h := absurd (Address.isdigit_of_mem_text h (by decide)) (by decide)
  noOpen h := absurd (Address.isdigit_of_mem_text h (by decide)) (by decide)
  noClose h := absurd (Address.isdigit_of_mem_text h (by decide)) (by decide)

theorem Valid.plain {W : Type} [Os W] {world : W} {item : ServerItem}
    (h : item.Valid world) : ∀ word ∈ item.arguments, PlainWord word := by
  intro word hword
  cases item with
  | host address =>
      rw [List.mem_singleton.mp hword]
      exact address_plainWord address
  | listen port =>
      rw [List.mem_singleton.mp hword]
      exact decimal_plainWord port
  | location uri items =>
      rw [List.mem_singleton.mp hword]
      exact h.1
  | serverName name => exact h.1 word hword
  | index names => exact h.1 word hword
  | clientMaxBodySize size => exact h.1 word hword
  | root path => exact h.1 word hword
  | errorPage codes page => exact h.1 word hword

theorem Valid.plainWords {W : Type} [Os W] {world : W} {item : ServerItem}
    (h : item.Valid world) :
    ∀ word ∈ item.words, SolidWord word ∧ ';' ∉ word :=
  plain_of_named (by cases item <;> rfl) h.plain

theorem Valid.shapes {W : Type} [Os W] {world : W} {item : ServerItem}
    (h : item.Valid world) : Shapes item.text item.shape := by
  have hwords := h.plainWords
  have hended := @Shapes.ended item.words (fun word hword => (hwords word hword).1)
    fun word hword => (hwords word hword).2
  cases item with
  | location uri items =>
      obtain ⟨huri, -, hitems, hvalid⟩ := h
      refine Shapes.block (List.cons_ne_nil _ _) hitems ?_ ?_
        fun item hitem => (hvalid item hitem).shapes
      · simp only [List.mem_cons, List.not_mem_nil, or_false]
        rintro word (rfl | rfl | rfl)
        · exact ⟨by decide, by decide⟩
        · exact huri.toSolidWord
        · exact ⟨by decide, by decide⟩
      · simp only [List.mem_cons, List.not_mem_nil, or_false]
        rintro word (rfl | rfl | rfl)
        · decide
        · exact huri.noSemicolon
        · decide
  | host => exact hended
  | listen => exact hended
  | serverName => exact hended
  | index => exact hended
  | clientMaxBodySize => exact hended
  | root => exact hended
  | errorPage => exact hended

end ServerItem

namespace ConfigServer

def shape (server : ConfigServer) (parts : List (List Str)) :
    List (List Str) :=
  addWords ["server".toList, "\x7b".toList]
    (server.items.foldr ServerItem.shape (addWords ["\x7d".toList] parts))

theorem Valid.items_ne_nil {W : Type} [Os W] {world : W}
    {server : ConfigServer} (h : server.Valid world) : server.items ≠ [] := by
  obtain ⟨address, hhost⟩ := h.host
  exact List.ne_nil_of_mem hhost

theorem Valid.shapes {W : Type} [Os W] {world : W} {server : ConfigServer}
    (h : server.Valid world) : Shapes server.text server.shape := by
  refine Shapes.block (List.cons_ne_nil _ _) h.items_ne_nil ?_ ?_
    fun item hitem => (h.items item hitem).shapes
  · simp only [List.mem_cons, List.not_mem_nil, or_false]
    rintro word (rfl | rfl) <;> exact ⟨by decide, by decide⟩
  · simp only [List.mem_cons, List.not_mem_nil, or_false]
    rintro word (rfl | rfl) <;> decide

end ConfigServer

theorem pieces_configText {W : Type} [Os W] {world : W}
    {servers : List ConfigServer} (hne : servers ≠ [])
    (h : ∀ server ∈ servers, server.Valid world) :
    pieces (configText servers) = servers.foldr ConfigServer.shape [[]] := by
  have hwhole := (Shapes.list hne fun server hserver =>
    (h server hserver).shapes).whole
  rwa [pieces_nil] at hwhole

end Webserv
