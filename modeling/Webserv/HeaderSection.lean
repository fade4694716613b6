import Webserv.HeadFields
import Webserv.RequestLine

namespace Webserv

open Cxx

/-! Which lines of a header section the entries of the header map stem from. -/

/-- An entry is the name and the trimmed value of a line with a colon, and no
later one has that name. -/
def Stems (lines : List Str) (key value : Str) : Prop :=
  ∃ front line back pos, lines = front ++ line :: back ∧
    search? [':'] line = some pos ∧ line.take pos = key ∧
    trim (trimNonPrintable (line.drop (pos + 1))) = value ∧
    ∀ later ∈ back, ∀ pos', search? [':'] later = some pos' →
      later.take pos' ≠ key

def headerLines (text : Str) : List Str := (getlines text).filter (· ≠ [])

/-- What `fill_headers_map` promises for a header section. -/
structure SectionSound (text : Str) : Prop where
  entries : ∀ {W : Type} [Os W] (world : W) (client client' : Client),
    client.request.headersMap = [] →
    fillHeadersMap world client (getlines text) = .ok (client', true) →
      ∀ key value, (key, value) ∈ client'.request.headersMap →
        Stems (headerLines text) key value
  refused : (∀ line ∈ headerLines text, search? [':'] line = none) →
    ∀ {W : Type} [Os W] (world : W) (client : Client),
      client.request.headersMap = [] →
      ∃ client', fillHeadersMap world client (getlines text) =
        .ok (client', false) ∧ client'.Stored 400

/-! The map as one entry for each key, in key order. -/

abbrev Ordered (map : List (Str × Str)) : Prop :=
  map.Pairwise fun entry later => entry.1 < later.1

theorem key_lt_of_ne {key other : Str} (hne : key ≠ other)
    (hle : ¬key < other) : other < key := by
  rcases List.le_iff_lt_or_eq.mp (List.not_lt.mp hle) with hlt | heq
  · exact hlt
  · exact absurd heq.symm hne

theorem mem_mapAssign {map : List (Str × Str)} (h : Ordered map)
    (key value : Str) (entry : Str × Str) :
    entry ∈ mapAssign key value map ↔
      entry = (key, value) ∨ entry.1 ≠ key ∧ entry ∈ map := by
  induction map with
  | nil => simp [mapAssign]
  | cons first rest ih =>
      obtain ⟨k, v⟩ := first
      obtain ⟨hfirst, hrest⟩ := List.pairwise_cons.mp h
      have hbehind : ∀ other ∈ rest, other.1 ≠ k := by
        intro other hother heq
        have hlt := hfirst other hother
        rw [heq] at hlt
        exact List.lt_irrefl k hlt
      rw [mapAssign]
      by_cases hkey : key = k
      · subst hkey
        rw [if_pos rfl, List.mem_cons, List.mem_cons]
        constructor
        · rintro (heq | hmem)
          · exact .inl heq
          · exact .inr ⟨hbehind entry hmem, .inr hmem⟩
        · rintro (heq | ⟨hne, rfl | hmem⟩)
          · exact .inl heq
          · exact absurd rfl hne
          · exact .inr hmem
      · rw [if_neg hkey]
        by_cases hlt : key < k
        · rw [if_pos hlt, List.mem_cons]
          have hother : ∀ other ∈ (k, v) :: rest, other.1 ≠ key := by
            intro other hmem heq
            rcases List.mem_cons.mp hmem with rfl | hmem
            · exact hkey heq.symm
            · have hlater := List.lt_trans hlt (hfirst other hmem)
              rw [heq] at hlater
              exact List.lt_irrefl key hlater
          exact or_congr_right
            ⟨fun hmem => ⟨hother entry hmem, hmem⟩, fun hmem => hmem.2⟩
        · rw [if_neg hlt, List.mem_cons, ih hrest, List.mem_cons]
          constructor
          · rintro (rfl | heq | ⟨hne, hmem⟩)
            · exact .inr ⟨Ne.symm hkey, .inl rfl⟩
            · exact .inl heq
            · exact .inr ⟨hne, .inr hmem⟩
          · rintro (heq | ⟨hne, heq | hmem⟩)
            · exact .inr (.inl heq)
            · exact .inl heq
            · exact .inr (.inr ⟨hne, hmem⟩)

theorem ordered_mapAssign {map : List (Str × Str)} (h : Ordered map)
    (key value : Str) : Ordered (mapAssign key value map) := by
  induction map with
  | nil => simp [mapAssign]
  | cons first rest ih =>
      obtain ⟨k, v⟩ := first
      obtain ⟨hfirst, hrest⟩ := List.pairwise_cons.mp h
      rw [mapAssign]
      by_cases hkey : key = k
      · subst hkey
        rw [if_pos rfl]
        exact List.pairwise_cons.mpr ⟨hfirst, hrest⟩
      rw [if_neg hkey]
      by_cases hlt : key < k
      · rw [if_pos hlt]
        refine List.pairwise_cons.mpr ⟨?_, h⟩
        intro other hmem
        rcases List.mem_cons.mp hmem with rfl | hmem
        · exact hlt
        · exact List.lt_trans hlt (hfirst other hmem)
      · rw [if_neg hlt]
        refine List.pairwise_cons.mpr ⟨?_, ih hrest⟩
        intro other hmem
        rcases (mem_mapAssign hrest key value other).mp hmem with
          rfl | ⟨-, hmem⟩
        · exact key_lt_of_ne hkey hlt
        · exact hfirst other hmem

def carried (value : Str) (front : List Str) : Str :=
  front.foldl (fun value line => lineValue line value) value

theorem mem_headerFields (lines : List Str) (value : Str)
    {map : List (Str × Str)} (h : Ordered map) (entry : Str × Str) :
    entry ∈ headerFields lines value map ↔
      (∃ front line back, lines = front ++ line :: back ∧
        entry = (lineKey line, lineValue line (carried value front)) ∧
        ∀ later ∈ back, lineKey later ≠ entry.1) ∨
      (∀ line ∈ lines, lineKey line ≠ entry.1) ∧ entry ∈ map := by
  induction lines generalizing value map with
  | nil => simp [headerFields]
  | cons line rest ih =>
      rw [headerFields, ih _ (ordered_mapAssign h _ _), mem_mapAssign h]
      constructor
      · rintro (⟨front, last, back, rfl, heq, hlater⟩ |
          ⟨hrest, rfl | ⟨hne, hmem⟩⟩)
        · exact .inl ⟨line :: front, last, back, rfl, heq, hlater⟩
        · exact .inl ⟨[], line, rest, rfl, rfl, hrest⟩
        · refine .inr ⟨?_, hmem⟩
          intro other hother
          rcases List.mem_cons.mp hother with rfl | hother
          · exact Ne.symm hne
          · exact hrest other hother
      · rintro (⟨front, last, back, hsplit, heq, hlater⟩ | ⟨hall, hmem⟩)
        · cases front with
          | nil =>
              obtain ⟨rfl, rfl⟩ := List.cons.inj hsplit
              exact .inr ⟨hlater, .inl heq⟩
          | cons first front =>
              obtain ⟨rfl, rfl⟩ := List.cons.inj hsplit
              exact .inl ⟨front, last, back, rfl, heq, hlater⟩
        · exact .inr ⟨fun other hother => hall other (by simp [hother]),
            .inr ⟨Ne.symm (hall line (by simp)), hmem⟩⟩

/-- A section with a line that starts with ':' or a blank, or one in which
every line without a colon that no later line has for its name repeats the
name of a line with one, and takes over the value that this line has. -/
def SectionTold (text : Str) : Prop :=
  (∃ line ∈ headerLines text,
    line.head? = some ':' ∨ line.head? = some ' ') ∨
  ∀ front line back, headerLines text = front ++ line :: back →
    search? [':'] line = none →
    (∀ later ∈ back, lineKey later ≠ line) →
      Stems (headerLines text) line (lineValue line (carried [] front))

section Fill

variable {W : Type} [Os W]

theorem fillHeadersLoop_filter (world : W) (lines : List Str) (value : Str)
    (client : Client) :
    fillHeadersLoop world lines value client =
      fillHeadersLoop world (lines.filter (· ≠ [])) value client := by
  induction lines generalizing value client with
  | nil => rfl
  | cons line rest ih =>
      by_cases hline : line = []
      · rw [List.filter_cons_of_neg (by simp [hline]), fillHeadersLoop,
          if_pos hline, ih]
      · rw [List.filter_cons_of_pos (by simpa using hline), fillHeadersLoop,
          fillHeadersLoop, if_neg hline, if_neg hline]
        simp only [ih]

theorem lineKey_colon {line : Str} (h : line.head? = some ':') :
    lineKey line = [] := by
  obtain ⟨rest, rfl⟩ := List.head?_eq_some_iff.mp h
  rw [lineKey, search?_cons_of_starts (by simp)]
  rfl

theorem fillHeadersLoop_refused (world : W) {lines : List Str}
    (hne : ∀ line ∈ lines, line ≠ [])
    (hbad : ∃ line ∈ lines, line.head? = some ':' ∨ line.head? = some ' ')
    (value : Str) (client : Client) :
    ∃ client', fillHeadersLoop world lines value client =
      .ok (client', false) ∧ client'.Stored 400 := by
  induction lines generalizing value client with
  | nil =>
      obtain ⟨line, hline, -⟩ := hbad
      cases hline
  | cons line rest ih =>
      have hline := hne line List.mem_cons_self
      obtain ⟨entered, hentry, -⟩ := @headerEntry_eq line value
      rw [fillHeadersLoop, if_neg hline, hentry]
      simp only [bind, Except.bind]
      by_cases hcolon : line.head? = some ':'
      · rw [if_pos (lineKey_colon hcolon)]
        exact ⟨_, rfl, stored_setResponseError world client 400⟩
      rw [if_neg (lineKey_ne_nil hline hcolon), lineKey_head hline hcolon]
      by_cases hspace : line.head? = some ' '
      · rw [if_pos hspace]
        exact ⟨_, rfl, stored_setResponseError world client 400⟩
      rw [if_neg hspace]
      refine ih (fun other hother => hne other (by simp [hother])) ?_ _ _
      obtain ⟨bad, hmem, hstart⟩ := hbad
      rcases List.mem_cons.mp hmem with rfl | hmem
      · exact absurd hstart (not_or.mpr ⟨hcolon, hspace⟩)
      · exact ⟨bad, hmem, hstart⟩

theorem fillHeadersLoop_accepted (world : W) {lines : List Str}
    (h : ∀ line ∈ lines, Taken line) (value : Str) {client : Client}
    (hmap : lines ≠ [] ∨ client.request.headersMap ≠ []) :
    ∃ client', fillHeadersLoop world lines value client =
        .ok (client', true) ∧
      client'.request.headersMap =
        headerFields lines value client.request.headersMap := by
  induction lines generalizing value client with
  | nil =>
      rw [fillHeadersLoop, if_neg (hmap.resolve_left (by simp))]
      exact ⟨client, rfl, rfl⟩
  | cons line rest ih =>
      obtain ⟨entered, hentry, hvalue⟩ := @headerEntry_eq line value
      rw [fillHeadersLoop_cons world (h line List.mem_cons_self) hentry, hvalue,
        headerFields, ← addHeader_map client]
      refine ih (fun other hother => h other (by simp [hother])) _ (.inr ?_)
      rw [addHeader_map]
      exact mapAssign_ne_nil _ _ _

theorem fillHeadersMap_cases (world : W) {client : Client}
    (hmap : client.request.headersMap = []) (text : Str) :
    ((headerLines text = [] ∨ ∃ line ∈ headerLines text,
        line.head? = some ':' ∨ line.head? = some ' ') ∧
      ∃ client', fillHeadersMap world client (getlines text) =
        .ok (client', false) ∧ client'.Stored 400) ∨
    (headerLines text ≠ [] ∧ (∀ line ∈ headerLines text, Taken line) ∧
      ∃ client', fillHeadersMap world client (getlines text) =
          .ok (client', true) ∧
        client'.request.headersMap =
          headerFields (headerLines text) [] []) := by
  have hne : ∀ line ∈ headerLines text, line ≠ [] := fun line hline => by
    simpa using (List.mem_filter.mp hline).2
  unfold fillHeadersMap
  rw [fillHeadersLoop_filter]
  have hlines : (getlines text).filter (· ≠ []) = headerLines text := rfl
  rw [hlines]
  by_cases hnil : headerLines text = []
  · refine .inl ⟨.inl hnil, ?_⟩
    rw [hnil, fillHeadersLoop, if_pos hmap]
    exact ⟨_, rfl, stored_setResponseError world client 400⟩
  by_cases hbad : ∃ line ∈ headerLines text,
      line.head? = some ':' ∨ line.head? = some ' '
  · exact .inl ⟨.inr hbad, fillHeadersLoop_refused world hne hbad [] client⟩
  · have htaken : ∀ line ∈ headerLines text, Taken line := fun line hline =>
      ⟨hne line hline, fun hcolon => hbad ⟨line, hline, .inl hcolon⟩,
        fun hspace => hbad ⟨line, hline, .inr hspace⟩⟩
    have haccepted := @fillHeadersLoop_accepted W _ world _ htaken [] client
      (.inl hnil)
    rw [hmap] at haccepted
    exact .inr ⟨hnil, htaken, haccepted⟩

end Fill

/-- The header map is sound exactly where no value is carried over to a line
without a colon, or the section is refused. -/
theorem sectionSound_iff (text : Str) :
    SectionSound text ↔ SectionTold text := by
  constructor
  · intro h
    let client := Client.connect 5 {}
    rcases fillHeadersMap_cases (⟨[]⟩ : Disk)
        (show client.request.headersMap = [] from rfl) text with
      ⟨hnil | hbad, -⟩ | ⟨-, -, client', hfilled, hmap⟩
    · refine .inr fun front line back hsplit => ?_
      rw [hnil] at hsplit
      simp at hsplit
    · exact .inl hbad
    · refine .inr fun front line back hsplit hcolon hlast => ?_
      refine h.entries (⟨[]⟩ : Disk) client client' rfl hfilled _ _ ?_
      rw [hmap]
      have hkey : lineKey line = line := by rw [lineKey, hcolon]
      refine (mem_headerFields _ [] List.Pairwise.nil _).mpr
        (.inl ⟨front, line, back, hsplit, by rw [hkey], hlast⟩)
  · intro h
    refine ⟨?_, ?_⟩
    · intro W _ world client client' hempty hfilled key value hmem
      rcases fillHeadersMap_cases world hempty text with
        ⟨-, answered, hrefused, -⟩ | ⟨-, htaken, filled, haccepted, hmap⟩
      · rw [hrefused] at hfilled
        cases (Prod.mk.inj (Except.ok.inj hfilled)).2
      rw [haccepted] at hfilled
      obtain ⟨rfl, -⟩ := Prod.mk.inj (Except.ok.inj hfilled)
      rw [hmap] at hmem
      rcases (mem_headerFields _ [] List.Pairwise.nil _).mp hmem with
        ⟨front, line, back, hsplit, hentry, hlast⟩ | ⟨-, hnone⟩
      · obtain ⟨rfl, rfl⟩ := Prod.mk.inj hentry
        cases hcolon : search? [':'] line with
        | some pos =>
            refine ⟨front, line, back, pos, hsplit, hcolon, ?_, ?_, ?_⟩
            · rw [lineKey, hcolon]
            · rw [lineValue, hcolon]
            · intro later hlater pos' hpos' hname
              refine hlast later hlater ?_
              rw [lineKey, hpos']
              exact hname
        | none =>
            have hkey : lineKey line = line := by rw [lineKey, hcolon]
            rw [hkey] at hlast ⊢
            rcases h with ⟨bad, hbad, hstart⟩ | htold
            · exact absurd hstart (not_or.mpr
                ⟨(htaken bad hbad).noColon, (htaken bad hbad).noSpace⟩)
            · exact htold front line back hsplit hcolon hlast
      · cases hnone
    · intro hplain W _ world client hempty
      rcases fillHeadersMap_cases world hempty text with
        ⟨-, hrefused⟩ | ⟨hne, htaken, -⟩
      · exact hrefused
      rcases List.eq_nil_or_concat (headerLines text) with
        hnil | ⟨front, line, hsplit⟩
      · exact absurd hnil hne
      · rw [List.concat_eq_append] at hsplit
        rcases h with ⟨bad, hbad, hstart⟩ | htold
        · exact absurd hstart (not_or.mpr
            ⟨(htaken bad hbad).noColon, (htaken bad hbad).noSpace⟩)
        · obtain ⟨front', colonLine, back', pos, hline, hpos, -⟩ :=
            htold front line [] hsplit
              (hplain line (by simp [hsplit])) (by simp)
          rw [hplain colonLine (by simp [hline])] at hpos
          cases hpos

/-- The blank line gets the value of the line above it. -/
theorem sectionSound_fails_blank :
    ¬SectionSound "Host: h\r\n\r\n".toList := by
  intro h
  let client := Client.connect 5 {}
  have hfilled : ∃ client', fillHeadersMap (⟨[]⟩ : Disk) client
      (getlines "Host: h\r\n\r\n".toList) = .ok (client', true) ∧
    client'.request.headersMap =
      [("\r".toList, "h".toList), ("Host".toList, "h".toList)] :=
    ⟨_, rfl, by decide⟩
  obtain ⟨client', hfilled, hmap⟩ := hfilled
  obtain ⟨front, line, back, pos, hsplit, hpos, hname, -⟩ :=
    h.entries (⟨[]⟩ : Disk) client client' rfl hfilled "\r".toList
      "h".toList (by rw [hmap]; decide)
  have hline : line ∈ headerLines "Host: h\r\n\r\n".toList := by
    rw [hsplit]
    simp
  have hlines : headerLines "Host: h\r\n\r\n".toList =
      ["Host: h\r".toList, "\r".toList] := by decide
  rw [hlines] at hline
  rcases List.mem_pair.mp hline with rfl | rfl
  · obtain rfl : pos = 4 := by
      have hfound : search? [':'] "Host: h\r".toList = some 4 := by decide
      exact Option.some.inj (hpos.symm.trans hfound)
    revert hname
    decide
  · revert hpos
    have hnone : search? [':'] "\r".toList = none := by decide
    rw [hnone]
    exact nofun

end Webserv
