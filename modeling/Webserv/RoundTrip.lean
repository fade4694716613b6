import Webserv.Decoding
import Webserv.Disk

namespace Webserv

open Cxx

/-! What a multipart body in one buffer turns into. -/

section RoundTrip

variable {W : Type} [Os W]

/-- One file for each part, with the part's content, and everything has been
received. -/
def RoundTrip (process : Process W) (client : Client) (directory : Str)
    (parts : List FilePart) : Prop :=
  ∃ process' client', boundary process client = .ok (process', client') ∧
    client'.allRecv = true ∧
    process'.filesOf client.clientId = process.filesOf client.clientId ++
      parts.map fun part => ⟨partPath directory part.filename, part.content⟩

/-- The round trip succeeds exactly when no part ends with a line break. -/
theorem roundTrip_iff {directory : Str} (area : UploadArea W directory)
    {process : Process W} (hready : area.ready process.world)
    (hinitial : process.part = {}) {client : Client}
    (hdirectory : uploadDirectory client.serverClientObj = directory)
    {boundary : Str} {parts : List FilePart}
    (hboundary : PlainBoundary boundary) (hparts : parts ≠ [])
    (hplain : ∀ part ∈ parts, part.Plain boundary)
    (hlength : (encode boundary parts).length < 2 ^ 31)
    (hbody : client.request.sRequest = encode boundary parts) :
    RoundTrip process client directory parts ↔
      ∀ part ∈ parts, part.content.getLast? ≠ some '\n' := by
  obtain ⟨final, done, hdecoded, hreceived, hfiles⟩ := boundary_encode area
    hready hinitial hdirectory hboundary hparts hplain hlength hbody
  have hsame : (parts.map (·.decoded directory) = parts.map fun part =>
      (⟨partPath directory part.filename, part.content⟩ : OutFile)) ↔
      ∀ part ∈ parts, part.content.getLast? ≠ some '\n' := by
    rw [List.map_inj_left]
    refine forall₂_congr fun part _ => ?_
    rw [← dropFinalNewline_eq_self_iff]
    simp [FilePart.decoded]
  rw [← hsame]
  constructor
  · rintro ⟨process', client', hother, -, hall⟩
    obtain ⟨rfl, -⟩ := Prod.mk.inj (Except.ok.inj (hdecoded.symm.trans hother))
    rw [hfiles] at hall
    exact List.append_cancel_left hall
  · intro heq
    exact ⟨final, done, hdecoded, hreceived, by rw [hfiles, heq]⟩

end RoundTrip

/-! The upload directory of a disk takes files. -/

namespace Disk

theorem below_of_file {disk : Disk} {place : Place} {content : Str}
    (h : disk.node? place = some (.file content)) : place.2.2 ≠ [] := by
  intro hroot
  rw [node?, if_pos hroot] at h
  cases h

theorem write_of_file {disk : Disk} {path content : Str} (bytes : Str)
    (h : disk.node? (Lexical.resolve path) = some (.file content)) :
    Os.write disk path bytes =
      (disk.setNode (Lexical.resolve path) (.file (content ++ bytes)),
        bytes.length) := by
  change disk.write path bytes = _
  unfold write
  rw [h]

theorem node?_setNode_self (disk : Disk) {place : Place} (hne : place.2.2 ≠ [])
    (node : Node) : (disk.setNode place node).node? place = some node := by
  rw [node?, if_neg hne, setNode, List.lookup_cons_self]

theorem node?_setNode (disk : Disk) (place : Place) (node : Node)
    {other : Place} (hother : other.2.2 ≠ []) :
    (disk.setNode place node).node? other =
      if other = place then some node else disk.node? other := by
  unfold node? setNode
  rw [if_neg hother, if_neg hother]
  by_cases hsame : other = place
  · subst hsame
    simp
  · have hlookup : ∀ nodes : List (Place × Node),
        (nodes.filter (·.1 ≠ place)).lookup other = nodes.lookup other := by
      intro nodes
      induction nodes with
      | nil => rfl
      | cons entry nodes ih =>
          obtain ⟨key, value⟩ := entry
          by_cases hentry : key = place
          · rw [List.filter_cons_of_neg (by simp [hentry]), ih,
              List.lookup_cons, beq_false_of_ne (hentry ▸ hsame)]
          · rw [List.filter_cons_of_pos (by simp [hentry]),
              List.lookup_cons, List.lookup_cons, ih]
    rw [if_neg hsame, List.lookup_cons, beq_false_of_ne hsame]
    exact hlookup disk.nodes

def upload : Str := "./upload".toList

def uploadReady (disk : Disk) : Prop :=
  disk.node? (false, 0, ["upload".toList]) = some .directory ∧
    ∀ name, disk.node? (false, 0, ["upload".toList, name]) ≠ some .directory

theorem uploadReady_setNode {disk : Disk} (h : disk.uploadReady)
    {place : Place} (hplace : disk.node? place ≠ some .directory)
    (content : Str) :
    (disk.setNode place (.file content)).uploadReady := by
  have hne : (false, 0, ["upload".toList]) ≠ place := by
    rintro rfl
    exact hplace h.1
  refine ⟨?_, fun name => ?_⟩
  · rw [node?_setNode _ _ _ (by simp), if_neg hne]
    exact h.1
  · rw [node?_setNode _ _ _ (by simp)]
    split
    · simp
    · exact h.2 name

theorem components_partPath {name : Str} (hname : PlainPart name)
    (hdot : name ≠ ".".toList) :
    partPath upload name = upload ++ '/' :: name ∧
      Lexical.components (partPath upload name) =
        ["upload".toList, name] ∧
      Lexical.resolve (partPath upload name) =
        (false, 0, ["upload".toList, name]) := by
  have hnul : '\x00' ∉ upload ++ '/' :: name := by
    have hfixed : '\x00' ∉ upload ++ ['/'] := by decide
    intro hmem
    rw [List.append_cons] at hmem
    rcases List.mem_append.mp hmem with hfront | hback
    · exact hfixed hfront
    · exact hname.no_nul hback
  have hpath : partPath upload name = upload ++ '/' :: name := by
    have hslash : upload ++ "/".toList ++ name = upload ++ '/' :: name := by
      simp
    rw [partPath, hslash, cStr_eq_self hnul]
  have hcomponents : Lexical.components (partPath upload name) =
      ["upload".toList, name] := by
    have hupload : Lexical.components upload = ["upload".toList] := by decide
    rw [hpath, Lexical.components_slash, hupload,
      Lexical.components_single hname.no_slash hname.ne_nil hdot]
    rfl
  have hrelative : Lexical.isAbsolute (partPath upload name) = false := by
    rw [hpath, Lexical.isAbsolute_append (by decide)]
    decide
  refine ⟨hpath, hcomponents, ?_⟩
  have hupload : Lexical.walk false (0, []) ["upload".toList] =
      (0, ["upload".toList]) := by decide
  have hname' : name ≠ Lexical.parent := hname.ne_dotDot
  rw [Lexical.resolve, hrelative, hcomponents,
    show ["upload".toList, name] = ["upload".toList] ++ [name] from rfl,
    Lexical.walk_append, hupload]
  simp only [Lexical.walk, List.foldl, Lexical.walkStep, if_neg hname']

theorem passable_partPath {disk : Disk} (h : disk.uploadReady) {name : Str}
    (hname : PlainPart name) (hdot : name ≠ ".".toList) :
    disk.passable (partPath upload name) = true := by
  obtain ⟨-, hcomponents, hresolve⟩ := components_partPath hname hdot
  have habsolute : Lexical.isAbsolute (partPath upload name) = false :=
    congrArg Prod.fst hresolve
  have hinits : (["upload".toList, name].inits).dropLast =
      [[], ["upload".toList]] := rfl
  have hupload : Lexical.walk false (0, []) ["upload".toList] =
      (0, ["upload".toList]) := by decide
  unfold passable
  rw [hcomponents, habsolute, hinits]
  simp only [List.all_cons, List.all_nil, Bool.and_true, Bool.and_eq_true,
    decide_eq_true_eq]
  refine ⟨rfl, ?_⟩
  rw [hupload]
  exact h.1

def uploadArea : UploadArea Disk upload where
  ready := uploadReady
  taking disk path := disk.uploadReady ∧
    ∃ content, disk.node? (Lexical.resolve path) = some (.file content)
  ne_nil := by decide
  stat disk h := by
    have hresolve : Lexical.resolve upload = (false, 0, ["upload".toList]) := by
      decide
    have hpassable : disk.passable upload = true := by
      have hinits : ((Lexical.components upload).inits).dropLast = [[]] := by
        decide
      unfold passable
      rw [hinits]
      simp [Lexical.walk, node?]
    have hfind : disk.find? upload = some .directory := by
      unfold find?
      rw [if_pos ⟨by decide, hpassable⟩, hresolve]
      exact h.1
    refine ⟨⟨.directory, true, true⟩, ?_, rfl, rfl⟩
    change (disk.find? upload).map _ = _
    rw [hfind]
    rfl
  openWrite disk name h hname hdot := by
    obtain ⟨hpath, -, hresolve⟩ := components_partPath hname hdot
    have hne : partPath upload name ≠ [] := by simp [hpath]
    have hfree := h.2 name
    refine ⟨disk.setNode (Lexical.resolve (partPath upload name)) (.file []),
      ?_, ?_, [], ?_⟩
    · change disk.openWrite (partPath upload name) = _
      unfold openWrite
      rw [if_neg (by simp [hne, passable_partPath h hname hdot]), hresolve]
      split
      · exact absurd ‹_› hfree
      · rfl
    · rw [hresolve]
      exact uploadReady_setNode h hfree []
    · exact disk.node?_setNode_self (by simp [hresolve]) _
  write disk path bytes h := by
    obtain ⟨hready, content, hcontent⟩ := h
    have hfile : disk.node? (Lexical.resolve path) ≠ some .directory := by
      simp [hcontent]
    rw [write_of_file bytes hcontent]
    exact ⟨⟨uploadReady_setNode hready hfile _, content ++ bytes,
      disk.node?_setNode_self (below_of_file hcontent) _⟩, Nat.le_refl _⟩
  done _ _ h := h.1

end Disk

/-! A part whose content does not end with a line break, and one whose content
is just one. -/

def uploadWorld : Disk := .ofDirectories [Disk.upload]

def plainFile (content : Str) : FilePart where
  filename := "a".toList
  content := content

def fileClient (content : Str) : Client :=
  (Client.connect 5 {}).setSRequest (encode "b".toList [plainFile content])

theorem uploadReady_uploadWorld : uploadWorld.uploadReady := by
  have hnodes : uploadWorld.nodes =
      [((false, 0, ["upload".toList]), .directory)] := by decide
  refine ⟨by decide, fun name => ?_⟩
  have hother : ((false, 0, ["upload".toList, name]) : Place) ≠
      (false, 0, ["upload".toList]) := by simp
  rw [Disk.node?, if_neg (by simp), hnodes, List.lookup_cons,
    beq_false_of_ne hother]
  simp

theorem plainBoundary_b : PlainBoundary "b".toList :=
  ⟨by decide, by decide, by decide⟩

theorem plainPart_a : PlainPart "a".toList :=
  ⟨by decide, by decide, by decide, by decide⟩

theorem plain_plainFile {content : Str}
    (habsent : search? (delimiter "b".toList) (plainFile content).text =
      none) :
    (plainFile content).Plain "b".toList where
  before_noBreak :=
    show '\n' ∉ " form-data; name=\"file\"; ".toList by decide
  firstName := by
    have hfirst : search? "filename=\"".toList ((plainFile content).front ++
        "filename=\"".toList) = some (plainFile content).front.length := by
      change search? "filename=\"".toList ((plainFile []).front ++
        "filename=\"".toList) = some (plainFile []).front.length
      decide +kernel
    exact (search?_eq_some_iff.mp hfirst).2.2
  filename := ⟨plainPart_a, show "a".toList ≠ ".".toList by decide⟩
  filename_noBreak := show '\n' ∉ "a".toList by decide
  filename_noQuote := show '"' ∉ "a".toList by decide
  after_noBreak := List.not_mem_nil
  headers _ hheader := absurd hheader List.not_mem_nil
  noDelimiter := search?_eq_none_iff.mp habsent

theorem roundTrip_iff_byte :
    RoundTrip (W := Disk) { world := uploadWorld } (fileClient "x".toList)
      Disk.upload [plainFile "x".toList] :=
  (@roundTrip_iff Disk _ _ Disk.uploadArea { world := uploadWorld }
    uploadReady_uploadWorld rfl _ rfl _ _ plainBoundary_b (by simp)
    (by simpa using plain_plainFile (by decide +kernel)) (by decide +kernel)
    rfl).mpr (by decide)

/-- A part whose content is one line break leaves an empty file. -/
theorem roundTrip_fails_newline :
    PlainBoundary "b".toList ∧ (plainFile "\n".toList).Plain "b".toList ∧
      (∃ process' client', boundary (W := Disk) { world := uploadWorld }
          (fileClient "\n".toList) = .ok (process', client') ∧
        process'.filesOf 5 = [⟨"./upload/a".toList, []⟩]) ∧
      ¬RoundTrip (W := Disk) { world := uploadWorld }
        (fileClient "\n".toList) Disk.upload [plainFile "\n".toList] := by
  have hplain : (plainFile "\n".toList).Plain "b".toList :=
    plain_plainFile (by decide +kernel)
  obtain ⟨process', client', hdecoded, -, hfiles⟩ :=
    @boundary_encode Disk _ _ Disk.uploadArea { world := uploadWorld }
      uploadReady_uploadWorld rfl (fileClient "\n".toList) rfl _ _
      plainBoundary_b (by simp) (by simpa using hplain) (by decide +kernel)
      rfl
  refine ⟨plainBoundary_b, hplain, ⟨process', client', hdecoded, hfiles⟩, ?_⟩
  rintro ⟨other, done, hother, -, hall⟩
  obtain ⟨rfl, -⟩ := Prod.mk.inj (Except.ok.inj (hdecoded.symm.trans hother))
  rw [hfiles] at hall
  revert hall
  decide +kernel

end Webserv
