import Webserv.Coding.Lines
import Webserv.Upload

namespace Webserv

open Cxx

/-! Multipart bodies, as a client puts them together. -/

structure FilePart where
  /-- The first line in front of the file name. -/
  before : Str := " form-data; name=\"file\"; ".toList
  filename : Str
  /-- The first line behind the file name. -/
  after : Str := []
  /-- The other lines of the part's head. -/
  headers : List Str := []
  content : Str
  deriving DecidableEq, Repr

def endOfLine : Str := "\r\n".toList

def delimiter (boundary : Str) : Str := "--".toList ++ boundary

namespace FilePart

/-- The first line up to the parameter with the file name. -/
def front (part : FilePart) : Str :=
  "Content-Disposition:".toList ++ part.before

def disposition (part : FilePart) : Str :=
  part.front ++ "filename=\"".toList ++
    (part.filename ++ '"' :: part.after)

def head (part : FilePart) : Str :=
  ((part.disposition :: part.headers).map (· ++ endOfLine)).flatten ++
    endOfLine

def text (part : FilePart) : Str := part.head ++ part.content

/-- What a part must look like for its file name and its end to be found. -/
structure Plain (boundary : Str) (part : FilePart) : Prop where
  before_noBreak : '\n' ∉ part.before
  firstName : ∀ earlier < part.front.length,
    ¬OccursAt "filename=\"".toList (part.front ++ "filename=\"".toList)
      earlier
  filename : PlainPart part.filename ∧ part.filename ≠ ".".toList
  filename_noBreak : '\n' ∉ part.filename
  filename_noQuote : '"' ∉ part.filename
  after_noBreak : '\n' ∉ part.after
  headers : ∀ header ∈ part.headers, header ≠ [] ∧ '\n' ∉ header
  noDelimiter : ¬delimiter boundary <:+: part.text

end FilePart

def enclosed (boundary : Str) : List FilePart → Str
  | [] => []
  | part :: rest =>
      endOfLine ++ (part.text ++ endOfLine ++ delimiter boundary ++
        enclosed boundary rest)

def encode (boundary : Str) (parts : List FilePart) : Str :=
  delimiter boundary ++ enclosed boundary parts ++ "--".toList ++ endOfLine

/-- A boundary is the rest of a line behind two hyphens. -/
structure PlainBoundary (boundary : Str) : Prop where
  ne_nil : boundary ≠ []
  noBreak : '\n' ∉ boundary
  noReturn : '\r' ∉ boundary

theorem PlainBoundary.disjoint {boundary : Str} (h : PlainBoundary boundary) :
    ∀ c ∈ endOfLine, c ∉ delimiter boundary := by
  have hlines : endOfLine = ['\r', '\n'] := rfl
  intro c hc hmem
  rw [hlines] at hc
  simp only [delimiter, List.mem_append] at hmem
  rcases hmem with hhyphen | hboundary
  · have heq : c = '-' := by simpa using hhyphen
    subst heq
    simp at hc
  · simp only [List.mem_cons, List.not_mem_nil, or_false] at hc
    rcases hc with rfl | rfl
    · exact h.noReturn hboundary
    · exact h.noBreak hboundary

theorem delimiter_ne_nil (boundary : Str) : delimiter boundary ≠ [] := by
  simp [delimiter]

/-! What `create_file` reads in a part's head. -/

namespace FilePart

variable {boundary : Str} {part : FilePart}

theorem Plain.disposition_noBreak (h : part.Plain boundary) :
    '\n' ∉ part.disposition := by
  have hfixed : '\n' ∉ "Content-Disposition:".toList := by decide
  have hname : '\n' ∉ "filename=\"".toList := by decide
  have happend : ∀ front back : Str, '\n' ∉ front → '\n' ∉ back →
      '\n' ∉ front ++ back := by
    intro front back hfront hback
    simp [hfront, hback]
  have hrest : '\n' ∉ '"' :: part.after := by simp [h.after_noBreak]
  exact happend _ _ (happend _ _ (happend _ _ hfixed h.before_noBreak) hname)
    (happend _ _ h.filename_noBreak hrest)

theorem Plain.getlines_head (h : part.Plain boundary) (content : Str) :
    getlines (part.head ++ content) =
      (part.disposition :: part.headers).map (· ++ ['\r']) ++
        ['\r'] :: getlines content := by
  have hlines : ∀ line ∈ part.disposition :: part.headers,
      '\n' ∉ line := by
    intro line hline
    rcases List.mem_cons.mp hline with rfl | hheader
    · exact h.disposition_noBreak
    · exact (h.headers line hheader).2
  have hsplit : part.head ++ content =
      ((part.disposition :: part.headers).map (· ++ endOfLine)).flatten ++
        (['\r'] ++ '\n' :: content) := by
    simp [head, endOfLine]
  rw [hsplit]
  refine (Coding.getlines_joinCrlf _ hlines).trans ?_
  rw [getlines_line_append (by decide)]

theorem Plain.partHead_eq (h : part.Plain boundary) (content : Str) :
    partHead (part.head ++ content) = .ok (.named part.filename) := by
  have hline : (getlines (part.head ++ content)).headD [] =
      part.disposition ++ ['\r'] := by
    rw [h.getlines_head]
    rfl
  have hstart : (search? "Content-Disposition:".toList
      (part.disposition ++ ['\r'])).isSome = true := by
    have hstarts : ∀ start key : Str, start <+: start ++ part.before ++ key ++
        (part.filename ++ '"' :: part.after) ++ ['\r'] := by
      intro start key
      simp only [List.append_assoc]
      exact List.prefix_append _ _
    exact search?_isSome_iff.mpr (hstarts _ _).isInfix
  have hsplit : ∀ key : Str,
      part.front ++ key ++ (part.filename ++ '"' :: part.after) ++ ['\r'] =
        part.front ++ key ++
          (part.filename ++ '"' :: (part.after ++ ['\r'])) := by
    intro key
    simp
  have hkey : ("filename=\"".toList).length = 10 := by decide
  have hname := search?_append_pattern
    (part.filename ++ '"' :: (part.after ++ ['\r'])) h.firstName
  unfold partHead
  rw [hline, if_pos hstart, disposition, hsplit, hname]
  generalize "filename=\"".toList = key at *
  have hdrop : (part.front ++ key ++
      (part.filename ++ '"' :: (part.after ++ ['\r']))).drop
        (part.front.length + 10) =
      part.filename ++ '"' :: (part.after ++ ['\r']) := by
    rw [← hkey, ← List.length_append, List.drop_left]
  have hbound : part.front.length + 10 ≤ (part.front ++ key ++
      (part.filename ++ '"' :: (part.after ++ ['\r']))).length := by
    simp only [List.length_append, hkey]
    omega
  have hquote : searchFrom? "\"".toList (part.front ++ key ++
      (part.filename ++ '"' :: (part.after ++ ['\r'])))
        (part.front.length + 10) =
      some (part.filename.length + (part.front.length + 10)) := by
    rw [searchFrom?, if_pos hbound, hdrop,
      show "\"".toList = ['"'] from rfl, search?_first h.filename_noQuote]
    rfl
  simp only [hquote]
  rw [substr_ok hbound, hdrop, Nat.add_sub_cancel, List.take_left]
  rfl

theorem Plain.partContent_eq (h : part.Plain boundary) (content : Str) :
    partContent (part.head ++ content) = dropFinalNewline content := by
  have hheaders : ∀ line ∈ part.headers.map (· ++ ['\r']),
      decide (line ≠ [] ∧ line ≠ "\r".toList) = true := by
    intro line hline
    obtain ⟨header, hheader, rfl⟩ := List.mem_map.mp hline
    have hne := (h.headers header hheader).1
    simp [hne]
  unfold partContent
  rw [h.getlines_head, List.map_cons, List.cons_append, List.tail_cons,
    List.dropWhile_append_of_pos hheaders,
    List.dropWhile_cons_of_neg (by simp), List.tail_cons,
    joinLines_getlines]

end FilePart

end Webserv
