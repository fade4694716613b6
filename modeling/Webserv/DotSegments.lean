import Webserv.ParseGate
import Webserv.Machine.Cancel

namespace Webserv

open Cxx
open Machine

/-! The components of a request path, and what `out_root_dir` makes of
them. -/

def pathNames (path : Str) : List Str :=
  ((cStr path).splitOn '/').filter (· ≠ [])

def isParent (part : Str) : Bool := part = dotDot

/-! What `ft_split` and `removeslashes` make of slashes. -/

theorem splitOn_first {c : Char} {front : Str} (h : c ∉ front) (back : Str) :
    (front ++ c :: back).splitOn c = front :: back.splitOn c := by
  rw [List.splitOn_append_cons_self, List.splitOn_eq_singleton h]
  rfl

theorem ftSplitLoop_eq {c : Char} {fuel : Nat} {s : Str}
    (hfuel : s.length ≤ fuel) :
    ftSplitLoop c fuel s = (s.splitOn c).filter (· ≠ []) := by
  induction fuel generalizing s with
  | zero =>
      obtain rfl := List.length_eq_zero_iff.mp (Nat.le_zero.mp hfuel)
      simp [ftSplitLoop]
  | succ fuel ih =>
      cases s with
      | nil => simp [ftSplitLoop]
      | cons x rest =>
          have hrest : rest.length ≤ fuel := by
            simpa using hfuel
          rw [ftSplitLoop]
          by_cases hx : x = c
          · subst hx
            rw [if_neg (not_not_intro rfl), ih hrest]
            have hsplit := @splitOn_first x [] (by simp) rest
            rw [List.nil_append] at hsplit
            rw [hsplit, List.filter_cons_of_neg (by simp)]
          · rw [if_pos hx]
            have hname : c ∉ (x :: rest).takeWhile (· ≠ c) := by
              intro hmem
              simpa using List.mem_takeWhile_imp hmem
            have hne : (x :: rest).takeWhile (· ≠ c) ≠ [] := by
              simp [hx]
            have hcover : x :: rest = (x :: rest).takeWhile (· ≠ c) ++
                (x :: rest).dropWhile (· ≠ c) :=
              List.takeWhile_append_dropWhile.symm
            have hlength : ((x :: rest).dropWhile (· ≠ c)).length ≤ fuel := by
              have hpositive := List.length_pos_iff.mpr hne
              have htotal := congrArg List.length hcover
              rw [List.length_append] at htotal
              rw [List.length_cons] at htotal
              omega
            rw [ih hlength]
            generalize (x :: rest).takeWhile (· ≠ c) = name at *
            cases hback : (x :: rest).dropWhile (· ≠ c) with
            | nil =>
                rw [hback, List.append_nil] at hcover
                rw [hcover, List.splitOn_eq_singleton hname]
                simp [hne]
            | cons d back =>
                have hd : d = c := by
                  have hhead := List.head_dropWhile_not (· ≠ c)
                    (l := x :: rest) (by rw [hback]; simp)
                  simp only [hback, List.head_cons] at hhead
                  simpa using hhead
                subst hd
                rw [hback] at hcover
                have hsplit := @splitOn_first d [] (by simp) back
                rw [List.nil_append] at hsplit
                rw [hcover, splitOn_first hname, hsplit,
                  List.filter_cons_of_neg (by simp),
                  List.filter_cons_of_pos (by simpa using hne)]

theorem ftSplit_eq (path : Str) : ftSplit path '/' = pathNames path :=
  ftSplitLoop_eq (Nat.le_refl _)

theorem cStr_append_of_mem {front : Str} (h : '\x00' ∈ front) (back : Str) :
    cStr (front ++ back) = cStr front := by
  unfold cStr
  rw [List.takeWhile_append, if_neg]
  intro hlength
  have hall := (List.takeWhile_prefix (· ≠ '\x00')).eq_of_length hlength
  rw [← hall] at h
  simpa using List.mem_takeWhile_imp h

theorem pathNames_slash {front : Str} (h : '\x00' ∉ front) (back : Str) :
    pathNames (front ++ '/' :: back) = pathNames front ++ pathNames back := by
  have hcut : cStr (front ++ '/' :: back) = front ++ '/' :: cStr back := by
    have hself : front.takeWhile (· ≠ '\x00') = front := cStr_eq_self h
    unfold cStr
    rw [List.takeWhile_append, hself, if_pos rfl,
      List.takeWhile_cons_of_pos (by decide)]
  unfold pathNames
  rw [hcut, List.splitOn_append_cons_self, List.filter_append,
    cStr_eq_self h]

theorem pathNames_append_removeslashes (front path : Str) :
    pathNames (front ++ removeslashes path) = pathNames (front ++ path) := by
  induction path using removeslashes.induct generalizing front with
  | case1 => rfl
  | case2 c => rfl
  | case3 c d rest hslashes ih =>
      obtain ⟨rfl, rfl⟩ := hslashes
      rw [removeslashes, if_pos ⟨rfl, rfl⟩, ih]
      by_cases hnul : '\x00' ∈ front
      · unfold pathNames
        rw [cStr_append_of_mem hnul, cStr_append_of_mem hnul]
      · have hempty := @pathNames_slash [] (by simp) rest
        rw [List.nil_append] at hempty
        rw [pathNames_slash hnul, pathNames_slash hnul, hempty]
        rfl
  | case4 c d rest hslashes ih =>
      rw [removeslashes, if_neg hslashes]
      have hnext := ih (front ++ [c])
      rwa [List.append_assoc, List.append_assoc] at hnext

theorem pathNames_removeslashes (path : Str) :
    pathNames (removeslashes path) = pathNames path :=
  pathNames_append_removeslashes [] path

theorem pathNames_single {part : Str} (h : PlainPart part) :
    pathNames part = [part] := by
  unfold pathNames
  rw [cStr_eq_self h.no_nul, List.splitOn_eq_singleton h.no_slash]
  simp [h.ne_nil]

theorem pathNames_joinDirs {parts : List Str}
    (h : ∀ part ∈ parts, PlainPart part) :
    pathNames ('/' :: joinDirs parts) = parts := by
  have hslash : ∀ back, pathNames ('/' :: back) = pathNames back :=
    fun back => @pathNames_slash [] (by simp) back
  rw [hslash]
  induction parts with
  | nil => decide
  | cons part rest ih =>
      have hpart := h part List.mem_cons_self
      have hrest := ih fun other hother =>
        h other (List.mem_cons_of_mem _ hother)
      cases rest with
      | nil => exact pathNames_single hpart
      | cons next rest =>
          rw [joinDirs, pathNames_slash hpart.no_nul, hrest,
            pathNames_single hpart]
          rfl
          · simp

/-! Both loops of `out_root_dir` as one stack. -/

theorem countDirs_iff {parts vec : List Str} {entry sorty : Nat}
    (hlength : vec.length + sorty = entry) :
    countDirs parts entry sorty = true ↔
      (cancel isParent vec parts).isSome := by
  induction parts generalizing vec entry sorty with
  | nil => simp [countDirs, cancel]
  | cons part rest ih =>
      rw [countDirs]
      by_cases hpart : part = dotDot
      · have hcloses : isParent part = true := by simp [isParent, hpart]
        simp only [if_pos hpart]
        rcases List.eq_nil_or_concat vec with rfl | ⟨front, top, rfl⟩
        · rw [cancel_close_nil hcloses, if_pos (by
            rw [List.length_nil] at hlength
            omega)]
          simp
        · rw [List.concat_eq_append] at hlength ⊢
          rw [List.length_append, List.length_singleton] at hlength
          rw [cancel_close hcloses, if_neg (by omega)]
          exact ih (by omega)
      · have hopens : isParent part = false := by simp [isParent, hpart]
        simp only [if_neg hpart]
        rw [cancel_open hopens, if_neg (by omega)]
        refine ih ?_
        rw [List.length_append, List.length_singleton]
        omega

theorem rebuildDirs_eq {parts vec : List Str} :
    rebuildDirs parts vec =
      match cancel isParent vec parts with
      | some result => .ok result
      | none => .error .badSlot := by
  induction parts generalizing vec with
  | nil => rfl
  | cons part rest ih =>
      rw [rebuildDirs]
      by_cases hpart : part = dotDot
      · have hcloses : isParent part = true := by simp [isParent, hpart]
        rw [if_pos hpart, popBack_concat]
        rcases List.eq_nil_or_concat vec with rfl | ⟨front, top, rfl⟩
        · rw [cancel_close_nil hcloses]
          rfl
        · rw [List.concat_eq_append, cancel_close hcloses]
          change (popBack (front ++ [top]) >>= rebuildDirs rest) = _
          rw [popBack_concat]
          exact ih
      · have hopens : isParent part = false := by simp [isParent, hpart]
        rw [if_neg hpart, cancel_open hopens]
        exact ih

theorem outRootDir_eq {W : Type} [Os W] (world : W) (client : Client)
    (path : Str) :
    outRootDir world client path =
      match cancel isParent [] (pathNames path) with
      | some vec => .ok (client, some ('/' :: joinDirs vec))
      | none => .ok (setResponseError world client 400, none) := by
  have hcount := @countDirs_iff (pathNames path) [] 0 0 rfl
  unfold outRootDir
  simp only [ftSplit_eq, rebuildDirs_eq]
  cases hstack : cancel isParent [] (pathNames path) with
  | none =>
      rw [hstack] at hcount
      rw [if_neg (by rw [hcount]; simp)]
      rfl
  | some vec =>
      rw [hstack] at hcount
      rw [if_pos (hcount.mpr rfl)]
      rfl

theorem plainPart_of_pathNames {path part : Str}
    (h : part ∈ pathNames path) (hne : part ≠ dotDot) : PlainPart part := by
  rw [← ftSplit_eq] at h
  obtain ⟨hnonempty, hslash, hchars⟩ := ftSplitLoop_parts _ _ _ part h
  exact ⟨hnonempty, hslash, fun hnul => mem_cStr (hchars _ hnul) rfl, hne⟩

theorem plainPart_of_cancel {path : Str} {vec : List Str}
    (h : cancel isParent [] (pathNames path) = some vec) :
    ∀ part ∈ vec, PlainPart part := by
  intro part hpart
  have hmem := (cancel_sublist h).subset hpart
  rw [List.nil_append] at hmem
  refine plainPart_of_pathNames hmem fun hparent => ?_
  rcases cancel_mem h part hpart with hnil | hopens
  · cases hnil
  · simp [isParent, hparent] at hopens

theorem closed_isParent (parts : List Str) :
    closed isParent parts = parts.countP (· = dotDot) := by
  rfl

theorem opened_isParent (parts : List Str) :
    opened isParent parts = parts.countP (· ≠ dotDot) := by
  unfold opened
  congr 1
  funext part
  simp [isParent]

/-- A path that the counting loop accepts: the rebuilding loop never takes
from an empty vector, whose size is the difference of the two counts all the
way, and the path it ends with is in normal form. -/
theorem outRootDir_stack {path : Str}
    (h : countDirs (ftSplit path '/') 0 0 = true) :
    (∀ front, front <+: ftSplit path '/' →
      ∃ vec, rebuildDirs front [] = .ok vec ∧
        vec.length + front.countP (· = dotDot) =
          front.countP (· ≠ dotDot)) ∧
    ∃ parts, (∀ part ∈ parts, PlainPart part) ∧
      ∀ {W : Type} [Os W] (world : W) (client : Client),
        outRootDir world client path =
          .ok (client, some ('/' :: joinDirs parts)) ∧
        outRootDir world client ('/' :: joinDirs parts) =
          .ok (client, some ('/' :: joinDirs parts)) := by
  rw [ftSplit_eq] at h ⊢
  have hsome := (@countDirs_iff (pathNames path) [] 0 0 rfl).mp h
  constructor
  · intro front hfront
    -- a beginning of what is covered is covered
    have hcovered : Covered isParent front := fun begins hbegins =>
      covered_iff.mpr hsome begins (hbegins.trans hfront)
    obtain ⟨vec, hvec⟩ :=
      Option.isSome_iff_exists.mp (covered_iff.mp hcovered)
    refine ⟨vec, by rw [rebuildDirs_eq, hvec], ?_⟩
    have hheight := cancel_length hvec
    rw [List.length_nil, Nat.zero_add] at hheight
    rw [← closed_isParent, ← opened_isParent]
    exact hheight
  · obtain ⟨parts, hparts⟩ := Option.isSome_iff_exists.mp hsome
    have hplain := plainPart_of_cancel hparts
    refine ⟨parts, hplain, fun world client => ⟨?_, ?_⟩⟩
    · rw [outRootDir_eq, hparts]
    · rw [outRootDir_eq, pathNames_joinDirs hplain, cancel_opens]
      · rfl
      · intro part hpart
        simp [isParent, (hplain part hpart).ne_dotDot]

theorem outRootDir_stack_up :
    countDirs (ftSplit "/a/../b".toList '/') 0 0 = true ∧
      ∃ vec, rebuildDirs ["a".toList, "..".toList] [] = .ok vec ∧
        vec.length + 1 = 1 := by
  have hcounts : countDirs (ftSplit "/a/../b".toList '/') 0 0 = true := by
    decide
  obtain ⟨vec, hvec, hsize⟩ := (outRootDir_stack hcounts).1
    ["a".toList, "..".toList] (by decide)
  exact ⟨hcounts, vec, hvec, hsize⟩

/-! The walk that the components of a path stand for. -/

/-- Where components lead: "." stays, ".." goes to the parent, and nothing is
above the root. -/
def climb : List Str → List Str → Option (List Str)
  | here, [] => some here
  | here, part :: rest =>
      if part = ".".toList then climb here rest
      else if part = dotDot then
        if here.isEmpty then none else climb here.dropLast rest
      else climb (here ++ [part]) rest

def notDot (part : Str) : Bool := part ≠ ".".toList

theorem notDot_of_isParent (part : Str) (h : isParent part = true) :
    notDot part = true := by
  have hpart : part = dotDot := by simpa [isParent] using h
  rw [hpart]
  decide

theorem climb_eq (here parts : List Str) :
    climb here parts = cancel isParent here (parts.filter notDot) := by
  induction parts generalizing here with
  | nil => rfl
  | cons part rest ih =>
      rw [climb]
      by_cases hdot : part = ".".toList
      · rw [if_pos hdot, List.filter_cons_of_neg (by simp [notDot, hdot]), ih]
      · rw [if_neg hdot, List.filter_cons_of_pos (by simpa [notDot] using hdot),
          cancel]
        by_cases hparent : part = dotDot
        · have hcloses : isParent part = true := by simp [isParent, hparent]
          simp only [if_pos hparent, if_pos hcloses, ih]
        · have hopens : ¬isParent part = true := by simp [isParent, hparent]
          simp only [if_neg hparent, if_neg hopens, ih]

/-- The request path is refused where its components lead above the root, and
otherwise names what they lead to, in every tree without symbolic links. -/
structure MeaningKept {W : Type} [Os W] (world : W) (client : Client)
    (path : Str) : Prop where
  refused : (∃ client', outRootDir world client (removeslashes path) =
      .ok (client', none)) ↔
    climb [] (pathNames path) = none
  sameNode : ∀ client' resolved,
    outRootDir world client (removeslashes path) =
        .ok (client', some resolved) →
      ∀ {Node : Type} (tree : List Str → Option Node),
        (climb [] (pathNames resolved)).bind tree =
          (climb [] (pathNames path)).bind tree

/-- A path with more ".." than other components in front of one of its
components, or one in which no ".." takes a "." away. -/
def DotsKept (path : Str) : Prop :=
  ¬Covered isParent (pathNames path) ∨
    ClosesKept isParent notDot (pathNames path)

theorem climb_of_plain {vec : List Str}
    (h : ∀ part ∈ vec, PlainPart part) :
    climb [] vec = some (vec.filter notDot) := by
  rw [climb_eq, cancel_opens, List.nil_append]
  intro part hpart
  have hplain := h part (List.mem_filter.mp hpart).1
  simp [isParent, hplain.ne_dotDot]

theorem meaningKept_iff {W : Type} [Os W] (world : W) (client : Client)
    (path : Str) : MeaningKept world client path ↔ DotsKept path := by
  have hresolved := outRootDir_eq world client (removeslashes path)
  rw [pathNames_removeslashes] at hresolved
  unfold DotsKept
  rw [covered_iff]
  cases hstack : cancel isParent [] (pathNames path) with
  | none =>
      rw [hstack] at hresolved
      have habove : climb [] (pathNames path) = none := by
        rw [climb_eq]
        exact cancel_filter_none notDot_of_isParent hstack
      refine ⟨fun _ => .inl (by simp), fun _ => ⟨?_, ?_⟩⟩
      · exact ⟨fun _ => habove, fun _ => ⟨_, hresolved⟩⟩
      · intro client' resolved hsome
        rw [hresolved] at hsome
        cases (Prod.mk.inj (Except.ok.inj hsome)).2
  | some vec =>
      rw [hstack] at hresolved
      have hplain := plainPart_of_cancel hstack
      rw [← cancel_filter_iff notDot_of_isParent hstack, ← climb_eq]
      constructor
      · intro h
        right
        have hsame := h.sameNode client _ hresolved some
        rw [pathNames_joinDirs hplain, climb_of_plain hplain] at hsame
        rw [Option.bind_some, Option.bind_fun_some] at hsame
        exact hsame.symm
      · rintro (hnone | hsame)
        · exact absurd rfl hnone
        refine ⟨?_, ?_⟩
        · rw [hsame, hresolved]
          simp
        · intro client' resolved hsome Node tree
          rw [hresolved] at hsome
          obtain rfl :=
            Option.some.inj (Prod.mk.inj (Except.ok.inj hsome)).2
          rw [pathNames_joinDirs hplain, climb_of_plain hplain, hsame]

/-- A "." counts as a name: the path is taken for one that stays below the
root. -/
theorem meaningKept_fails_dot :
    ¬MeaningKept (W := Disk) ⟨[]⟩ (Client.connect 5 {}) "/./..".toList := by
  intro h
  have habove : climb [] (pathNames "/./..".toList) = none := by decide
  obtain ⟨client', hrefused⟩ := h.refused.mpr habove
  have hresolved : outRootDir (W := Disk) ⟨[]⟩ (Client.connect 5 {})
      (removeslashes "/./..".toList) =
        .ok (Client.connect 5 {}, some "/".toList) := by decide
  rw [hresolved] at hrefused
  cases (Prod.mk.inj (Except.ok.inj hrefused)).2

end Webserv
