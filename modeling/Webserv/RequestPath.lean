import Webserv.Response

namespace Webserv

open Cxx

/-! The request path: repeated slashes, the split at slashes, and the removal
of `..` components. -/

def removeslashes : Str → Str
  | [] => []
  | [c] => [c]
  | c :: d :: rest =>
      if c = '/' ∧ d = '/' then removeslashes (d :: rest)
      else c :: removeslashes (d :: rest)

/-- The scan of `ft_split` over the characters left, bounded by their number. -/
def ftSplitLoop (c : Char) : Nat → Str → List Str
  | 0, _ => []
  | _ + 1, [] => []
  | fuel + 1, x :: rest =>
      if x ≠ c then
        (x :: rest).takeWhile (· ≠ c) ::
          ftSplitLoop c fuel ((x :: rest).dropWhile (· ≠ c))
      else ftSplitLoop c fuel rest

def ftSplit (s : Str) (c : Char) : List Str :=
  ftSplitLoop c (cStr s).length (cStr s)

def dotDot : Str := "..".toList

/-- The first loop of `out_root_dir`. -/
def countDirs : List Str → Nat → Nat → Bool
  | [], _, _ => true
  | part :: rest, entry, sorty =>
      let sorty' := if part = dotDot then sorty + 1 else sorty
      let entry' := if part = dotDot then entry else entry + 1
      if sorty' > entry' then false else countDirs rest entry' sorty'

def popBack (vec : List Str) : Except Fault (List Str) :=
  if vec = [] then .error .badSlot else .ok vec.dropLast

/-- The second loop of `out_root_dir`. -/
def rebuildDirs : List Str → List Str → Except Fault (List Str)
  | [], vec => .ok vec
  | part :: rest, vec =>
      if part = dotDot then do
        let vec ← popBack (vec ++ [part])
        let vec ← popBack vec
        rebuildDirs rest vec
      else rebuildDirs rest (vec ++ [part])

/-- The components written one after the other with a slash between them. -/
def joinDirs : List Str → Str
  | [] => []
  | [part] => part
  | part :: rest => part ++ '/' :: joinDirs rest

/-- A component that a path may keep. -/
structure PlainPart (part : Str) : Prop where
  ne_nil : part ≠ []
  no_slash : '/' ∉ part
  no_nul : '\x00' ∉ part
  ne_dotDot : part ≠ dotDot

/-- The path without `..`, or nothing after a `400` answer. -/
def outRootDir {W : Type} [Os W] (world : W) (client : Client) (pa : Str) :
    Except Fault (Client × Option Str) := do
  let str := ftSplit pa '/'
  if countDirs str 0 0 then
    let vec ← rebuildDirs str []
    return (client, some ('/' :: joinDirs vec))
  else return (setResponseError world client 400, none)

theorem ftSplitLoop_parts (c : Char) (fuel : Nat) (s : Str) :
    ∀ part ∈ ftSplitLoop c fuel s,
      part ≠ [] ∧ c ∉ part ∧ ∀ x ∈ part, x ∈ s := by
  induction fuel generalizing s with
  | zero => simp [ftSplitLoop]
  | succ fuel ih =>
      cases s with
      | nil => simp [ftSplitLoop]
      | cons x rest =>
          intro part hpart
          rw [ftSplitLoop] at hpart
          by_cases hx : x ≠ c
          · rw [if_pos hx, List.mem_cons] at hpart
            rcases hpart with rfl | hpart
            · refine ⟨by simp [hx], ?_, ?_⟩
              · intro hc
                simpa using List.mem_takeWhile_imp hc
              · intro y hy
                exact List.takeWhile_subset _ hy
            · obtain ⟨hne, hc, hmem⟩ := ih _ part hpart
              refine ⟨hne, hc, ?_⟩
              intro y hy
              exact List.dropWhile_subset _ (hmem y hy)
          · rw [if_neg hx] at hpart
            obtain ⟨hne, hc, hmem⟩ := ih _ part hpart
            refine ⟨hne, hc, ?_⟩
            intro y hy
            exact List.mem_cons_of_mem _ (hmem y hy)

theorem popBack_ok {vec result : List Str} (h : popBack vec = .ok result) :
    result = vec.dropLast := by
  unfold popBack at h
  split at h
  · cases h
  · exact (Except.ok.inj h).symm

theorem rebuildDirs_mem {parts vec result : List Str}
    (h : rebuildDirs parts vec = .ok result) :
    ∀ part ∈ result, part ∈ vec ∨ part ∈ parts ∧ part ≠ dotDot := by
  induction parts generalizing vec with
  | nil =>
      intro part hpart
      exact .inl (Except.ok.inj h ▸ hpart)
  | cons first rest ih =>
      intro part hpart
      rw [rebuildDirs] at h
      by_cases hfirst : first = dotDot
      · rw [if_pos hfirst] at h
        obtain ⟨once, honce, h⟩ := bind_ok h
        obtain ⟨twice, htwice, h⟩ := bind_ok h
        rw [popBack_ok honce, List.dropLast_concat] at htwice
        rw [popBack_ok htwice] at h
        rcases ih h part hpart with hvec | ⟨hrest, hne⟩
        · exact .inl (List.dropLast_subset _ hvec)
        · exact .inr ⟨List.mem_cons_of_mem _ hrest, hne⟩
      · rw [if_neg hfirst] at h
        rcases ih h part hpart with hvec | ⟨hrest, hne⟩
        · rcases List.mem_append.mp hvec with hvec | hlast
          · exact .inl hvec
          · rw [List.mem_singleton] at hlast
            subst hlast
            exact .inr ⟨List.mem_cons_self, hfirst⟩
        · exact .inr ⟨List.mem_cons_of_mem _ hrest, hne⟩

/-- A resolved path is made of plain components, and nothing but a refusal
changes the client. -/
theorem outRootDir_ok {W : Type} [Os W] {world : W} {client client' : Client}
    {pa : Str} {resolved : Option Str}
    (h : outRootDir world client pa = .ok (client', resolved)) :
    (resolved = none ∧ client' = setResponseError world client 400) ∨
      ∃ parts, (∀ part ∈ parts, PlainPart part) ∧
        resolved = some ('/' :: joinDirs parts) ∧ client' = client := by
  unfold outRootDir at h
  simp only at h
  split at h
  · right
    obtain ⟨vec, hvec, h⟩ := bind_ok h
    obtain ⟨rfl, rfl⟩ := Prod.mk.inj (Except.ok.inj h)
    refine ⟨vec, ?_, rfl, rfl⟩
    intro part hpart
    rcases rebuildDirs_mem hvec part hpart with hnil | ⟨hmem, hne⟩
    · cases hnil
    · obtain ⟨hnonempty, hslash, hchars⟩ := ftSplitLoop_parts _ _ _ part hmem
      exact ⟨hnonempty, hslash,
        fun hnul => mem_cStr (hchars _ hnul) rfl, hne⟩
  · left
    obtain ⟨rfl, rfl⟩ := Prod.mk.inj (Except.ok.inj h)
    exact ⟨rfl, rfl⟩

theorem joinDirs_no_nul {parts : List Str}
    (h : ∀ part ∈ parts, PlainPart part) : '\x00' ∉ joinDirs parts := by
  induction parts with
  | nil => simp [joinDirs]
  | cons part rest ih =>
      have hpart := (h part List.mem_cons_self).no_nul
      have hrest := ih fun other hother =>
        h other (List.mem_cons_of_mem _ hother)
      cases rest with
      | nil => exact hpart
      | cons next rest => simp [joinDirs, hpart, hrest]

theorem joinDirs_eq_nil {parts : List Str}
    (h : ∀ part ∈ parts, PlainPart part) :
    joinDirs parts = [] ↔ parts = [] := by
  cases parts with
  | nil => simp [joinDirs]
  | cons part rest =>
      have hpart := (h part List.mem_cons_self).ne_nil
      cases rest <;> simp [joinDirs, hpart]

end Webserv
