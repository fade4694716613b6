import Webserv.Config.Refinement
import Webserv.Machine.Turns

namespace Webserv

open Cxx Coding Machine Reading

/-! The parser of the configuration comes to an end: its loops never run out of
turns, and no turn beyond those they take has a part in the result. -/

section Termination

variable {W : Type} [Os W] {world : W} {numbs : Nat → Int}

theorem fillRouteLoop_extends {fuel fuel' : Nat} (hle : fuel ≤ fuel')
    (route : RouteBlock) (cursor : Cursor) (words : List Str)
    (status : Bool) :
    Extends .diverges (fillRouteLoop world fuel route cursor words status)
      (fillRouteLoop world fuel' route cursor words status) := by
  induction fuel generalizing fuel' route cursor words status with
  | zero => exact .inl rfl
  | succ fuel ih =>
      obtain ⟨fuel', rfl⟩ := Nat.exists_eq_add_one_of_ne_zero
        (Nat.ne_of_gt (Nat.lt_of_lt_of_le (Nat.succ_pos _) hle))
      unfold fillRouteLoop
      apply Extends.ite (.refl _)
      apply Extends.ite (.refl _)
      cases words with
      | nil => exact .refl _
      | cons word args =>
          apply Extends.ite (.refl _)
          cases routeDirective world route (word :: args) with
          | none => exact .refl _
          | some filled =>
              apply Extends.bind (.refl _)
              intro words
              exact ih (Nat.le_of_succ_le_succ hle) ..

theorem fillRoute_extends {fuel fuel' : Nat} (hle : fuel ≤ fuel')
    (route : RouteBlock) (cursor : Cursor) :
    Extends .diverges (fillRoute world fuel route cursor)
      (fillRoute world fuel' route cursor) := by
  apply Extends.bind (.refl _)
  intro words
  exact fillRouteLoop_extends hle ..

theorem parsRoutes_extends {fuel fuel' : Nat} (hle : fuel ≤ fuel')
    (routes : List RouteBlock) (cursor : Cursor) (status : Bool) :
    Extends .diverges (parsRoutes world fuel routes cursor status)
      (parsRoutes world fuel' routes cursor status) := by
  induction fuel generalizing fuel' routes cursor status with
  | zero => exact .inl rfl
  | succ fuel ih =>
      obtain ⟨fuel', rfl⟩ := Nat.exists_eq_add_one_of_ne_zero
        (Nat.ne_of_gt (Nat.lt_of_lt_of_le (Nat.succ_pos _) hle))
      have hless := Nat.le_of_succ_le_succ hle
      unfold parsRoutes
      apply Extends.ite (.refl _)
      apply Extends.ite (.refl _)
      apply Extends.bind (.refl _)
      intro words
      apply Extends.bind (.refl _)
      intro first
      cases first with
      | ends => exact .refl _
      | invalid => exact .refl _
      | opens uri rest =>
          apply Extends.bind (fillRoute_extends hless ..)
          intro filled
          apply Extends.ite (.refl _)
          exact ih hless ..

theorem fillRestLoop_extends {fuel fuel' : Nat} (hle : fuel ≤ fuel')
    (server : ServerBlock) (cursor : Cursor) (words : List Str)
    (status : Bool) :
    Extends .diverges
      (fillRestLoop world numbs fuel server cursor words status)
      (fillRestLoop world numbs fuel' server cursor words status) := by
  induction fuel generalizing fuel' server cursor words status with
  | zero => exact .inl rfl
  | succ fuel ih =>
      obtain ⟨fuel', rfl⟩ := Nat.exists_eq_add_one_of_ne_zero
        (Nat.ne_of_gt (Nat.lt_of_lt_of_le (Nat.succ_pos _) hle))
      have hless := Nat.le_of_succ_le_succ hle
      unfold fillRestLoop
      apply Extends.ite (.refl _)
      apply Extends.ite (.refl _)
      cases words with
      | nil => exact .refl _
      | cons word args =>
          apply Extends.ite (.refl _)
          apply Extends.ite
          · apply Extends.bind (parsRoutes_extends hless ..)
            intro located
            apply Extends.bind (.refl _)
            intro words
            exact ih hless ..
          cases serverDirective world (numbs (cursor.lines.length - cursor.i))
              server (word :: args) with
          | none => exact .refl _
          | some filled =>
              apply Extends.bind (.refl _)
              intro words
              exact ih hless ..

theorem parsServer_extends {fuel fuel' : Nat} (hle : fuel ≤ fuel')
    (cursor : Cursor) :
    Extends .diverges (parsServer world numbs fuel cursor)
      (parsServer world numbs fuel' cursor) := by
  unfold parsServer
  apply Extends.bind (.refl _)
  intro line
  apply Extends.bind (.refl _)
  intro text
  cases text with
  | none => exact .refl _
  | some rest =>
      apply Extends.bind
      · apply Extends.bind (.refl _)
        intro words
        exact fillRestLoop_extends hle ..
      · exact fun _ => .refl _

theorem setServerLoop_extends {fuel fuel' : Nat} (hle : fuel ≤ fuel')
    (conf : Confile) (cursor : Cursor) :
    Extends .diverges (setServerLoop world numbs fuel conf cursor)
      (setServerLoop world numbs fuel' conf cursor) := by
  induction fuel generalizing fuel' conf cursor with
  | zero => exact .inl rfl
  | succ fuel ih =>
      obtain ⟨fuel', rfl⟩ := Nat.exists_eq_add_one_of_ne_zero
        (Nat.ne_of_gt (Nat.lt_of_lt_of_le (Nat.succ_pos _) hle))
      have hless := Nat.le_of_succ_le_succ hle
      unfold setServerLoop
      apply Extends.ite (.refl _)
      apply Extends.bind (.refl _)
      intro words
      apply Extends.ite (.refl _)
      apply Extends.bind (parsServer_extends hless ..)
      intro parsed
      apply Extends.ite
      · exact ih hless ..
      · exact .refl _

theorem Concludes.ne_diverges {reading : Reading}
    {result : Except Fault Confile} (h : Concludes world numbs reading result) :
    result ≠ .error .diverges := by
  rintro rfl
  exact h

/-- `set_server` ends: no loop takes more turns than the parts have characters
that are no blanks, with one for each part and one at the end, and turns beyond
those change nothing. -/
theorem setServer_ends (world : W) (numbs : Nat → Int) (parts : List Str) :
    setServer world numbs parts ≠ .error .diverges ∧
      setServerLoop (setDefaultPage world).1 numbs (extent parts + 1) {}
        ⟨parts, 0⟩ ≠ .error .diverges ∧
      ∀ more, setServerLoop (setDefaultPage world).1 numbs
          (extent parts + 1 + more) {} ⟨parts, 0⟩ =
        setServerLoop (setDefaultPage world).1 numbs (extent parts + 1) {}
          ⟨parts, 0⟩ := by
  have hends (world' : W) : setServerLoop world' numbs (extent parts + 1) {}
      ⟨parts, 0⟩ ≠ .error .diverges :=
    (@setServerLoop_concludes W _ world' numbs (extent parts + 1) []
      ⟨parts, 0⟩ (Nat.lt_succ_self _)).ne_diverges
  refine ⟨?_, hends _, fun more => ?_⟩
  · cases hpage : setDefaultPage world with
    | mk world' found =>
        cases found with
        | false =>
            unfold setServer
            rw [hpage]
            exact nofun
        | true =>
            have hsame := (@setServerLoop_extends W _ world' numbs
              (extent parts + 1) (turns parts) (extent_lt_turns parts) {}
              ⟨parts, 0⟩).eq_of_ne (hends world')
            rw [setServer_of_page hpage, hsame]
            intro hdiverges
            cases hloop : setServerLoop world' numbs (extent parts + 1) {}
                ⟨parts, 0⟩ with
            | error fault =>
                rw [hloop] at hdiverges
                refine hends world' ?_
                rw [hloop, Except.error.inj hdiverges]
            | ok conf =>
                rw [hloop] at hdiverges
                cases hdiverges
  · exact (setServerLoop_extends (Nat.le_add_right ..) {}
      ⟨parts, 0⟩).eq_of_ne (hends _)

end Termination

end Webserv
