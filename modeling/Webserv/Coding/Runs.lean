import Mathlib.Data.List.TakeWhile

namespace Webserv.Coding

/-! The runs of a list between separators: the stretches without a separator
that cannot be made longer. -/

variable {α : Type} {separator : α}

/-- A stretch of a list without the separator, as long as it can be. -/
structure IsRun (separator : α) (list : List α) (start : Nat)
    (run : List α) : Prop where
  ne_nil : run ≠ []
  noSeparator : separator ∉ run
  longest : ∃ before after, list = before ++ run ++ after ∧
    before.length = start ∧ (∀ x ∈ before.getLast?, x = separator) ∧
    ∀ x ∈ after.head?, x = separator

/-- The runs of a list that stands behind so many elements, with where they
start. -/
inductive Runs (separator : α) : Nat → List α → List (Nat × List α) → Prop
  | nil (start : Nat) : Runs separator start [] []
  | separator {start : Nat} {rest : List α} {placed : List (Nat × List α)} :
      Runs separator (start + 1) rest placed →
      Runs separator start (separator :: rest) placed
  | run {start : Nat} {run rest : List α} {placed : List (Nat × List α)} :
      run ≠ [] → separator ∉ run → (∀ x ∈ rest.head?, x = separator) →
      Runs separator (start + run.length) rest placed →
      Runs separator start (run ++ rest) ((start, run) :: placed)

namespace Runs

variable {start : Nat} {list : List α} {placed : List (Nat × List α)}

theorem exists_of_length [DecidableEq α] (separator : α) (length start : Nat)
    (list : List α) (h : list.length ≤ length) :
    ∃ placed, Runs separator start list placed := by
  induction length generalizing start list with
  | zero =>
      obtain rfl := List.length_eq_zero_iff.mp (Nat.le_zero.mp h)
      exact ⟨[], .nil start⟩
  | succ length ih =>
      cases list with
      | nil => exact ⟨[], .nil start⟩
      | cons x rest =>
          by_cases hx : x = separator
          · subst hx
            obtain ⟨placed, hplaced⟩ := ih (start + 1) rest (by simpa using h)
            exact ⟨placed, .separator hplaced⟩
          · have hcover := List.takeWhile_append_dropWhile
              (p := (· ≠ separator)) (l := x :: rest)
            have htake : (x :: rest).takeWhile (· ≠ separator) ≠ [] := by
              simp [hx]
            have hshorter := congrArg List.length hcover
            have hpositive := List.length_pos_iff.mpr htake
            rw [List.length_append] at hshorter
            obtain ⟨placed, hplaced⟩ := ih
              (start + ((x :: rest).takeWhile (· ≠ separator)).length)
              ((x :: rest).dropWhile (· ≠ separator)) (by omega)
            rw [← hcover]
            refine ⟨_, .run htake (fun hmem => ?_) (fun y hy => ?_) hplaced⟩
            · simpa using List.mem_takeWhile_imp hmem
            · have hstop := List.head?_dropWhile_not (· ≠ separator)
                (x :: rest)
              rw [hy] at hstop
              simpa using hstop

theorem exists_runs [DecidableEq α] (separator : α) (start : Nat)
    (list : List α) : ∃ placed, Runs separator start list placed :=
  exists_of_length separator list.length start list (Nat.le_refl _)

theorem of_separator (h : Runs separator start (separator :: list) placed) :
    Runs separator (start + 1) list placed := by
  generalize hwhole : separator :: list = whole at h
  cases h with
  | nil => cases hwhole
  | separator hrest =>
      obtain ⟨-, rfl⟩ := List.cons.inj hwhole
      exact hrest
  | run hne hno =>
      obtain ⟨x, run, rfl⟩ := List.exists_cons_of_ne_nil hne
      obtain ⟨rfl, -⟩ := List.cons.inj hwhole
      exact absurd List.mem_cons_self hno

theorem start_le (h : Runs separator start list placed) :
    ∀ entry ∈ placed, start ≤ entry.1 := by
  induction h with
  | nil => simp
  | separator _ ih => exact fun entry hentry =>
      Nat.le_of_succ_le (ih entry hentry)
  | run _ _ _ _ ih =>
      intro entry hentry
      rcases List.mem_cons.mp hentry with rfl | hrest
      · exact Nat.le_refl _
      · exact Nat.le_trans (Nat.le_add_right ..) (ih entry hrest)

theorem pairwise (h : Runs separator start list placed) :
    placed.Pairwise fun entry later => entry.1 < later.1 := by
  induction h with
  | nil => exact .nil
  | separator _ ih => exact ih
  | run hne _ _ hrest ih =>
      refine List.pairwise_cons.mpr ⟨fun later hlater => ?_, ih⟩
      have hle := hrest.start_le later hlater
      have hpositive := List.length_pos_iff.mpr hne
      simp only
      omega

theorem length_le (h : Runs separator start list placed) :
    2 * placed.length ≤ list.length + 1 ∧
      (list.head? = some separator → 2 * placed.length ≤ list.length) := by
  induction h with
  | nil => simp
  | separator _ ih =>
      have hrest := ih.1
      refine ⟨?_, fun _ => ?_⟩ <;>
        (rw [List.length_cons]
         omega)
  | @run _ run rest placed hne hno hstop hrest ih =>
      have hpositive := List.length_pos_iff.mpr hne
      obtain ⟨x, word, rfl⟩ := List.exists_cons_of_ne_nil hne
      refine ⟨?_, fun hhead => ?_⟩
      · rw [List.length_cons, List.length_append]
        cases rest with
        | nil =>
            have hnone := ih.1
            rw [List.length_nil] at hnone ⊢
            omega
        | cons y rest =>
            have hseparated := ih.2 (by rw [hstop y rfl]; rfl)
            omega
      · obtain rfl := Option.some.inj hhead
        exact absurd List.mem_cons_self hno

end Runs

theorem getElem?_behind (before list : List α) (i : Nat) :
    (before ++ list)[before.length + i]? = list[i]? := by
  rw [List.getElem?_append_right (Nat.le_add_right ..), Nat.add_sub_cancel_left]

namespace IsRun

variable {list run : List α} {start : Nat}

theorem inside (h : IsRun separator list start run) {i : Nat}
    (hi : i < run.length) : ∃ x, list[start + i]? = some x ∧ x ≠ separator := by
  obtain ⟨before, after, rfl, rfl, -⟩ := h.longest
  refine ⟨run[i], ?_, fun hsame => ?_⟩
  · rw [List.append_assoc, getElem?_behind,
      List.getElem?_append_left hi, List.getElem?_eq_getElem hi]
  · exact h.noSeparator (hsame ▸ List.getElem_mem hi)

theorem before_start (h : IsRun separator list (start + 1) run) :
    list[start]? = some separator := by
  obtain ⟨before, after, rfl, hlength, hlast, -⟩ := h.longest
  have hne : before ≠ [] := by
    rintro rfl
    cases hlength
  obtain ⟨front, last, rfl⟩ := (List.eq_nil_or_concat before).resolve_left hne
  obtain rfl : last = separator := hlast last (by simp)
  obtain rfl : front.length = start := by simpa using hlength
  simp

theorem unique {other : List α} (h : IsRun separator list start run)
    (h' : IsRun separator list start other) : run = other := by
  obtain ⟨before, after, rfl, hlength, -, hafter⟩ := h.longest
  obtain ⟨before', after', hsame, hlength', -, hafter'⟩ := h'.longest
  rw [List.append_assoc, List.append_assoc] at hsame
  obtain ⟨rfl, htail⟩ := List.append_inj hsame (hlength.trans hlength'.symm)
  rcases List.append_eq_append_iff.mp htail with
    ⟨more, hother, hbehind⟩ | ⟨more, hrun, hbehind⟩
  · cases more with
    | nil => simpa using hother.symm
    | cons x more =>
        obtain rfl : x = separator := hafter x (by rw [hbehind]; rfl)
        exact absurd (by rw [hother]; simp) h'.noSeparator
  · cases more with
    | nil => simpa using hrun
    | cons x more =>
        obtain rfl : x = separator := hafter' x (by rw [hbehind]; rfl)
        exact absurd (by rw [hrun]; simp) h.noSeparator

end IsRun

theorem Runs.mem_iff {start : Nat} {list : List α}
    {placed : List (Nat × List α)} (h : Runs separator start list placed)
    {before : List α} (hstart : before.length = start)
    (hedge : (∀ x ∈ before.getLast?, x = separator) ∨
      ∀ x ∈ list.head?, x = separator) (place : Nat) (run : List α) :
    (place, run) ∈ placed ↔
      start ≤ place ∧ IsRun separator (before ++ list) place run := by
  induction h generalizing before with
  | nil start =>
      refine iff_of_false List.not_mem_nil fun ⟨hle, hrun⟩ => ?_
      obtain ⟨x, hx, -⟩ := hrun.inside (List.length_pos_iff.mpr hrun.ne_nil)
      rw [List.getElem?_eq_none (by simp; omega)] at hx
      cases hx
  | @separator start rest placed hrest ih =>
      have hbehind : (before ++ [separator]) ++ rest =
          before ++ separator :: rest := by simp
      rw [@ih (before ++ [separator]) (by simp [hstart]) (.inl (by simp)),
        hbehind]
      refine ⟨fun ⟨hle, hrun⟩ => ⟨Nat.le_of_succ_le hle, hrun⟩,
        fun ⟨hle, hrun⟩ => ⟨Nat.lt_of_le_of_ne hle ?_, hrun⟩⟩
      rintro rfl
      -- at this place stands a separator
      obtain ⟨x, hx, hne⟩ := hrun.inside (List.length_pos_iff.mpr hrun.ne_nil)
      rw [← hstart, getElem?_behind] at hx
      exact hne (Option.some.inj hx).symm
  | @run start first rest placed hne hno hstop hrest ih =>
      have hbehind : (before ++ first) ++ rest = before ++ (first ++ rest) :=
        List.append_assoc ..
      have hpositive := List.length_pos_iff.mpr hne
      have hlast : ∀ x ∈ before.getLast?, x = separator := by
        refine hedge.resolve_right fun hhead => ?_
        obtain ⟨x, more, rfl⟩ := List.exists_cons_of_ne_nil hne
        obtain rfl := hhead x rfl
        exact hno List.mem_cons_self
      have hfirst : IsRun separator (before ++ (first ++ rest)) start first :=
        ⟨hne, hno, before, rest, hbehind.symm, hstart, hlast, hstop⟩
      rw [List.mem_cons, @ih (before ++ first) (by simp [hstart]) (.inr hstop),
        hbehind]
      constructor
      · rintro (hsame | ⟨hle, hrun⟩)
        · obtain ⟨rfl, rfl⟩ := Prod.mk.inj hsame
          exact ⟨Nat.le_refl _, hfirst⟩
        · exact ⟨by omega, hrun⟩
      · rintro ⟨hle, hrun⟩
        rcases Nat.eq_or_lt_of_le hle with rfl | hlt
        · exact .inl (by rw [hrun.unique hfirst])
        refine .inr ⟨?_, hrun⟩
        -- no run starts within the first one
        by_contra hinside
        obtain ⟨i, rfl⟩ : ∃ i, place = start + i + 1 :=
          ⟨place - start - 1, by omega⟩
        obtain ⟨x, hx, hother⟩ := hfirst.inside
          (show i < first.length by omega)
        rw [hrun.before_start] at hx
        exact hother (Option.some.inj hx).symm

end Webserv.Coding
