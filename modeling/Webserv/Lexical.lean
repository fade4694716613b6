import Webserv.Cxx.Text

namespace Webserv.Lexical

open Cxx

/-! Paths as texts: their components, and where they lead when `..` is
followed without looking at any file system. -/

def parent : Str := "..".toList

def components (path : Str) : List Str :=
  (path.splitOn '/').filter fun part => part ≠ [] ∧ part ≠ ".".toList

@[simp] theorem components_nil : components [] = [] := by decide

theorem components_slash (front back : Str) :
    components (front ++ '/' :: back) =
      components front ++ components back := by
  simp [components, List.splitOn_append_cons_self]

theorem components_slash_cons (back : Str) :
    components ('/' :: back) = components back := by
  simpa using components_slash [] back

theorem components_single {part : Str} (hslash : '/' ∉ part)
    (hne : part ≠ []) (hdot : part ≠ ".".toList) :
    components part = [part] := by
  have hdot' : ¬part = ['.'] := hdot
  simp [components, List.splitOn_eq_singleton hslash, hne, hdot']

theorem mem_components {path part : Str} (h : part ∈ components path) :
    part ≠ [] ∧ part ≠ ".".toList := by
  simpa [components] using (List.mem_filter.mp h).2

def isAbsolute (path : Str) : Bool := path.head? = some '/'

theorem isAbsolute_append {path : Str} (hne : path ≠ []) (rest : Str) :
    isAbsolute (path ++ rest) = isAbsolute path := by
  obtain ⟨c, front, rfl⟩ := List.exists_cons_of_ne_nil hne
  rfl

/-- One path lies at or below another one. -/
def AtOrBelow (path base : Str) : Prop :=
  isAbsolute path = isAbsolute base ∧ components base <+: components path

instance (path base : Str) : Decidable (AtOrBelow path base) :=
  inferInstanceAs (Decidable (_ ∧ _))

theorem AtOrBelow.refl (path : Str) : AtOrBelow path path :=
  ⟨rfl, List.prefix_refl _⟩

theorem AtOrBelow.trans {path middle base : Str}
    (hpath : AtOrBelow path middle) (hmiddle : AtOrBelow middle base) :
    AtOrBelow path base :=
  ⟨hpath.1.trans hmiddle.1, List.IsPrefix.trans hmiddle.2 hpath.2⟩

theorem atOrBelow_slash {path : Str} (hne : path ≠ []) (name : Str) :
    AtOrBelow (path ++ '/' :: name) path := by
  refine ⟨isAbsolute_append hne _, ?_⟩
  rw [components_slash]
  exact List.prefix_append _ _

theorem AtOrBelow.comparable {path first second : Str}
    (hfirst : AtOrBelow path first) (hsecond : AtOrBelow path second) :
    AtOrBelow first second ∨ AtOrBelow second first := by
  have habsolute : isAbsolute first = isAbsolute second :=
    hfirst.1.symm.trans hsecond.1
  rcases List.prefix_or_prefix_of_prefix hfirst.2 hsecond.2 with
    hstarts | hstarts
  · exact .inr ⟨habsolute.symm, hstarts⟩
  · exact .inl ⟨habsolute, hstarts⟩

/-! Following `..`: how far above its start a walk has come, and the names
below the highest point. -/

/-- One component of a walk; above the root there is nothing. -/
def walkStep (absolute : Bool) (place : Nat × List Str) (part : Str) :
    Nat × List Str :=
  if part = parent then
    if place.2 = [] then (if absolute then place else (place.1 + 1, []))
    else (place.1, place.2.dropLast)
  else (place.1, place.2 ++ [part])

def walk (absolute : Bool) (place : Nat × List Str) (parts : List Str) :
    Nat × List Str :=
  parts.foldl (walkStep absolute) place

theorem walk_append (absolute : Bool) (place : Nat × List Str)
    (front back : List Str) :
    walk absolute place (front ++ back) =
      walk absolute (walk absolute place front) back :=
  List.foldl_append

theorem walk_eq (absolute : Bool) (up : Nat) (names parts : List Str) :
    walk absolute (up, names) parts =
      ((if absolute then up
        else up + ((walk false (0, []) parts).1 - names.length)),
        names.take (names.length - (walk false (0, []) parts).1) ++
          (walk false (0, []) parts).2) := by
  induction parts using List.reverseRecOn with
  | nil => simp [walk]
  | append_singleton parts part ih =>
      rw [walk_append, walk_append, ih]
      generalize walk false (0, []) parts = own
      obtain ⟨ownUp, ownNames⟩ := own
      by_cases hparent : part = parent
      · subst hparent
        rcases List.eq_nil_or_concat ownNames with rfl | ⟨front, last, rfl⟩
        · have hdropped : names.length - (ownUp + 1) =
              names.length - ownUp - 1 := by omega
          by_cases hroom : ownUp < names.length
          · have htake : names.take (names.length - ownUp) ≠ [] := by
              rw [← List.length_pos_iff, List.length_take]
              omega
            have hlast :
                List.take (names.length - ownUp - 1)
                    (names.take (names.length - ownUp)) =
                  names.take (names.length - ownUp - 1) := by
              rw [List.take_take, Nat.min_eq_left (by omega)]
            cases absolute with
            | true =>
                simp [walk, walkStep, htake, hdropped, hlast,
                  List.dropLast_eq_take]
            | false =>
                have hup : ownUp + 1 - names.length = 0 := by omega
                have hup' : ownUp - names.length = 0 := by omega
                simp [walk, walkStep, htake, hdropped, hlast, hup, hup',
                  List.dropLast_eq_take]
          · have htake : names.length - ownUp = 0 := by omega
            cases absolute with
            | true => simp [walk, walkStep, htake, hdropped]
            | false =>
                have hup : ownUp + 1 - names.length =
                    ownUp - names.length + 1 := by omega
                simp [walk, walkStep, htake, hdropped, hup]
                omega
        · have hne : names.take (names.length - ownUp) ++
              (front ++ [last]) ≠ [] := by simp
          simp [walk, walkStep]
      · simp [walk, walkStep, hparent]

/-- Where a path leads: whether it starts at the root, how far it climbs
above its start, and the names it then goes down through. -/
def resolve (path : Str) : Bool × Nat × List Str :=
  (isAbsolute path, walk (isAbsolute path) (0, []) (components path))

def StrictlyInside (directory path : Str) : Prop :=
  ∃ below, below ≠ [] ∧
    resolve path =
      ((resolve directory).1, (resolve directory).2.1,
        (resolve directory).2.2 ++ below)

/-- A relative text that, walked from a directory, ends inside of it: it does
not climb, or comes down again through the names it has climbed over. -/
def EndsInside (directory text : Str) : Prop :=
  let climb := (walk false (0, []) (components text)).1
  let names := (resolve directory).2.2
  (climb ≤ names.length ∨ (resolve directory).1 = true) ∧
    ∃ below, below ≠ [] ∧
      (walk false (0, []) (components text)).2 =
        names.drop (names.length - climb) ++ below

theorem walk_name {first : Str} (hfirst : first ≠ parent)
    (parts : List Str) :
    walk false (0, []) (first :: parts) =
      ((walk false (0, []) parts).1 - 1,
        [first].take (1 - (walk false (0, []) parts).1) ++
          (walk false (0, []) parts).2) := by
  have hstart : walk false (0, []) (first :: parts) =
      walk false (0, [first]) parts := by
    simp [walk, walkStep, hfirst]
  rw [hstart, walk_eq]
  simp

theorem endsInside_congr {directory text text' first first' : Str}
    {parts : List Str} (h : components text = first :: parts)
    (h' : components text' = first' :: parts) (hfirst : first ≠ parent)
    (hfirst' : first' ≠ parent) :
    EndsInside directory text ↔ EndsInside directory text' := by
  unfold EndsInside
  rw [h, h', walk_name hfirst, walk_name hfirst']
  generalize walk false (0, []) parts = rest
  obtain ⟨up, down⟩ := rest
  cases up with
  | zero => simp
  | succ up => simp

theorem components_name {front : Str} {c : Char} (hc : c ≠ '.')
    (hslash : '/' ∉ c :: front) (text : Str) :
    ∃ first parts, first ≠ parent ∧
      components (c :: front ++ text) = first :: parts ∧
      parts = components (text.dropWhile (· ≠ '/')) := by
  have hcover : text = text.takeWhile (· ≠ '/') ++
      text.dropWhile (· ≠ '/') := List.takeWhile_append_dropWhile.symm
  have hname : '/' ∉ text.takeWhile (· ≠ '/') := by
    intro hmem
    simpa using List.mem_takeWhile_imp hmem
  have hfirst : '/' ∉ c :: front ++ text.takeWhile (· ≠ '/') := by
    simp only [List.mem_append, not_or]
    exact ⟨hslash, hname⟩
  have hdot : c :: front ++ text.takeWhile (· ≠ '/') ≠ ".".toList := by
    intro heq
    exact hc (List.cons.inj heq).1
  have hparent : c :: front ++ text.takeWhile (· ≠ '/') ≠ parent := by
    intro heq
    exact hc (List.cons.inj heq).1
  refine ⟨c :: front ++ text.takeWhile (· ≠ '/'), _, hparent, ?_, rfl⟩
  cases hrest : text.dropWhile (· ≠ '/') with
  | nil =>
      rw [hrest, List.append_nil] at hcover
      conv_lhs => rw [hcover]
      rw [components_single hfirst (by simp) hdot, components_nil]
  | cons d rest =>
      have hd : d = '/' := by
        have hhead := List.head_dropWhile_not (· ≠ '/') (l := text)
          (by rw [hrest]; simp)
        simp only [hrest, List.head_cons] at hhead
        simpa using hhead
      subst hd
      rw [hrest] at hcover
      conv_lhs => rw [hcover]
      rw [← List.append_assoc, components_slash, components_slash_cons,
        components_single hfirst (by simp) hdot]
      rfl

theorem resolve_slash {directory : Str} (hne : directory ≠ [])
    (text : Str) :
    resolve (directory ++ '/' :: text) =
      ((resolve directory).1,
        walk (resolve directory).1 (resolve directory).2
          (components text)) := by
  simp only [resolve, isAbsolute_append hne, components_slash, walk_append]

theorem strictlyInside_slash_iff {directory : Str} (hne : directory ≠ [])
    (text : Str) :
    StrictlyInside directory (directory ++ '/' :: text) ↔
      EndsInside directory text := by
  unfold StrictlyInside EndsInside
  rw [resolve_slash hne]
  generalize resolve directory = place
  obtain ⟨absolute, up, names⟩ := place
  rw [walk_eq]
  generalize walk false (0, []) (components text) = own
  obtain ⟨climb, down⟩ := own
  simp only [Prod.mk.injEq, true_and]
  have hsplit : ∀ below : List Str,
      names.take (names.length - climb) ++ down = names ++ below ↔
        down = names.drop (names.length - climb) ++ below := by
    intro below
    have hwhole : names ++ below =
        names.take (names.length - climb) ++
          (names.drop (names.length - climb) ++ below) := by
      rw [← List.append_assoc, List.take_append_drop]
    rw [hwhole, List.append_cancel_left_eq]
  constructor
  · rintro ⟨below, hbelow, hup, hnames⟩
    refine ⟨?_, below, hbelow, (hsplit below).mp hnames⟩
    cases absolute with
    | true => exact .inr rfl
    | false =>
        left
        simp only [Bool.false_eq_true, if_false] at hup
        omega
  · rintro ⟨hclimb, below, hbelow, hdown⟩
    refine ⟨below, hbelow, ?_, (hsplit below).mpr hdown⟩
    cases absolute with
    | true => rfl
    | false =>
        have hle := hclimb.resolve_right (by simp)
        simp only [Bool.false_eq_true, if_false]
        omega

end Webserv.Lexical
