import Webserv.Lexical

namespace Webserv.Files

open Cxx
open Lexical

/-! A tree of directories, files and symbolic links, and the walk of a path
through it. -/

abbrev Position := List Str

inductive Item
  | directory
  | file (content : Str)
  | link (target : Str)
  deriving DecidableEq, Repr

structure IsName (name : Str) : Prop where
  ne_nil : name ≠ []
  no_slash : '/' ∉ name
  ne_dot : name ≠ ".".toList
  ne_parent : name ≠ parent

def itemAt (nodes : List (Position × Item)) (place : Position) :
    Option Item :=
  if place = [] then some .directory else nodes.lookup place

/-- Every item stands in a directory.  The last three fields say for which
paths a call fails whatever the tree is like. -/
structure Tree where
  nodes : List (Position × Item)
  cwd : Position
  unseen : Str → Bool := fun _ => false
  unreadable : Str → Bool := fun _ => false
  refused : Str → Bool := fun _ => false
  nodup : (nodes.map Prod.fst).Nodup
  rooted : ∀ node ∈ nodes, ∃ front name, node.1 = front ++ [name] ∧
    IsName name ∧ itemAt nodes front = some .directory

namespace Tree

def item? (tree : Tree) (place : Position) : Option Item :=
  itemAt tree.nodes place

@[simp] theorem item?_root (tree : Tree) :
    tree.item? [] = some .directory := rfl

def children (tree : Tree) (place : Position) : List Str :=
  tree.nodes.filterMap fun node =>
    if node.1.dropLast = place then node.1.getLast? else none

/-- Where a walk stops: at its end, or before a link. -/
inductive Stop
  | arrived (place : Position)
  | link (here : Position) (target : Str) (rest : List Str)
  deriving DecidableEq, Repr

/-- A walk through real directories. -/
def advance (tree : Tree) : Position → List Str → Option Stop
  | here, [] => some (.arrived here)
  | here, name :: rest =>
      if tree.item? here ≠ some .directory then none
      else if name = ".".toList then advance tree here rest
      else if name = parent then advance tree here.dropLast rest
      else
        match tree.item? (here ++ [name]) with
        | none => none
        | some (.link target) => some (.link here target rest)
        | some _ => advance tree (here ++ [name]) rest

/-- A path that ends in a slash or a dot names a directory. -/
def spelled (path : Str) : List Str :=
  components path ++
    if (path.splitOn '/').getLast? = some [] ∨
        (path.splitOn '/').getLast? = some ".".toList then
      [".".toList]
    else []

def origin (here : Position) (path : Str) : Position :=
  if isAbsolute path then [] else here

/-- A walk that follows links, with the number of links it may still follow
when it arrives. -/
def walk (tree : Tree) : Nat → Position → List Str → Option (Nat × Position)
  | links, here, names =>
      match tree.advance here names with
      | none => none
      | some (.arrived place) => some (links, place)
      | some (.link here target rest) =>
          match links with
          | 0 => none
          | links + 1 =>
              if target = [] then none
              else walk tree links (origin here target)
                (spelled target ++ rest)

/-- More links than this make a loop. -/
def linkMax : Nat := 40

def resolve (tree : Tree) (path : Str) : Option Position :=
  if path = [] then none
  else
    (tree.walk linkMax (origin tree.cwd path) (spelled path)).map Prod.snd

def leadsTo (tree : Tree) (directory : Position) (name : Str) :
    Option Position :=
  (tree.walk linkMax directory [name]).map Prod.snd

def entryAt (tree : Tree) (path : Str) (directory : Position) (name : Str) :
    Option Position :=
  if tree.item? directory ≠ some .directory then none
  else
    match tree.item? (directory ++ [name]) with
    | none => none
    | some item =>
        if (path.splitOn '/').getLast? = some [] ∧ item ≠ .directory then none
        else some (directory ++ [name])

/-- The entry a path names: its last name is not followed. -/
def entryAt? (tree : Tree) (path : Str) : Option Position :=
  match (components path).getLast? with
  | none => none
  | some name =>
      if name = parent ∨
          (path.splitOn '/').getLast? = some ".".toList then none
      else
        match tree.walk linkMax (origin tree.cwd path)
            (components path).dropLast with
        | none => none
        | some (_, directory) => tree.entryAt path directory name

def subject (tree : Tree) (path : Str) : Option Position :=
  (tree.entryAt? path).or (tree.resolve path)

/-! What the fields of a tree say. -/

theorem lookup_isSome_iff (nodes : List (Position × Item))
    (place : Position) :
    (nodes.lookup place).isSome ↔ ∃ item, (place, item) ∈ nodes := by
  induction nodes with
  | nil => simp
  | cons node rest ih =>
      obtain ⟨key, item⟩ := node
      rw [List.lookup_cons]
      by_cases hkey : place = key
      · subst hkey
        simp only [beq_self_eq_true, Option.isSome_some, true_iff]
        exact ⟨item, List.mem_cons_self⟩
      · rw [beq_eq_false_iff_ne.mpr hkey]
        simp [ih, hkey]

theorem item?_isSome_iff {tree : Tree} {place : Position}
    (hplace : place ≠ []) :
    (tree.item? place).isSome ↔ ∃ item, (place, item) ∈ tree.nodes := by
  unfold item? itemAt
  rw [if_neg hplace]
  exact lookup_isSome_iff _ _

theorem entry_rooted {tree : Tree} {directory : Position} {name : Str}
    (h : (tree.item? (directory ++ [name])).isSome) :
    IsName name ∧ tree.item? directory = some .directory := by
  obtain ⟨item, hitem⟩ := (item?_isSome_iff (by simp)).mp h
  obtain ⟨front, last, hplace, hname, hfront⟩ := tree.rooted _ hitem
  obtain ⟨rfl, hlast⟩ := List.append_inj' hplace rfl
  obtain rfl := (List.cons.inj hlast).1
  exact ⟨hname, hfront⟩

theorem mem_children {tree : Tree} {directory : Position} {name : Str} :
    name ∈ tree.children directory ↔
      (tree.item? (directory ++ [name])).isSome := by
  rw [item?_isSome_iff (by simp)]
  unfold children
  rw [List.mem_filterMap]
  constructor
  · rintro ⟨⟨place, item⟩, hnode, h⟩
    obtain ⟨front, last, hplace, -, -⟩ := tree.rooted _ hnode
    obtain rfl : place = front ++ [last] := hplace
    simp only [List.dropLast_concat, List.getLast?_concat,
      Option.ite_none_right_eq_some, Option.some.injEq] at h
    obtain ⟨rfl, rfl⟩ := h
    exact ⟨item, hnode⟩
  · rintro ⟨item, hnode⟩
    exact ⟨_, hnode, by simp⟩

theorem children_of_not_directory {tree : Tree} {place : Position}
    (h : tree.item? place ≠ some .directory) : tree.children place = [] := by
  apply List.eq_nil_iff_forall_not_mem.mpr
  intro name hname
  exact h (entry_rooted (mem_children.mp hname)).2

theorem directory_above {tree : Tree} {place below : Position}
    (hbelow : below ≠ []) (h : (tree.item? (place ++ below)).isSome) :
    tree.item? place = some .directory := by
  induction below using List.reverseRecOn with
  | nil => exact absurd rfl hbelow
  | append_singleton front name ih =>
      rw [← List.append_assoc] at h
      have hdirectory := (entry_rooted h).2
      cases front with
      | nil => simpa using hdirectory
      | cons first rest => exact ih (by simp) (by rw [hdirectory]; rfl)

/-! Taking an entry away. -/

theorem lookup_filter_ne (nodes : List (Position × Item))
    (gone place : Position) :
    (nodes.filter (·.1 ≠ gone)).lookup place =
      if place = gone then none else nodes.lookup place := by
  induction nodes with
  | nil => simp
  | cons node rest ih =>
      obtain ⟨key, item⟩ := node
      rw [List.filter_cons]
      by_cases hkey : key = gone
      · subst hkey
        simp only [ne_eq, not_true_eq_false, decide_false,
          Bool.false_eq_true, if_false]
        rw [ih]
        by_cases hplace : place = key
        · rw [if_pos hplace, if_pos hplace]
        · rw [if_neg hplace, if_neg hplace, List.lookup_cons,
            beq_eq_false_iff_ne.mpr hplace]
      · simp only [ne_eq, hkey, not_false_eq_true, decide_true, if_true]
        rw [List.lookup_cons, List.lookup_cons]
        by_cases hplace : place = key
        · subst hplace
          rw [if_neg hkey]
          simp only [beq_self_eq_true]
        · rw [beq_eq_false_iff_ne.mpr hplace]
          simp only
          exact ih

theorem itemAt_filter_ne (nodes : List (Position × Item))
    {gone : Position} (hgone : gone ≠ []) (place : Position) :
    itemAt (nodes.filter (·.1 ≠ gone)) place =
      if place = gone then none else itemAt nodes place := by
  unfold itemAt
  by_cases hplace : place = []
  · subst hplace
    rw [if_pos rfl, if_neg (Ne.symm hgone), if_pos rfl]
  · rw [if_neg hplace, if_neg hplace, lookup_filter_ne]

/-- The tree without an entry that has nothing below it. -/
def erase (tree : Tree) (directory : Position) (name : Str)
    (hleaf : tree.children (directory ++ [name]) = []) : Tree :=
  { tree with
    nodes := tree.nodes.filter (·.1 ≠ directory ++ [name])
    nodup := tree.nodup.sublist (List.filter_sublist.map _)
    rooted := by
      intro node hnode
      obtain ⟨hmem, -⟩ := List.mem_filter.mp hnode
      obtain ⟨front, last, hplace, hname, hfront⟩ := tree.rooted node hmem
      refine ⟨front, last, hplace, hname, ?_⟩
      rw [itemAt_filter_ne _ (by simp), if_neg, hfront]
      rintro rfl
      have hchild : last ∈ tree.children (directory ++ [name]) := by
        refine mem_children.mpr ((item?_isSome_iff (by simp)).mpr
          ⟨node.2, ?_⟩)
        rw [← hplace]
        exact hmem
      rw [hleaf] at hchild
      cases hchild }

theorem item?_erase (tree : Tree) {directory : Position} {name : Str}
    (hleaf : tree.children (directory ++ [name]) = []) (place : Position) :
    (tree.erase directory name hleaf).item? place =
      if place = directory ++ [name] then none else tree.item? place :=
  itemAt_filter_ne _ (by simp) _

/-- `remove` takes away a file, a link or an empty directory. -/
def remove (tree : Tree) (path : Str) : Option Tree :=
  if tree.refused path then none
  else
    match tree.entryAt? path with
    | none => none
    | some place =>
        if hplace : place ≠ [] ∧ tree.children place = [] then
          some (tree.erase place.dropLast (place.getLast hplace.1) (by
            rw [List.dropLast_append_getLast]
            exact hplace.2))
        else none

structure Shrunk (before after : Tree) : Prop where
  cwd : after.cwd = before.cwd
  item : ∀ {place item}, after.item? place = some item →
    before.item? place = some item

theorem Shrunk.refl (tree : Tree) : Shrunk tree tree := ⟨rfl, id⟩

theorem Shrunk.trans {first second third : Tree} (h : Shrunk first second)
    (h' : Shrunk second third) : Shrunk first third :=
  ⟨h'.cwd.trans h.cwd, fun hitem => h.item (h'.item hitem)⟩

theorem Shrunk.isSome {before after : Tree} (h : Shrunk before after)
    {place : Position} (hplace : (after.item? place).isSome) :
    (before.item? place).isSome := by
  obtain ⟨item, hitem⟩ := Option.isSome_iff_exists.mp hplace
  rw [h.item hitem]
  rfl

theorem Shrunk.children {before after : Tree} (h : Shrunk before after)
    {place : Position} (hempty : before.children place = []) :
    after.children place = [] := by
  apply List.eq_nil_iff_forall_not_mem.mpr
  intro name hname
  have hbefore : name ∈ before.children place :=
    mem_children.mpr (h.isSome (mem_children.mp hname))
  rw [hempty] at hbefore
  cases hbefore

theorem remove_eq_some {tree after : Tree} {path : Str}
    (h : tree.remove path = some after) :
    ∃ directory name, tree.entryAt? path = some (directory ++ [name]) ∧
      tree.children (directory ++ [name]) = [] ∧ after.cwd = tree.cwd ∧
      ∀ place, after.item? place =
        if place = directory ++ [name] then none else tree.item? place := by
  unfold remove at h
  split at h
  · cases h
  · split at h
    · cases h
    · rename_i place hentry
      split at h
      · rename_i hplace
        obtain rfl := Option.some.inj h
        have hcover := List.dropLast_append_getLast hplace.1
        refine ⟨place.dropLast, place.getLast hplace.1, ?_, ?_, rfl,
          item?_erase tree _⟩
        · rw [hcover, hentry]
        · rw [hcover, hplace.2]
      · cases h

theorem remove_shrunk {tree after : Tree} {path : Str}
    (h : tree.remove path = some after) : Shrunk tree after := by
  obtain ⟨directory, name, -, -, hcwd, hitems⟩ := remove_eq_some h
  refine ⟨hcwd, fun {place item} hitem => ?_⟩
  rw [hitems] at hitem
  split at hitem
  · cases hitem
  · exact hitem

/-! Walks: in pieces, with more links, and in a tree that has shrunk. -/

theorem advance_append (tree : Tree) (here : Position)
    (front back : List Str) :
    tree.advance here (front ++ back) =
      match tree.advance here front with
      | none => none
      | some (.arrived place) => tree.advance place back
      | some (.link here target rest) =>
          some (.link here target (rest ++ back)) := by
  induction front generalizing here with
  | nil => rfl
  | cons name rest ih =>
      rw [List.cons_append, advance, advance]
      split
      · rfl
      · split
        · exact ih here
        · split
          · exact ih here.dropLast
          · split
            · rfl
            · rfl
            · exact ih (here ++ [name])

theorem walk_append (tree : Tree) (links : Nat) (here : Position)
    (front back : List Str) :
    tree.walk links here (front ++ back) =
      (tree.walk links here front).bind fun stop =>
        tree.walk stop.1 stop.2 back := by
  induction links generalizing here front with
  | zero =>
      rw [walk, walk, advance_append]
      cases hfront : tree.advance here front with
      | none => rfl
      | some stop =>
          cases stop with
          | arrived place =>
              simp only [Option.bind_some]
              rw [walk]
          | link here target rest => rfl
  | succ links ih =>
      rw [walk, walk, advance_append]
      cases hfront : tree.advance here front with
      | none => rfl
      | some stop =>
          cases stop with
          | arrived place =>
              simp only [Option.bind_some]
              rw [walk]
          | link here target rest =>
              simp only
              split
              · rfl
              · rw [← List.append_assoc, ih]

theorem walk_arrived {tree : Tree} {links : Nat} {here place : Position}
    {names : List Str}
    (h : tree.advance here names = some (.arrived place)) :
    tree.walk links here names = some (links, place) := by
  cases links with
  | zero => rw [walk, h]
  | succ links => rw [walk, h]

theorem walk_link {tree : Tree} {links : Nat} {here start : Position}
    {names rest : List Str} {target : Str}
    (h : tree.advance here names = some (.link start target rest)) :
    tree.walk (links + 1) here names =
      if target = [] then none
      else tree.walk links (origin start target) (spelled target ++ rest) := by
  rw [walk, h]

theorem walk_eq_some {tree : Tree} {links left : Nat}
    {here place : Position} {names : List Str}
    (h : tree.walk links here names = some (left, place)) :
    (left = links ∧ tree.advance here names = some (.arrived place)) ∨
      ∃ fewer start target rest, links = fewer + 1 ∧ target ≠ [] ∧
        tree.advance here names = some (.link start target rest) ∧
        tree.walk fewer (origin start target) (spelled target ++ rest) =
          some (left, place) := by
  rw [walk.eq_def] at h
  simp only at h
  cases hadvance : tree.advance here names with
  | none =>
      rw [hadvance] at h
      cases h
  | some stop =>
      rw [hadvance] at h
      cases stop with
      | arrived start =>
          obtain ⟨rfl, rfl⟩ := Prod.mk.inj (Option.some.inj h)
          exact .inl ⟨rfl, rfl⟩
      | link start target rest =>
          cases links with
          | zero => cases h
          | succ fewer =>
              by_cases htarget : target = []
              · simp only [htarget, if_true] at h
                cases h
              · simp only [htarget, if_false] at h
                exact .inr ⟨fewer, start, target, rest, rfl, htarget, rfl, h⟩

theorem walk_more {tree : Tree} {links left : Nat} {here place : Position}
    {names : List Str}
    (h : tree.walk links here names = some (left, place)) (more : Nat) :
    tree.walk (links + more) here names = some (left + more, place) := by
  induction links generalizing here names with
  | zero =>
      rcases walk_eq_some h with ⟨rfl, hadvance⟩ | ⟨fewer, _, _, _, hlinks, -⟩
      · exact walk_arrived hadvance
      · cases hlinks
  | succ links ih =>
      rcases walk_eq_some h with ⟨rfl, hadvance⟩ |
        ⟨fewer, start, target, rest, hlinks, htarget, hadvance, hwalk⟩
      · exact walk_arrived hadvance
      · obtain rfl := Nat.succ.inj hlinks
        rw [Nat.succ_add, walk_link hadvance, if_neg htarget]
        exact ih hwalk

theorem walk_le {tree : Tree} {links left : Nat} {here place : Position}
    {names : List Str}
    (h : tree.walk links here names = some (left, place)) : left ≤ links := by
  induction links generalizing here names with
  | zero =>
      rcases walk_eq_some h with ⟨rfl, -⟩ | ⟨fewer, _, _, _, hlinks, -⟩
      · exact Nat.le_refl _
      · cases hlinks
  | succ links ih =>
      rcases walk_eq_some h with ⟨rfl, -⟩ |
        ⟨fewer, start, target, rest, hlinks, -, -, hwalk⟩
      · exact Nat.le_refl _
      · obtain rfl := Nat.succ.inj hlinks
        exact Nat.le_succ_of_le (ih hwalk)

theorem Shrunk.advance {before after : Tree} (h : Shrunk before after)
    {here : Position} {names : List Str} {stop : Stop}
    (hadvance : after.advance here names = some stop) :
    before.advance here names = some stop := by
  induction names generalizing here with
  | nil => exact hadvance
  | cons name rest ih =>
      rw [Tree.advance] at hadvance ⊢
      split at hadvance
      · cases hadvance
      · rename_i hhere
        rw [if_neg (not_not_intro (h.item (not_not.mp hhere)))]
        split at hadvance
        · rename_i hdot
          rw [if_pos hdot]
          exact ih hadvance
        · rename_i hdot
          rw [if_neg hdot]
          split at hadvance
          · rename_i hparent
            rw [if_pos hparent]
            exact ih hadvance
          · rename_i hparent
            rw [if_neg hparent]
            split at hadvance
            · cases hadvance
            · rename_i target hitem
              rw [h.item hitem]
              exact hadvance
            · rename_i item hlink hitem
              rw [h.item hitem]
              cases item with
              | directory => exact ih hadvance
              | file content => exact ih hadvance
              | link target => exact absurd rfl (hlink target)

theorem Shrunk.walk {before after : Tree} (h : Shrunk before after)
    {links left : Nat} {here place : Position} {names : List Str}
    (hwalk : after.walk links here names = some (left, place)) :
    before.walk links here names = some (left, place) := by
  induction links generalizing here names with
  | zero =>
      rcases walk_eq_some hwalk with
        ⟨rfl, hadvance⟩ | ⟨fewer, _, _, _, hlinks, -⟩
      · exact walk_arrived (h.advance hadvance)
      · cases hlinks
  | succ links ih =>
      rcases walk_eq_some hwalk with ⟨rfl, hadvance⟩ |
        ⟨fewer, start, target, rest, hlinks, htarget, hadvance, hrest⟩
      · exact walk_arrived (h.advance hadvance)
      · obtain rfl := Nat.succ.inj hlinks
        rw [walk_link (h.advance hadvance), if_neg htarget]
        exact ih hrest

/-! Where paths lead, and what they name. -/

theorem advance_ne_none {tree : Tree} {links left : Nat}
    {here place : Position} {names : List Str}
    (h : tree.walk links here names = some (left, place)) :
    ∃ stop, tree.advance here names = some stop := by
  rcases walk_eq_some h with ⟨-, hadvance⟩ | ⟨_, _, _, _, -, -, hadvance, -⟩
  · exact ⟨_, hadvance⟩
  · exact ⟨_, hadvance⟩

theorem advance_directory {tree : Tree} {here : Position} {name : Str}
    {rest : List Str} {stop : Stop}
    (h : tree.advance here (name :: rest) = some stop) :
    tree.item? here = some .directory := by
  rw [advance] at h
  split at h
  · cases h
  · exact not_not.mp ‹_›

theorem item?_of_advance {tree : Tree} {here : Position} {name : Str}
    {rest : List Str} {stop : Stop} (hdot : name ≠ ".".toList)
    (hparent : name ≠ parent)
    (h : tree.advance here (name :: rest) = some stop) :
    (tree.item? (here ++ [name])).isSome := by
  rw [advance, if_neg hdot, if_neg hparent] at h
  split at h
  · cases h
  · split at h
    · cases h
    · rename_i hitem
      rw [hitem]
      rfl
    · rename_i hitem
      rw [hitem]
      rfl

theorem walk_dot {tree : Tree} {links : Nat} {here : Position}
    (hhere : tree.item? here = some .directory) :
    tree.walk links here [".".toList] = some (links, here) := by
  apply walk_arrived
  rw [advance, if_neg (not_not_intro hhere), if_pos rfl]
  rfl

theorem eq_of_walk_dot {tree : Tree} {links left : Nat}
    {here place : Position}
    (h : tree.walk links here [".".toList] = some (left, place)) :
    place = here := by
  obtain ⟨stop, hstop⟩ := advance_ne_none h
  rw [walk_dot (advance_directory hstop)] at h
  exact (Prod.mk.inj (Option.some.inj h)).2.symm

theorem walk_spelled {tree : Tree} {links left : Nat}
    {here place : Position} {path : Str}
    (h : tree.walk links here (spelled path) = some (left, place)) :
    ∃ fewer, tree.walk links here (components path) = some (fewer, place) := by
  unfold spelled at h
  split at h
  · rw [walk_append] at h
    obtain ⟨⟨fewer, middle⟩, hfront, hdot⟩ := Option.bind_eq_some_iff.mp h
    obtain rfl := eq_of_walk_dot hdot
    exact ⟨fewer, hfront⟩
  · rw [List.append_nil] at h
    exact ⟨left, h⟩

theorem resolve_eq_some {tree : Tree} {path : Str} {place : Position}
    (h : tree.resolve path = some place) : path ≠ [] ∧ ∃ left,
      tree.walk linkMax (origin tree.cwd path) (spelled path) =
        some (left, place) := by
  unfold resolve at h
  split at h
  · cases h
  · obtain ⟨⟨left, stop⟩, hwalk, rfl⟩ := Option.map_eq_some_iff.mp h
    exact ⟨‹_›, left, hwalk⟩

theorem resolve_of_walk {tree : Tree} {path : Str} {place : Position}
    {left : Nat} (hne : path ≠ [])
    (hwalk : tree.walk linkMax (origin tree.cwd path) (components path) =
      some (left, place))
    (hplace : tree.item? place = some .directory) :
    tree.resolve path = some place := by
  have hspelled : tree.walk linkMax (origin tree.cwd path) (spelled path) =
      some (left, place) := by
    unfold spelled
    split
    · rw [walk_append, hwalk, Option.bind_some, walk_dot hplace]
    · rw [List.append_nil, hwalk]
  rw [resolve, if_neg hne, hspelled]
  rfl

theorem Shrunk.resolve {before after : Tree} (h : Shrunk before after)
    {path : Str} {place : Position}
    (hresolve : after.resolve path = some place) :
    before.resolve path = some place := by
  obtain ⟨hne, left, hwalk⟩ := resolve_eq_some hresolve
  rw [h.cwd] at hwalk
  rw [Tree.resolve, if_neg hne, h.walk hwalk]
  rfl

theorem leadsTo_eq_some {tree : Tree} {directory place : Position}
    {name : Str} (h : tree.leadsTo directory name = some place) :
    ∃ left, tree.walk linkMax directory [name] = some (left, place) := by
  obtain ⟨⟨left, stop⟩, hwalk, rfl⟩ := Option.map_eq_some_iff.mp h
  exact ⟨left, hwalk⟩

theorem leadsTo_of_walk {tree : Tree} {links left : Nat}
    {directory place : Position} {name : Str} (hlinks : links ≤ linkMax)
    (h : tree.walk links directory [name] = some (left, place)) :
    tree.leadsTo directory name = some place := by
  have hmore := walk_more h (linkMax - links)
  rw [Nat.add_sub_cancel' hlinks] at hmore
  rw [leadsTo, hmore]
  rfl

theorem Shrunk.leadsTo {before after : Tree} (h : Shrunk before after)
    {directory place : Position} {name : Str}
    (hleads : after.leadsTo directory name = some place) :
    before.leadsTo directory name = some place := by
  obtain ⟨left, hwalk⟩ := leadsTo_eq_some hleads
  rw [Tree.leadsTo, h.walk hwalk]
  rfl

theorem leadsTo_self {tree : Tree} {directory place : Position}
    {name : Str} (hdot : name ≠ ".".toList) (hparent : name ≠ parent)
    (hlink : ∀ target, tree.item? (directory ++ [name]) ≠
      some (.link target))
    (h : tree.leadsTo directory name = some place) :
    place = directory ++ [name] := by
  obtain ⟨left, hwalk⟩ := leadsTo_eq_some h
  obtain ⟨stop, hstop⟩ := advance_ne_none hwalk
  have hadvance : tree.advance directory [name] =
      some (.arrived (directory ++ [name])) := by
    rw [advance, if_neg (not_not_intro (advance_directory hstop)),
      if_neg hdot, if_neg hparent]
    have hitem := item?_of_advance hdot hparent hstop
    cases hfound : tree.item? (directory ++ [name]) with
    | none =>
        rw [hfound] at hitem
        cases hitem
    | some item =>
        cases item with
        | directory => rfl
        | file content => rfl
        | link target => exact absurd hfound (hlink target)
  rw [walk_arrived hadvance] at hwalk
  exact (Prod.mk.inj (Option.some.inj hwalk)).2.symm

/-- What it takes for a path to name an entry. -/
structure Names (tree : Tree) (path : Str) (front : List Str)
    (directory : Position) (name : Str) : Prop where
  components : components path = front ++ [name]
  ne_parent : name ≠ parent
  no_dot : (path.splitOn '/').getLast? ≠ some ".".toList
  walk : ∃ left, tree.walk linkMax (origin tree.cwd path) front =
    some (left, directory)
  stands : tree.item? directory = some .directory
  item : (tree.item? (directory ++ [name])).isSome
  slash : (path.splitOn '/').getLast? = some [] →
    tree.item? (directory ++ [name]) = some .directory

theorem Names.ne_dot {tree : Tree} {path name : Str} {front : List Str}
    {directory : Position} (h : Names tree path front directory name) :
    name ≠ ".".toList := by
  have hmem : name ∈ Lexical.components path := by
    rw [h.components]
    simp
  exact (mem_components hmem).2

theorem entryAt?_eq_some {tree : Tree} {path : Str} {place : Position}
    (h : tree.entryAt? path = some place) :
    ∃ front directory name, place = directory ++ [name] ∧
      Names tree path front directory name := by
  unfold entryAt? at h
  cases hlast : (components path).getLast? with
  | none =>
      rw [hlast] at h
      cases h
  | some name =>
      rw [hlast] at h
      obtain ⟨front, hcomponents⟩ := List.getLast?_eq_some_iff.mp hlast
      rw [hcomponents, List.dropLast_concat] at h
      simp only at h
      split at h
      · cases h
      · rename_i hplain
        rw [not_or] at hplain
        split at h
        · cases h
        · rename_i left directory hwalk
          unfold entryAt at h
          split at h
          · cases h
          · rename_i hdirectory
            split at h
            · cases h
            · rename_i item hitem
              split at h
              · cases h
              · rename_i hslash
                refine ⟨front, directory, name, (Option.some.inj h).symm,
                  hcomponents, hplain.1, hplain.2, ⟨left, hwalk⟩,
                  not_not.mp hdirectory, by rw [hitem]; rfl, fun hends => ?_⟩
                rw [hitem, not_not.mp (not_and.mp hslash hends)]

theorem Names.entryAt? {tree : Tree} {path name : Str} {front : List Str}
    {directory : Position} (h : Names tree path front directory name) :
    tree.entryAt? path = some (directory ++ [name]) := by
  obtain ⟨left, hwalk⟩ := h.walk
  obtain ⟨item, hitem⟩ := Option.isSome_iff_exists.mp h.item
  have hslash : ¬((path.splitOn '/').getLast? = some [] ∧
      item ≠ .directory) := by
    rintro ⟨hends, hne⟩
    have hdirectory := h.slash hends
    rw [hitem] at hdirectory
    exact hne (Option.some.inj hdirectory)
  unfold Tree.entryAt?
  rw [h.components, List.getLast?_concat, List.dropLast_concat]
  simp only
  rw [if_neg (not_or.mpr ⟨h.ne_parent, h.no_dot⟩), hwalk]
  simp only
  rw [entryAt, if_neg (not_not_intro h.stands), hitem]
  simp only
  rw [if_neg hslash]

theorem Shrunk.names {before after : Tree} (h : Shrunk before after)
    {path name : Str} {front : List Str} {directory : Position}
    (hnames : Names after path front directory name) :
    Names before path front directory name where
  components := hnames.components
  ne_parent := hnames.ne_parent
  no_dot := hnames.no_dot
  walk := by
    obtain ⟨left, hwalk⟩ := hnames.walk
    rw [h.cwd] at hwalk
    exact ⟨left, h.walk hwalk⟩
  stands := h.item hnames.stands
  item := h.isSome hnames.item
  slash := fun hends => h.item (hnames.slash hends)

theorem Shrunk.entryAt? {before after : Tree} (h : Shrunk before after)
    {path : Str} {place : Position}
    (hentry : after.entryAt? path = some place) :
    before.entryAt? path = some place := by
  obtain ⟨front, directory, name, rfl, hnames⟩ := entryAt?_eq_some hentry
  exact (h.names hnames).entryAt?

theorem walk_components {tree : Tree} {path : Str} {place : Position}
    (h : tree.resolve path = some place) : ∃ left,
      tree.walk linkMax (origin tree.cwd path) (components path) =
        some (left, place) := by
  obtain ⟨-, left, hwalk⟩ := resolve_eq_some h
  exact walk_spelled hwalk

theorem Names.leadsTo {tree : Tree} {path name : Str} {front : List Str}
    {directory place : Position} (h : Names tree path front directory name)
    (hresolve : tree.resolve path = some place) :
    tree.leadsTo directory name = some place := by
  obtain ⟨left, hwalk⟩ := walk_components hresolve
  obtain ⟨fewer, hfront⟩ := h.walk
  rw [h.components, walk_append, hfront, Option.bind_some] at hwalk
  exact leadsTo_of_walk (walk_le hfront) hwalk

theorem subject_of_gone {before after : Tree} (h : Shrunk before after)
    {path : Str} {place : Position} (hentry : before.entryAt? path = some place)
    (hgone : after.item? place = none) : after.subject path = none := by
  obtain ⟨front, directory, name, rfl, hnames⟩ := entryAt?_eq_some hentry
  have hentry' : after.entryAt? path = none := by
    cases hfound : after.entryAt? path with
    | none => rfl
    | some found =>
        obtain ⟨_, _, _, rfl, hfound'⟩ := entryAt?_eq_some hfound
        have hsame := h.entryAt? hfound
        rw [hentry] at hsame
        rw [Option.some.inj hsame] at hgone
        have hitem := hfound'.item
        rw [hgone] at hitem
        cases hitem
  have hresolve : after.resolve path = none := by
    cases hfound : after.resolve path with
    | none => rfl
    | some found =>
        obtain ⟨left, hwalk⟩ := walk_components hfound
        rw [hnames.components, walk_append] at hwalk
        obtain ⟨⟨fewer, middle⟩, hfront, hlast⟩ :=
          Option.bind_eq_some_iff.mp hwalk
        obtain ⟨fewer', hbefore⟩ := hnames.walk
        rw [h.cwd] at hfront
        rw [h.walk hfront] at hbefore
        obtain ⟨-, rfl⟩ := Prod.mk.inj (Option.some.inj hbefore)
        obtain ⟨stop, hstop⟩ := advance_ne_none hlast
        have hitem := item?_of_advance hnames.ne_dot hnames.ne_parent hstop
        rw [hgone] at hitem
        cases hitem
  rw [subject, hentry', hresolve]
  rfl

/-! The paths of the entries of a directory. -/

theorem splitOn_slash_getLast? {path name : Str} (hslash : '/' ∉ name) :
    ((path ++ '/' :: name).splitOn '/').getLast? = some name := by
  rw [List.splitOn_append_cons_self, List.splitOn_eq_singleton hslash,
    List.getLast?_append]
  rfl

theorem spelled_child {path name : Str} (hname : IsName name) :
    spelled (path ++ '/' :: name) = components path ++ [name] := by
  unfold spelled
  rw [splitOn_slash_getLast? hname.no_slash, components_slash,
    components_single hname.no_slash hname.ne_nil hname.ne_dot, if_neg,
    List.append_nil]
  rintro (hnil | hdot)
  · exact hname.ne_nil (Option.some.inj hnil)
  · exact hname.ne_dot (Option.some.inj hdot)

theorem origin_child {path : Str} (hne : path ≠ []) (here : Position)
    (rest : Str) : origin here (path ++ rest) = origin here path := by
  unfold origin
  rw [isAbsolute_append hne]

theorem Names.child {tree : Tree} {path name last : Str}
    {front : List Str} {directory : Position} (hne : path ≠ [])
    (hname : IsName name)
    (h : Names tree (path ++ '/' :: name) front directory last) :
    last = name ∧ tree.resolve path = some directory := by
  have hcomponents := h.components
  rw [components_slash,
    components_single hname.no_slash hname.ne_nil hname.ne_dot]
    at hcomponents
  obtain ⟨rfl, hlast⟩ := List.append_inj' hcomponents rfl
  obtain ⟨left, hwalk⟩ := h.walk
  rw [origin_child hne] at hwalk
  exact ⟨(List.cons.inj hlast).1.symm,
    resolve_of_walk hne hwalk h.stands⟩

theorem resolve_child {tree : Tree} {path name : Str} {place : Position}
    (hne : path ≠ []) (hname : IsName name)
    (h : tree.resolve (path ++ '/' :: name) = some place) :
    ∃ directory, tree.resolve path = some directory ∧
      tree.leadsTo directory name = some place := by
  obtain ⟨-, left, hwalk⟩ := resolve_eq_some h
  rw [spelled_child hname, walk_append, origin_child hne] at hwalk
  obtain ⟨⟨fewer, directory⟩, hfront, hlast⟩ :=
    Option.bind_eq_some_iff.mp hwalk
  obtain ⟨stop, hstop⟩ := advance_ne_none hlast
  exact ⟨directory, resolve_of_walk hne hfront (advance_directory hstop),
    leadsTo_of_walk (walk_le hfront) hlast⟩

end Tree

end Webserv.Files
