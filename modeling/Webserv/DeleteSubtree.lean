import Webserv.CheckRequest
import Webserv.Files.Tree

namespace Webserv

open Cxx
open Files

/-! A recursive removal in a tree with symbolic links. -/

namespace Files.Tree

def find? (tree : Tree) (path : Str) : Option Item :=
  (tree.resolve path).bind tree.item?

def stat (tree : Tree) (path : Str) : Option Stat :=
  if tree.unseen path then none
  else
    match tree.find? path with
    | some .directory => some ⟨.directory, true, true⟩
    | some (.file _) => some ⟨.regular, true, true⟩
    | _ => none

def readdir (tree : Tree) (path : Str) : Option (List Str) :=
  if tree.unreadable path then none
  else
    match tree.resolve path with
    | none => none
    | some place =>
        if tree.item? place = some .directory then
          some (".".toList :: "..".toList :: tree.children place)
        else none

def openRead (tree : Tree) (path : Str) : Option Str :=
  match tree.find? path with
  | some (.file content) => some content
  | _ => none

/-- Nothing is written to these trees, and no script changes them. -/
instance : Os Tree where
  stat := stat
  access tree path _ := (tree.find? path).isSome
  readdir := readdir
  openRead := openRead
  openDirectory tree path :=
    if tree.find? path = some .directory then some (2 ^ 63 - 1) else none
  openWrite _ _ := none
  write tree _ _ := (tree, 0)
  remove := remove
  run tree _ := (tree, .notStarted)
  nameBound tree := tree.nodes.length

theorem stat_eq_some {tree : Tree} {path : Str} {buf : Stat}
    (h : Os.stat tree path = some buf) :
    ∃ place, tree.resolve path = some place ∧
      (buf.kind = .directory ↔ tree.item? place = some .directory) := by
  change tree.stat path = some buf at h
  unfold stat find? at h
  cases hresolve : tree.resolve path with
  | none =>
      rw [hresolve] at h
      split at h <;> cases h
  | some place =>
      refine ⟨place, rfl, ?_⟩
      rw [hresolve, Option.bind_some] at h
      split at h
      · cases h
      · split at h
        · rename_i hitem
          obtain rfl := Option.some.inj h
          simp [hitem]
        · rename_i hitem
          obtain rfl := Option.some.inj h
          simp [hitem]
        · cases h

theorem readdir_eq_some {tree : Tree} {path : Str} {names : List Str}
    {place : Position} (hresolve : tree.resolve path = some place)
    (h : Os.readdir tree path = some names) :
    names = ".".toList :: "..".toList :: tree.children place := by
  change tree.readdir path = some names at h
  unfold readdir at h
  rw [hresolve] at h
  split at h
  · cases h
  · exact (Option.some.inj (Option.ite_none_right_eq_some.mp h).2).symm

/-- What can be reached from a place through real directories. -/
inductive Reaches (tree : Tree) (place : Position) : Position → Prop
  | here : Reaches tree place place
  | entry {directory : Position} {name : Str} :
      Reaches tree place directory →
        tree.item? directory = some .directory →
          (tree.item? (directory ++ [name])).isSome →
            Reaches tree place (directory ++ [name])

theorem Reaches.lies_below {tree : Tree} {place position : Position}
    (h : Reaches tree place position) : place <+: position := by
  induction h with
  | here => exact List.prefix_refl place
  | entry _ _ _ ih => exact ih.trans (List.prefix_append _ _)

theorem reaches_of_below {tree : Tree} {place position : Position}
    (hbelow : place <+: position) (h : (tree.item? position).isSome) :
    Reaches tree place position := by
  obtain ⟨below, rfl⟩ := hbelow
  induction below using List.reverseRecOn with
  | nil =>
      rw [List.append_nil]
      exact .here
  | append_singleton front name ih =>
      rw [← List.append_assoc] at h ⊢
      have hdirectory := (entry_rooted h).2
      exact .entry (ih (by rw [hdirectory]; rfl)) hdirectory h

end Files.Tree

/-- No link that can be reached from a path through real directories leads to
a directory elsewhere that has entries. -/
def LinksStay (tree : Tree) (path : Str) : Prop :=
  ∀ place, tree.subject path = some place →
    ∀ directory name target, tree.Reaches place (directory ++ [name]) →
      tree.item? (directory ++ [name]) = some (.link target) →
        ∀ destination, tree.leadsTo directory name = some destination →
          tree.children destination ≠ [] → tree.Reaches place destination

/-- A removal that takes away nothing but what a path stands for, and what
can be reached from there through real directories. -/
structure RemovesSubtree (path : Str) (before after : Tree) (ok : Bool) :
    Prop where
  removed : ∀ position, after.item? position ≠ before.item? position →
    after.item? position = none ∧
      ∃ place, before.subject path = some place ∧
        before.Reaches place position
  gone : ok = true → after.subject path = none
  unchanged : ok = true → ∀ position,
    (∀ place, before.subject path = some place →
      ¬before.Reaches place position) →
    after.item? position = before.item? position

/-! What one call, and the loop over the entries, can do. -/

theorem deleteEntries_keeps {W : Type} {R : W → W → Prop}
    {delete : W → Str → W × List Str × Bool} {path : Str} {start : W}
    (names : List Str)
    (h : ∀ name ∈ names, name ≠ ".".toList → name ≠ "..".toList →
      ∀ world, R start world →
        R start (delete world (path ++ '/' :: name)).1)
    {world : W} (hworld : R start world) :
    R start (deleteEntries delete path names world).1 := by
  induction names generalizing world with
  | nil => exact hworld
  | cons name rest ih =>
      have hrest : ∀ {world : W}, R start world →
          R start (deleteEntries delete path rest world).1 :=
        ih fun name hname => h name (List.mem_cons_of_mem _ hname)
      rw [deleteEntries]
      split
      · exact hrest hworld
      · rename_i hname
        rw [not_or] at hname
        have hfirst := h name List.mem_cons_self hname.1 hname.2 world hworld
        have hpath : path ++ "/".toList ++ name = path ++ '/' :: name := by
          simp
        rw [hpath]
        generalize delete world (path ++ '/' :: name) = deleted at hfirst
        obtain ⟨world', removed, ok⟩ := deleted
        simp only at hfirst ⊢
        split
        · exact hfirst
        · exact hrest hfirst

inductive Calls {W : Type} (delete : W → Str → W × List Str × Bool)
    (path : Str) : List Str → W → W → Prop
  | done (world : W) : Calls delete path [] world world
  | skip {name : Str} {rest : List Str} {world final : W} :
      (name = ".".toList ∨ name = "..".toList) →
        Calls delete path rest world final →
          Calls delete path (name :: rest) world final
  | call {name : Str} {rest removed : List Str} {world next final : W} :
      delete world (path ++ '/' :: name) = (next, removed, true) →
        Calls delete path rest next final →
          Calls delete path (name :: rest) world final

section Calls

variable {W : Type} {delete : W → Str → W × List Str × Bool} {path : Str}
  {R : W → W → Prop}

theorem deleteEntries_calls {names moved : List Str} {start final : W}
    (h : deleteEntries delete path names start = (final, moved, true)) :
    Calls delete path names start final := by
  induction names generalizing start moved with
  | nil =>
      obtain ⟨rfl, -⟩ := Prod.mk.inj h
      exact .done _
  | cons first rest ih =>
      rw [deleteEntries] at h
      split at h
      · exact .skip ‹_› (ih h)
      · have hpath : path ++ "/".toList ++ first = path ++ '/' :: first := by
          simp
        rw [hpath] at h
        generalize hdeleted : delete start (path ++ '/' :: first) = deleted
          at h
        obtain ⟨middle, removed, ok⟩ := deleted
        simp only at h
        cases ok with
        | false => simp at h
        | true =>
            simp only [Bool.true_eq_false, if_false] at h
            generalize hrest : deleteEntries delete path rest middle = result
              at h
            obtain ⟨last, more, ended⟩ := result
            obtain ⟨rfl, hmoved⟩ := Prod.mk.inj h
            obtain ⟨-, rfl⟩ := Prod.mk.inj hmoved
            exact .call hdeleted (ih hrest)

/-! What every single call does, going on from one to the next. -/

variable (hrefl : ∀ world, R world world)
  (htrans : ∀ {first second third}, R first second → R second third →
    R first third)
  (hdelete : ∀ {world next : W} {path : Str} {removed : List Str}
    {ok : Bool}, delete world path = (next, removed, ok) → R world next)

include hrefl htrans hdelete

theorem Calls.related {names : List Str} {start final : W}
    (h : Calls delete path names start final) : R start final := by
  induction h with
  | done world => exact hrefl world
  | skip _ _ ih => exact ih
  | call hcall _ ih =>
      exact htrans (hdelete hcall) ih

theorem Calls.each {names : List Str} {start final : W}
    (h : Calls delete path names start final) {name : Str}
    (hname : name ∈ names) (hdot : name ≠ ".".toList)
    (hdotDot : name ≠ "..".toList) :
    ∃ before after removed,
      delete before (path ++ '/' :: name) = (after, removed, true) ∧
        R start before ∧ R after final := by
  induction h with
  | done world => cases hname
  | skip hdots _ ih =>
      rcases List.mem_cons.mp hname with rfl | hname
      · exact absurd hdots (not_or.mpr ⟨hdot, hdotDot⟩)
      · exact ih hname
  | call hcall hrest ih =>
      have hstep := hdelete hcall
      rcases List.mem_cons.mp hname with rfl | hname
      · exact ⟨_, _, _, hcall, hrefl _,
          hrest.related hrefl htrans hdelete⟩
      · obtain ⟨before, after, gone, hlater, hbefore, hafter⟩ := ih hname
        exact ⟨before, after, gone, hlater, htrans hstep hbefore, hafter⟩

theorem Calls.undoes {P : W → Prop} {names : List Str} {start final : W}
    (h : Calls delete path names start final) (hstart : P start)
    (hfinal : ¬P final) :
    ∃ name before after removed,
      delete before (path ++ '/' :: name) = (after, removed, true) ∧
        R start before ∧ R after final ∧ P before ∧ ¬P after := by
  induction h with
  | done world => exact absurd hstart hfinal
  | skip _ _ ih => exact ih hstart hfinal
  | @call name rest removed world next final hcall hrest ih =>
      have hstep := hdelete hcall
      by_cases hnext : P next
      · obtain ⟨other, before, after, gone, hlater, hbefore, hafter,
          hundone⟩ := ih hnext hfinal
        exact ⟨other, before, after, gone, hlater, htrans hstep hbefore,
          hafter, hundone⟩
      · exact ⟨name, world, next, removed, hcall, hrefl _,
          hrest.related hrefl htrans hdelete, hstart, hnext⟩

end Calls

/-- What one call can do: stop at a failure, remove what is no directory, or
remove a directory after its entries. -/
theorem handleDeleteRequest_cases {fuel : Nat} {tree after : Tree}
    {path : Str} {removed : List Str} {ok : Bool}
    (h : handleDeleteRequest (fuel + 1) tree path = (after, removed, ok)) :
    (after = tree ∧ ok = false) ∨
      (∃ place, tree.resolve path = some place ∧
        tree.item? place ≠ some .directory ∧
          tree.remove path = some after) ∨
      ∃ place middle moved ended, tree.resolve path = some place ∧
        deleteEntries (handleDeleteRequest fuel) path
          (".".toList :: "..".toList :: tree.children place) tree =
            (middle, moved, ended) ∧
          ((after = middle ∧ ok = false) ∨
            (ended = true ∧ middle.remove path = some after)) := by
  rw [handleDeleteRequest] at h
  split at h
  · obtain ⟨rfl, hrest⟩ := Prod.mk.inj h
    exact .inl ⟨rfl, (Prod.mk.inj hrest).2.symm⟩
  split at h
  · obtain ⟨rfl, hrest⟩ := Prod.mk.inj h
    exact .inl ⟨rfl, (Prod.mk.inj hrest).2.symm⟩
  rename_i buf hstat
  obtain ⟨place, hresolve, hkind⟩ := Files.Tree.stat_eq_some hstat
  split at h
  · split at h
    · obtain ⟨rfl, hrest⟩ := Prod.mk.inj h
      exact .inl ⟨rfl, (Prod.mk.inj hrest).2.symm⟩
    · rename_i names hnames
      obtain rfl := Files.Tree.readdir_eq_some hresolve hnames
      generalize hentries : deleteEntries (handleDeleteRequest fuel) path
        (".".toList :: "..".toList :: tree.children place) tree = result
        at h
      obtain ⟨middle, moved, ended⟩ := result
      refine .inr (.inr ⟨place, middle, moved, ended, hresolve,
        hentries, ?_⟩)
      simp only at h
      split at h
      · obtain ⟨rfl, hrest⟩ := Prod.mk.inj h
        exact .inl ⟨rfl, (Prod.mk.inj hrest).2.symm⟩
      · rename_i hended
        split at h
        · obtain ⟨rfl, hrest⟩ := Prod.mk.inj h
          exact .inl ⟨rfl, (Prod.mk.inj hrest).2.symm⟩
        · rename_i last hremove
          obtain ⟨rfl, -⟩ := Prod.mk.inj h
          exact .inr ⟨by simpa using hended, hremove⟩
  · rename_i hnot
    split at h
    · obtain ⟨rfl, hrest⟩ := Prod.mk.inj h
      exact .inl ⟨rfl, (Prod.mk.inj hrest).2.symm⟩
    · rename_i last hremove
      obtain ⟨rfl, -⟩ := Prod.mk.inj h
      exact .inr (.inl ⟨place, hresolve, hkind.not.mp hnot, hremove⟩)

theorem handleDeleteRequest_shrunk (fuel : Nat) (tree : Tree) (path : Str) :
    Tree.Shrunk tree (handleDeleteRequest fuel tree path).1 := by
  induction fuel generalizing tree path with
  | zero => exact .refl tree
  | succ fuel ih =>
      generalize hresult : handleDeleteRequest (fuel + 1) tree path = result
      obtain ⟨after, removed, ok⟩ := result
      rcases handleDeleteRequest_cases hresult with ⟨rfl, -⟩ |
        ⟨place, -, -, hremove⟩ |
        ⟨place, middle, moved, ended, -, hentries, hlast⟩
      · exact .refl _
      · exact Tree.remove_shrunk hremove
      · have hmiddle := @deleteEntries_keeps _ Tree.Shrunk
          (handleDeleteRequest fuel) path tree
          (".".toList :: "..".toList :: tree.children place)
          (fun _ _ _ _ world hworld => hworld.trans (ih world _))
          tree (Tree.Shrunk.refl tree)
        rw [hentries] at hmiddle
        rcases hlast with ⟨rfl, -⟩ | ⟨-, hremove⟩
        · exact hmiddle
        · exact hmiddle.trans (Tree.remove_shrunk hremove)

theorem shrunk_of_call {fuel : Nat} {tree after : Tree} {path : Str}
    {removed : List Str} {ok : Bool}
    (h : handleDeleteRequest fuel tree path = (after, removed, ok)) :
    Tree.Shrunk tree after := by
  have hshrunk := handleDeleteRequest_shrunk fuel tree path
  rw [h] at hshrunk
  exact hshrunk

/-! Links that stay below a place keep the removal there. -/

/-- Entries are gone only at or below a place. -/
structure Pruned (place : Position) (before after : Tree) : Prop where
  shrunk : Tree.Shrunk before after
  apart : ∀ {position}, ¬place <+: position →
    after.item? position = before.item? position

theorem Pruned.refl (place : Position) (tree : Tree) :
    Pruned place tree tree := ⟨.refl tree, fun _ => rfl⟩

theorem Pruned.trans {place : Position} {first second third : Tree}
    (h : Pruned place first second) (h' : Pruned place second third) :
    Pruned place first third :=
  ⟨h.shrunk.trans h'.shrunk,
    fun hapart => (h'.apart hapart).trans (h.apart hapart)⟩

/-- Every link at or below a place leads there, or to no entries. -/
def LinksBelow (tree : Tree) (place : Position) : Prop :=
  ∀ directory name target, place <+: directory ++ [name] →
    tree.item? (directory ++ [name]) = some (.link target) →
      ∀ destination, tree.leadsTo directory name = some destination →
        tree.children destination ≠ [] → place <+: destination

/-- A path whose removal stays below a place: what it names is there, and
where it leads is there or has no entries. -/
structure Stays (place : Position) (tree : Tree) (path : Str) : Prop where
  entry : ∀ position, tree.entryAt? path = some position → place <+: position
  leads : ∀ destination, tree.resolve path = some destination →
    tree.children destination ≠ [] → place <+: destination

theorem Stays.shrunk {place : Position} {before after : Tree} {path : Str}
    (h : Stays place before path) (hshrunk : Tree.Shrunk before after) :
    Stays place after path where
  entry := fun position hentry => h.entry position (hshrunk.entryAt? hentry)
  leads := fun destination hresolve hchildren =>
    h.leads destination (hshrunk.resolve hresolve)
      fun hempty => hchildren (hshrunk.children hempty)

theorem Stays.child {place directory : Position} {tree : Tree}
    {path name : Str} (hlinks : LinksBelow tree place)
    (hresolve : tree.resolve path = some directory)
    (hbelow : place <+: directory) (hname : IsName name) :
    Stays place tree (path ++ '/' :: name) := by
  have hne := (Tree.resolve_eq_some hresolve).1
  constructor
  · intro position hentry
    obtain ⟨front, parent, last, rfl, hnames⟩ := Tree.entryAt?_eq_some hentry
    obtain ⟨-, hparent⟩ := hnames.child hne hname
    rw [hresolve] at hparent
    obtain rfl := Option.some.inj hparent
    exact hbelow.trans (List.prefix_append _ _)
  · intro destination hdestination hchildren
    obtain ⟨parent, hparent, hleads⟩ :=
      Tree.resolve_child hne hname hdestination
    rw [hresolve] at hparent
    obtain rfl := Option.some.inj hparent
    have hchild : place <+: directory ++ [name] :=
      hbelow.trans (List.prefix_append _ _)
    by_cases hlink : ∃ target,
        tree.item? (directory ++ [name]) = some (.link target)
    · obtain ⟨target, hlink⟩ := hlink
      exact hlinks directory name target hchild hlink destination hleads
        hchildren
    · rw [Tree.leadsTo_self hname.ne_dot hname.ne_parent
        (not_exists.mp hlink) hleads]
      exact hchild

theorem LinksBelow.shrunk {place : Position} {before after : Tree}
    (h : LinksBelow before place) (hshrunk : Tree.Shrunk before after) :
    LinksBelow after place := by
  intro directory name target hbelow hlink destination hleads hchildren
  exact h directory name target hbelow (hshrunk.item hlink) destination
    (hshrunk.leadsTo hleads) fun hempty => hchildren (hshrunk.children hempty)

theorem remove_pruned {place : Position} {tree after : Tree} {path : Str}
    (hstays : Stays place tree path)
    (h : tree.remove path = some after) : Pruned place tree after := by
  refine ⟨Tree.remove_shrunk h, fun {position} hapart => ?_⟩
  obtain ⟨directory, name, hentry, -, -, hitems⟩ := Tree.remove_eq_some h
  rw [hitems, if_neg]
  rintro rfl
  exact hapart (hstays.entry _ hentry)

theorem handleDeleteRequest_pruned {place : Position} {fuel : Nat}
    {tree : Tree} {path : Str} (hlinks : LinksBelow tree place)
    (hstays : Stays place tree path) :
    Pruned place tree (handleDeleteRequest fuel tree path).1 := by
  induction fuel generalizing tree path with
  | zero => exact .refl place tree
  | succ fuel ih =>
      generalize hresult : handleDeleteRequest (fuel + 1) tree path = result
      obtain ⟨after, removed, ok⟩ := result
      rcases handleDeleteRequest_cases hresult with ⟨rfl, -⟩ |
        ⟨destination, -, -, hremove⟩ |
        ⟨destination, middle, moved, ended, hresolve, hentries, hlast⟩
      · exact .refl place _
      · exact remove_pruned hstays hremove
      · have hmiddle : Pruned place tree middle := by
          have hkeeps := @deleteEntries_keeps _ (Pruned place)
            (handleDeleteRequest fuel) path tree
            (".".toList :: "..".toList :: tree.children destination) ?_
            tree (.refl place tree)
          · rw [hentries] at hkeeps
            exact hkeeps
          · intro name hname hdot hdotDot world hworld
            have hchild : name ∈ tree.children destination := by
              rcases List.mem_cons.mp hname with rfl | hname
              · exact absurd rfl hdot
              · exact (List.mem_cons.mp hname).resolve_left hdotDot
            have hbelow := hstays.leads destination hresolve
              (List.ne_nil_of_mem hchild)
            have hentry := (Tree.entry_rooted (Tree.mem_children.mp hchild)).1
            exact hworld.trans (ih (hlinks.shrunk hworld.shrunk)
              ((Stays.child hlinks hresolve hbelow hentry).shrunk
                hworld.shrunk))
        rcases hlast with ⟨rfl, -⟩ | ⟨-, hremove⟩
        · exact hmiddle
        · exact hmiddle.trans
            (remove_pruned (hstays.shrunk hmiddle.shrunk) hremove)

/-! A removal that succeeds has come past every link. -/

theorem removes_entry {fuel : Nat} {tree after : Tree} {path : Str}
    {removed : List Str}
    (h : handleDeleteRequest fuel tree path = (after, removed, true)) :
    ∃ place, tree.entryAt? path = some place ∧ after.item? place = none := by
  have hremoved : ∀ {middle}, Tree.Shrunk tree middle →
      middle.remove path = some after →
      ∃ place, tree.entryAt? path = some place ∧ after.item? place = none := by
    intro middle hshrunk hremove
    obtain ⟨directory, name, hentry, -, -, hitems⟩ :=
      Tree.remove_eq_some hremove
    exact ⟨_, hshrunk.entryAt? hentry, by rw [hitems, if_pos rfl]⟩
  cases fuel with
  | zero => simp [handleDeleteRequest] at h
  | succ fuel =>
      rcases handleDeleteRequest_cases h with ⟨-, hok⟩ |
        ⟨destination, -, -, hremove⟩ |
        ⟨destination, middle, moved, ended, -, hentries, hlast⟩
      · cases hok
      · exact hremoved (.refl tree) hremove
      · rcases hlast with ⟨-, hok⟩ | ⟨rfl, hremove⟩
        · cases hok
        · exact hremoved ((deleteEntries_calls hentries).related
            Tree.Shrunk.refl Tree.Shrunk.trans shrunk_of_call) hremove

theorem entries_gone {fuel : Nat} {tree middle : Tree} {path : Str}
    {directory : Position} (hresolve : tree.resolve path = some directory)
    (h : Calls (handleDeleteRequest fuel) path
      (".".toList :: "..".toList :: tree.children directory) tree middle)
    {name : Str} (hname : name ∈ tree.children directory) :
    middle.item? (directory ++ [name]) = none := by
  have hne := (Tree.resolve_eq_some hresolve).1
  have hentry := (Tree.entry_rooted (Tree.mem_children.mp hname)).1
  obtain ⟨before, after, removed, hcall, hbefore, hafter⟩ :=
    h.each Tree.Shrunk.refl Tree.Shrunk.trans shrunk_of_call
      (List.mem_cons_of_mem _ (List.mem_cons_of_mem _ hname))
      hentry.ne_dot hentry.ne_parent
  obtain ⟨place, hplace, hgone⟩ := removes_entry hcall
  obtain ⟨front, parent, last, rfl, hnames⟩ := Tree.entryAt?_eq_some hplace
  obtain ⟨rfl, hparent⟩ := hnames.child hne hentry
  have hsame := hbefore.resolve hparent
  rw [hresolve] at hsame
  obtain rfl := Option.some.inj hsame
  cases hitem : middle.item? (directory ++ [last]) with
  | none => rfl
  | some item =>
      rw [hafter.item hitem] at hgone
      cases hgone

/-- A link that leads somewhere: at or below a place, or to no entries. -/
def LeadsBelow (place : Position) (tree : Tree) (directory : Position)
    (name : Str) : Prop :=
  ∃ destination, tree.leadsTo directory name = some destination ∧
    (tree.children destination ≠ [] → place <+: destination)

theorem Pruned.children {place directory : Position} {before after : Tree}
    (h : Pruned place before after) (hplace : (after.item? place).isSome)
    (hapart : ¬place <+: directory) {name : Str}
    (hname : name ∈ before.children directory) :
    name ∈ after.children directory := by
  rw [Tree.mem_children] at hname ⊢
  by_cases hbelow : place <+: directory ++ [name]
  · rcases List.prefix_concat_iff.mp hbelow with rfl | hbelow
    · exact hplace
    · exact absurd hbelow hapart
  · rw [h.apart hbelow]
    exact hname

theorem LeadsBelow.before {place directory : Position} {before after : Tree}
    {name : Str} (hbelow : LeadsBelow place after directory name)
    (h : Pruned place before after) (hplace : (after.item? place).isSome) :
    LeadsBelow place before directory name := by
  obtain ⟨destination, hleads, hstays⟩ := hbelow
  refine ⟨destination, h.shrunk.leadsTo hleads, fun hchildren => ?_⟩
  by_contra hapart
  obtain ⟨child, hchild⟩ := List.exists_mem_of_ne_nil _ hchildren
  exact hapart (hstays (List.ne_nil_of_mem
    (h.children hplace hapart hchild)))

theorem Pruned.between {place : Position} {before middle after : Tree}
    (h : Pruned place before after) (hbefore : Tree.Shrunk before middle)
    (hafter : Tree.Shrunk middle after) :
    Pruned place before middle ∧ Pruned place middle after := by
  have hapart : ∀ {position}, ¬place <+: position →
      middle.item? position = before.item? position := by
    intro position hposition
    cases hitem : before.item? position with
    | none =>
        cases hmiddle : middle.item? position with
        | none => rfl
        | some item =>
            rw [hbefore.item hmiddle] at hitem
            cases hitem
    | some item => exact hafter.item ((h.apart hposition).trans hitem)
  exact ⟨⟨hbefore, hapart⟩, hafter, fun hposition =>
    (h.apart hposition).trans (hapart hposition).symm⟩

theorem leadsBelow_of_entries {fuel : Nat} {place destination : Position}
    {tree middle : Tree} {path name : Str} {front : List Str}
    {directory : Position} (hpruned : Pruned place tree middle)
    (hplace : (middle.item? place).isSome)
    (hresolve : tree.resolve path = some destination)
    (hnames : Tree.Names tree path front directory name)
    (h : Calls (handleDeleteRequest fuel) path
      (".".toList :: "..".toList :: tree.children destination) tree
      middle) : LeadsBelow place tree directory name := by
  refine ⟨destination, hnames.leadsTo hresolve, fun hchildren => ?_⟩
  by_contra hapart
  obtain ⟨child, hchild⟩ := List.exists_mem_of_ne_nil _ hchildren
  have hgone := entries_gone hresolve h hchild
  have hstill := Tree.mem_children.mp (hpruned.children hplace hapart hchild)
  rw [hgone] at hstill
  cases hstill

theorem leadsBelow_of_calls {fuel : Nat} {place directory : Position}
    {name : Str}
    (hcall : ∀ {tree after : Tree} {path : Str} {removed : List Str},
      handleDeleteRequest fuel tree path = (after, removed, true) →
        Pruned place tree after → (after.item? place).isSome →
          (tree.item? (directory ++ [name])).isSome →
            tree.item? (directory ++ [name]) ≠ some .directory →
              after.item? (directory ++ [name]) = none →
                LeadsBelow place tree directory name)
    {tree middle : Tree} {path : Str} {names : List Str}
    (h : Calls (handleDeleteRequest fuel) path names tree middle)
    (hpruned : Pruned place tree middle)
    (hplace : (middle.item? place).isSome)
    (hbefore : (tree.item? (directory ++ [name])).isSome)
    (hlink : tree.item? (directory ++ [name]) ≠ some .directory)
    (hgone : ¬(middle.item? (directory ++ [name])).isSome) :
    LeadsBelow place tree directory name := by
  obtain ⟨entry, earlier, later, gone, hremoves, hearlier, hrest, hhad,
    hhas⟩ := h.undoes Tree.Shrunk.refl Tree.Shrunk.trans shrunk_of_call
      (P := fun world => (world.item? (directory ++ [name])).isSome) hbefore
      hgone
  have hduring := shrunk_of_call hremoves
  obtain ⟨hupTo, hthen⟩ := hpruned.between hearlier (hduring.trans hrest)
  obtain ⟨hcalled, -⟩ := hthen.between hduring hrest
  have hlater := hrest.isSome hplace
  obtain ⟨item, hitem⟩ := Option.isSome_iff_exists.mp hhad
  have hbelow := hcall hremoves hcalled hlater hhad
    (by rw [hitem, ← hearlier.item hitem]; exact hlink)
    (Option.not_isSome_iff_eq_none.mp hhas)
  exact hbelow.before hupTo (hduring.isSome hlater)

theorem leadsBelow_of_removed {fuel : Nat} {place directory : Position}
    {name : Str} {tree after : Tree} {path : Str} {removed : List Str}
    (h : handleDeleteRequest fuel tree path = (after, removed, true))
    (hpruned : Pruned place tree after)
    (hplace : (after.item? place).isSome)
    (hbefore : (tree.item? (directory ++ [name])).isSome)
    (hlink : tree.item? (directory ++ [name]) ≠ some .directory)
    (hgone : after.item? (directory ++ [name]) = none) :
    LeadsBelow place tree directory name := by
  induction fuel generalizing tree after path removed with
  | zero => simp [handleDeleteRequest] at h
  | succ fuel ih =>
      rcases handleDeleteRequest_cases h with ⟨-, hok⟩ |
        ⟨destination, hresolve, hnot, hremove⟩ |
        ⟨destination, middle, moved, ended, hresolve, hentries, hlast⟩
      · cases hok
      · -- what is no directory has no entries
        obtain ⟨parent, last, hentry, -, -, hitems⟩ :=
          Tree.remove_eq_some hremove
        rw [hitems] at hgone
        split at hgone
        · rename_i hsame
          obtain ⟨rfl, hlast⟩ := List.append_inj' hsame rfl
          obtain rfl := (List.cons.inj hlast).1
          obtain ⟨front, _, _, hplaces, hnames⟩ := Tree.entryAt?_eq_some hentry
          obtain ⟨rfl, hlast⟩ := List.append_inj' hplaces rfl
          obtain rfl := (List.cons.inj hlast).1
          exact ⟨destination, hnames.leadsTo hresolve, fun hchildren =>
            absurd (Tree.children_of_not_directory hnot) hchildren⟩
        · rw [hgone] at hbefore
          cases hbefore
      · rcases hlast with ⟨-, hok⟩ | ⟨rfl, hremove⟩
        · cases hok
        have hcalls := deleteEntries_calls hentries
        have hmiddle : Tree.Shrunk tree middle :=
          hcalls.related Tree.Shrunk.refl Tree.Shrunk.trans shrunk_of_call
        have hlater := Tree.remove_shrunk hremove
        have hstill := hlater.isSome hplace
        obtain ⟨hfirst, -⟩ := hpruned.between hmiddle hlater
        by_cases hleft : (middle.item? (directory ++ [name])).isSome
        · -- the link is what the path names
          obtain ⟨parent, last, hentry, -, -, hitems⟩ :=
            Tree.remove_eq_some hremove
          rw [hitems] at hgone
          split at hgone
          · rename_i hsame
            obtain ⟨rfl, hlast⟩ := List.append_inj' hsame rfl
            obtain rfl := (List.cons.inj hlast).1
            obtain ⟨front, _, _, hplaces, hnames⟩ :=
              Tree.entryAt?_eq_some (hmiddle.entryAt? hentry)
            obtain ⟨rfl, hlast⟩ := List.append_inj' hplaces rfl
            obtain rfl := (List.cons.inj hlast).1
            exact leadsBelow_of_entries hfirst hstill hresolve hnames hcalls
          · rw [hgone] at hleft
            cases hleft
        · exact leadsBelow_of_calls ih hcalls hfirst hstill hbefore hlink
            hleft

theorem linksStay_iff {tree : Tree} {path : Str} :
    LinksStay tree path ↔
      ∀ place, tree.subject path = some place → LinksBelow tree place := by
  constructor
  · intro h place hplace directory name target hbelow hlink destination
      hleads hchildren
    exact (h place hplace directory name target
      (Tree.reaches_of_below hbelow (by rw [hlink]; rfl)) hlink destination
      hleads hchildren).lies_below
  · intro h place hplace directory name target hreaches hlink destination
      hleads hchildren
    have hdirectory : tree.item? destination = some .directory := by
      by_contra hnot
      exact hchildren (Tree.children_of_not_directory hnot)
    exact Tree.reaches_of_below (h place hplace directory name target
      hreaches.lies_below hlink destination hleads hchildren)
      (by rw [hdirectory]; rfl)

theorem stays_of_subject {tree : Tree} {path : Str} {place : Position}
    (hplace : tree.subject path = some place)
    (hlinks : LinksBelow tree place) : Stays place tree path := by
  unfold Tree.subject at hplace
  cases hentry : tree.entryAt? path with
  | none =>
      rw [hentry, Option.none_or] at hplace
      refine ⟨fun _ hother => ?_, fun destination hresolve _ => ?_⟩
      · rw [hentry] at hother
        cases hother
      · rw [hplace] at hresolve
        obtain rfl := Option.some.inj hresolve
        exact List.prefix_refl place
  | some entry =>
      rw [hentry, Option.some_or] at hplace
      obtain rfl := Option.some.inj hplace
      refine ⟨fun other hother => ?_, fun destination hresolve hchildren => ?_⟩
      · rw [hentry] at hother
        obtain rfl := Option.some.inj hother
        exact List.prefix_refl entry
      · obtain ⟨front, directory, name, rfl, hnames⟩ :=
          Tree.entryAt?_eq_some hentry
        have hleads := hnames.leadsTo hresolve
        by_cases hlink : ∃ target,
            tree.item? (directory ++ [name]) = some (.link target)
        · obtain ⟨target, hlink⟩ := hlink
          exact hlinks directory name target (List.prefix_refl _) hlink
            destination hleads hchildren
        · rw [Tree.leadsTo_self hnames.ne_dot hnames.ne_parent
            (not_exists.mp hlink) hleads]

theorem subject_of_entry {tree : Tree} {path : Str} {place : Position}
    (h : tree.entryAt? path = some place) : tree.subject path = some place := by
  rw [Tree.subject, h]
  rfl

theorem removesSubtree_of_pruned {fuel : Nat} {tree after : Tree}
    {path : Str} {removed : List Str} {ok : Bool}
    (h : handleDeleteRequest fuel tree path = (after, removed, ok))
    (hpruned : ∀ position, after.item? position ≠ tree.item? position →
      ∃ place, tree.subject path = some place ∧ place <+: position) :
    RemovesSubtree path tree after ok := by
  have hshrunk := shrunk_of_call h
  have hremoved : ∀ position,
      after.item? position ≠ tree.item? position →
        after.item? position = none ∧
          ∃ place, tree.subject path = some place ∧
            tree.Reaches place position := by
    intro position hchanged
    obtain ⟨place, hplace, hbelow⟩ := hpruned position hchanged
    have hnone : after.item? position = none := by
      cases hitem : after.item? position with
      | none => rfl
      | some item =>
          rw [hitem, hshrunk.item hitem] at hchanged
          exact absurd rfl hchanged
    refine ⟨hnone, place, hplace, Tree.reaches_of_below hbelow ?_⟩
    rw [hnone] at hchanged
    exact Option.isSome_iff_ne_none.mpr (Ne.symm hchanged)
  refine ⟨hremoved, ?_, fun _ position houtside => ?_⟩
  · rintro rfl
    obtain ⟨place, hentry, hgone⟩ := removes_entry h
    exact Tree.subject_of_gone hshrunk hentry hgone
  · by_contra hchanged
    obtain ⟨-, place, hplace, hreaches⟩ := hremoved position hchanged
    exact houtside place hplace hreaches

theorem handleDeleteRequest_none {fuel : Nat} {tree : Tree} {path : Str}
    (h : tree.subject path = none) :
    (handleDeleteRequest fuel tree path).1 = tree := by
  have hresolve : tree.resolve path = none := by
    unfold Tree.subject at h
    exact (Option.or_eq_none_iff.mp h).2
  cases fuel with
  | zero => rfl
  | succ fuel =>
      generalize hresult : handleDeleteRequest (fuel + 1) tree path = result
      obtain ⟨after, removed, ok⟩ := result
      rcases handleDeleteRequest_cases hresult with ⟨rfl, -⟩ |
        ⟨place, hplace, -⟩ | ⟨place, middle, moved, ended, hplace, -⟩
      · rfl
      · rw [hresolve] at hplace
        cases hplace
      · rw [hresolve] at hplace
        cases hplace

theorem removesSubtree_of_linksStay {fuel : Nat} {tree after : Tree}
    {path : Str} {removed : List Str} {ok : Bool}
    (h : handleDeleteRequest fuel tree path = (after, removed, ok))
    (hlinks : LinksStay tree path) :
    RemovesSubtree path tree after ok := by
  apply removesSubtree_of_pruned h
  intro position hchanged
  cases hplace : tree.subject path with
  | none =>
      have hsame := @handleDeleteRequest_none fuel _ _ hplace
      rw [h] at hsame
      rw [show after = tree from hsame] at hchanged
      exact absurd rfl hchanged
  | some place =>
      have hbelow := linksStay_iff.mp hlinks place hplace
      have hpruned := @handleDeleteRequest_pruned _ fuel _ _ hbelow
        (stays_of_subject hplace hbelow)
      rw [h] at hpruned
      refine ⟨place, rfl, ?_⟩
      by_contra hapart
      exact hchanged (hpruned.apart hapart)

theorem leadsBelow_iff {place directory destination : Position}
    {tree : Tree} {name : Str}
    (hleads : tree.leadsTo directory name = some destination) :
    LeadsBelow place tree directory name ↔
      (tree.children destination ≠ [] → place <+: destination) := by
  constructor
  · rintro ⟨other, hother, hbelow⟩
    rw [hleads] at hother
    obtain rfl := Option.some.inj hother
    exact hbelow
  · exact fun hbelow => ⟨destination, hleads, hbelow⟩

theorem linksBelow_of_removes {fuel : Nat} {tree after : Tree}
    {path : Str} {removed : List Str} {place : Position}
    (h : handleDeleteRequest fuel tree path = (after, removed, true))
    (hentry : tree.entryAt? path = some place)
    (hpruned : Pruned place tree after) : LinksBelow tree place := by
  intro directory name target hbelow hlink destination hleads
  rw [← leadsBelow_iff hleads]
  obtain ⟨front, above, last, rfl, hnames⟩ := Tree.entryAt?_eq_some hentry
  cases fuel with
  | zero => simp [handleDeleteRequest] at h
  | succ fuel =>
      rcases handleDeleteRequest_cases h with ⟨-, hok⟩ |
        ⟨destination', hresolve, hnot, -⟩ |
        ⟨destination', middle, moved, ended, hresolve, hentries, hlast⟩
      · cases hok
      · -- a path without entries names the link itself, or no directory
        rcases List.prefix_concat_iff.mp hbelow with hsame | habove
        · obtain ⟨rfl, hlast⟩ := List.append_inj' hsame rfl
          obtain rfl := (List.cons.inj hlast).1
          exact ⟨destination', hnames.leadsTo hresolve, fun hchildren =>
            absurd (Tree.children_of_not_directory hnot) hchildren⟩
        · obtain ⟨between, rfl⟩ := habove
          have hdirectory : tree.item? (above ++ [last]) =
              some .directory := by
            refine @Tree.directory_above _ _ (between ++ [name])
              (by simp) ?_
            rw [← List.append_assoc, hlink]
            rfl
          have hself := Tree.leadsTo_self hnames.ne_dot hnames.ne_parent
            (by rw [hdirectory]; simp) (hnames.leadsTo hresolve)
          rw [hself] at hnot
          exact absurd hdirectory hnot
      · rcases hlast with ⟨-, hok⟩ | ⟨rfl, hremove⟩
        · cases hok
        have hcalls := deleteEntries_calls hentries
        have hmiddle : Tree.Shrunk tree middle :=
          hcalls.related Tree.Shrunk.refl Tree.Shrunk.trans shrunk_of_call
        obtain ⟨hfirst, -⟩ :=
          hpruned.between hmiddle (Tree.remove_shrunk hremove)
        obtain ⟨_, _, hstill, hempty, -, -⟩ := Tree.remove_eq_some hremove
        have hsame := hmiddle.entryAt? hstill
        rw [hentry] at hsame
        rw [← Option.some.inj hsame] at hstill hempty
        have hplace : (middle.item? (above ++ [last])).isSome := by
          obtain ⟨_, _, _, hplaces, hthere⟩ := Tree.entryAt?_eq_some hstill
          rw [hplaces]
          exact hthere.item
        rcases List.prefix_concat_iff.mp hbelow with hsame | habove
        · obtain ⟨rfl, hlast⟩ := List.append_inj' hsame rfl
          obtain rfl := (List.cons.inj hlast).1
          exact leadsBelow_of_entries hfirst hplace hresolve hnames hcalls
        · refine leadsBelow_of_calls leadsBelow_of_removed hcalls hfirst
            hplace (by rw [hlink]; rfl) (by rw [hlink]; simp) fun hleft => ?_
          obtain ⟨between, rfl⟩ := habove
          cases between with
          | nil =>
              rw [List.append_nil] at hleft
              have hchild := Tree.mem_children.mpr hleft
              rw [hempty] at hchild
              cases hchild
          | cons first rest =>
              have hchild : first ∈ middle.children (above ++ [last]) := by
                refine Tree.mem_children.mpr ?_
                rw [@Tree.directory_above _ _ (rest ++ [name])
                  (by simp) (by simpa using hleft)]
                rfl
              rw [hempty] at hchild
              cases hchild

theorem linksStay_of_removesSubtree {fuel : Nat} {tree after : Tree}
    {path : Str} {removed : List Str}
    (h : handleDeleteRequest fuel tree path = (after, removed, true))
    (hremoves : RemovesSubtree path tree after true) :
    LinksStay tree path := by
  obtain ⟨place, hentry, -⟩ := removes_entry h
  have hsubject := subject_of_entry hentry
  rw [linksStay_iff]
  intro other hother
  rw [hsubject] at hother
  obtain rfl := Option.some.inj hother
  refine linksBelow_of_removes h hentry ⟨shrunk_of_call h, ?_⟩
  intro position hapart
  by_contra hchanged
  obtain ⟨-, found, hfound, hreaches⟩ := hremoves.removed position hchanged
  rw [hsubject] at hfound
  obtain rfl := Option.some.inj hfound
  exact hapart hreaches.lies_below

/-- A removal stays in its subtree when the links there do; one that comes
to its end stays there in no other case. -/
theorem handleDeleteRequest_removesSubtree_iff (tree : Tree) (path : Str) :
    let result := handleDeleteRequest (pathMax + 1) tree path
    (LinksStay tree path →
      RemovesSubtree path tree result.1 result.2.2) ∧
    (result.2.2 = true →
      (RemovesSubtree path tree result.1 result.2.2 ↔
        LinksStay tree path)) := by
  generalize hresult : handleDeleteRequest (pathMax + 1) tree path = result
  obtain ⟨after, removed, ok⟩ := result
  intro result
  have hstays : LinksStay tree path → RemovesSubtree path tree after ok :=
    removesSubtree_of_linksStay hresult
  refine ⟨hstays, ?_⟩
  rintro (rfl : ok = true)
  exact ⟨linksStay_of_removesSubtree hresult, hstays⟩

/-! A link in the directory removed, to a directory beside it. -/

def linkedNodes : List (Position × Item) := [
  (["html".toList], .directory),
  (["html".toList, "d".toList], .directory),
  (["html".toList, "d".toList, "l".toList], .link "../../secret".toList),
  (["secret".toList], .directory),
  (["secret".toList, "a".toList], .file "a".toList)]

theorem linkedNodes_rooted : ∀ node ∈ linkedNodes, ∃ front name,
    node.1 = front ++ [name] ∧ IsName name ∧
      itemAt linkedNodes front = some .directory := by
  have hname : ∀ name ∈ ["html".toList, "d".toList, "l".toList,
      "secret".toList, "a".toList], IsName name := by
    intro name hname
    constructor
    all_goals revert name; decide
  intro node hnode
  simp only [linkedNodes, List.mem_cons, List.not_mem_nil, or_false] at hnode
  rcases hnode with rfl | rfl | rfl | rfl | rfl
  · exact ⟨[], _, rfl, hname _ (by decide), by decide⟩
  · exact ⟨["html".toList], _, rfl, hname _ (by decide), by decide⟩
  · exact ⟨["html".toList, "d".toList], _, rfl, hname _ (by decide),
      by decide⟩
  · exact ⟨[], _, rfl, hname _ (by decide), by decide⟩
  · exact ⟨["secret".toList], _, rfl, hname _ (by decide), by decide⟩

def linkedTree : Tree where
  nodes := linkedNodes
  cwd := []
  nodup := by decide
  rooted := linkedNodes_rooted

/-- The file behind the link is removed, and the removal succeeds. -/
theorem handleDeleteRequest_follows_link :
    ¬∀ (tree : Tree) (path : Str),
      RemovesSubtree path tree
        (handleDeleteRequest (pathMax + 1) tree path).1
        (handleDeleteRequest (pathMax + 1) tree path).2.2 := by
  intro h
  have hgone : (handleDeleteRequest (pathMax + 1) linkedTree
      "html/d".toList).1.item? ["secret".toList, "a".toList] = none := by
    decide +kernel
  have hsubject : linkedTree.subject "html/d".toList =
      some ["html".toList, "d".toList] := by decide +kernel
  have hfile : linkedTree.item? ["secret".toList, "a".toList] =
      some (.file "a".toList) := by decide
  obtain ⟨-, place, hplace, hreaches⟩ :=
    (h linkedTree "html/d".toList).removed
      ["secret".toList, "a".toList] (by rw [hgone, hfile]; simp)
  rw [hsubject] at hplace
  obtain rfl := Option.some.inj hplace
  exact absurd hreaches.lies_below (by decide)

end Webserv
