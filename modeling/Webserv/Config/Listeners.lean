import Mathlib.Data.List.ModifyLast
import Mathlib.Data.List.Nodup
import Webserv.Config.Parts

namespace Webserv

open Cxx Coding Machine Reading

/-! Which listeners a configuration asks for, as its text is read: the servers
it starts and the directives in them. -/

inductive Entry
  | server
  | directive (words : List Str)
  deriving DecidableEq, Repr

/-- What stands at the front of a reading. -/
def Reading.entry (reading : Reading) : Option Entry :=
  match reading.place, reading.parts with
  | .between, _ => some .server
  | .inside _, line :: _ =>
      match words line with
      | [] => none
      | word :: args =>
          if word.head? = some '}' ∨ word = "location".toList then none
          else some (.directive (word :: args))
  | _, _ => none

/-- The host and the ports a server is given, in the order of its text. -/
structure Listing where
  host : Str := []
  ports : List Int := []
  deriving DecidableEq, Repr

namespace Listing

def directive (listing : Listing) : List Str → Listing
  | [name, value] =>
      if name = "host".toList then
        { listing with
          host := if value = "localhost".toList then "127.0.0.1".toList
            else value }
      else if name = "listen".toList then
        { listing with ports := listing.ports ++ [extractInt value] }
      else listing
  | _ => listing

def listeners (listing : Listing) : List (Str × Int) :=
  listing.ports.map fun port => (listing.host, port)

end Listing

def noteEntry (listings : List Listing) : Entry → List Listing
  | .server => listings ++ [{}]
  | .directive words => listings.modifyLast (·.directive words)

def listingsOf (entries : List Entry) : List Listing :=
  entries.foldl noteEntry []

/-- No listener is asked for twice. -/
structure Apart (listings : List Listing) : Prop where
  ports : ∀ listing ∈ listings, listing.ports.Nodup
  servers : listings.Pairwise fun first second =>
    first.host = second.host → first.ports.Disjoint second.ports

theorem apart_iff {listings : List Listing} :
    (listings.flatMap Listing.listeners).Nodup ↔ Apart listings := by
  have hinjective : ∀ host : Str, Function.Injective fun port : Int =>
      (host, port) := fun host _ _ h => (Prod.mk.inj h).2
  have hdisjoint : ∀ first second : Listing,
      List.Disjoint first.listeners second.listeners ↔
        (first.host = second.host → first.ports.Disjoint second.ports) := by
    intro first second
    constructor
    · intro h hhost port hport hport'
      exact h (List.mem_map_of_mem hport)
        (hhost ▸ List.mem_map_of_mem hport')
    · intro h pair hpair hpair'
      obtain ⟨port, hport, rfl⟩ := List.mem_map.mp hpair
      obtain ⟨port', hport', hsame⟩ := List.mem_map.mp hpair'
      obtain ⟨hhost, rfl⟩ := Prod.mk.inj hsame
      exact h hhost.symm hport hport'
  rw [List.nodup_flatMap]
  constructor
  · rintro ⟨hports, hservers⟩
    refine ⟨fun listing hmem => ?_, hservers.imp fun h => (hdisjoint _ _).mp h⟩
    exact (List.nodup_map_iff (hinjective _)).mp (hports listing hmem)
  · rintro ⟨hports, hservers⟩
    refine ⟨fun listing hmem => ?_, hservers.imp fun h => (hdisjoint _ _).mpr h⟩
    exact (List.nodup_map_iff (hinjective _)).mpr (hports listing hmem)

section Transcripts

variable {W : Type} [Os W] {world : W} {numbs : Nat → Int}

/-- What is read between two readings. -/
inductive Transcript (world : W) (numbs : Nat → Int) :
    Reading → List Entry → Reading → Prop
  | refl (reading : Reading) : Transcript world numbs reading [] reading
  | step {reading next last : Reading} {entries : List Entry} :
      reading.move world numbs = .step next →
      Transcript world numbs next entries last →
      Transcript world numbs reading (reading.entry.toList ++ entries) last

def Transcribes (world : W) (numbs : Nat → Int) (parts : List Str)
    (entries : List Entry) : Prop :=
  ∃ last servers, Transcript world numbs (start parts) entries last ∧
    last.move world numbs = .halt (.accepted servers)

theorem Transcript.exists_of_steps {reading last : Reading}
    (h : Steps (move world numbs) reading last) :
    ∃ entries, Transcript world numbs reading entries last := by
  induction h using Relation.ReflTransGen.head_induction_on with
  | refl => exact ⟨[], .refl _⟩
  | head hmove _ ih =>
      obtain ⟨entries, hentries⟩ := ih
      exact ⟨_, .step hmove hentries⟩

theorem Transcript.unique {reading last last' : Reading}
    {entries entries' : List Entry} {verdict verdict' : Verdict}
    (h : Transcript world numbs reading entries last)
    (hlast : last.move world numbs = .halt verdict)
    (h' : Transcript world numbs reading entries' last')
    (hlast' : last'.move world numbs = .halt verdict') :
    entries = entries' := by
  induction h generalizing entries' with
  | refl =>
      cases h' with
      | refl => rfl
      | step hmove _ =>
          rw [hlast] at hmove
          cases hmove
  | step hmove _ ih =>
      cases h' with
      | refl =>
          rw [hlast'] at hmove
          cases hmove
      | step hmove' hrest' =>
          rw [hmove] at hmove'
          obtain rfl := Move.step.inj hmove'
          rw [ih hlast hrest']

theorem Transcribes.unique {parts : List Str} {entries entries' : List Entry}
    (h : Transcribes world numbs parts entries)
    (h' : Transcribes world numbs parts entries') : entries = entries' := by
  obtain ⟨last, servers, htranscript, hlast⟩ := h
  obtain ⟨last', servers', htranscript', hlast'⟩ := h'
  exact htranscript.unique hlast htranscript' hlast'

def ServerBlock.listing (server : ServerBlock) : Listing :=
  ⟨server.host, server.port⟩

def Reading.listings (reading : Reading) : List Listing :=
  reading.servers.map ServerBlock.listing ++
    match reading.place with
    | .between => []
    | .inside server => [server.listing]
    | .behind server => [server.listing]
    | .location server _ => [server.listing]

theorem parsHost_accepted {numb : Int} {list : List Str}
    (h : (parsHost numb list).2 = true) :
    ∃ name value, list = [name, value] ∧ (parsHost numb list).1 =
      if value = "localhost".toList then "127.0.0.1".toList else value := by
  unfold parsHost at h ⊢
  split at h
  · rename_i name value
    refine ⟨name, value, rfl, ?_⟩
    simp only at h ⊢
    split at h
    · cases h
    rename_i hbrace
    rw [if_neg hbrace]
    split at h
    · rename_i hlocal
      rw [if_pos hlocal, if_pos hlocal]
    rename_i hlocal
    rw [if_neg hlocal, if_neg hlocal]
    split at h
    · cases h
    split at h
    · cases h
    split at h
    · cases h
    · rename_i hdouble hlength hoctets
      rw [if_neg hdouble, if_neg hlength, if_neg hoctets]
  · cases h

theorem parsPort_accepted {list : List Str} (h : (parsPort list).2 = true) :
    ∃ name value, list = [name, value] ∧
      (parsPort list).1 = extractInt value ∧ 0 < (parsPort list).1 := by
  unfold parsPort at h ⊢
  split at h
  · rename_i name value
    refine ⟨name, value, rfl, ?_⟩
    simp only at h ⊢
    split at h
    · cases h
    split at h
    · cases h
    · rename_i hdigits hrange
      rw [if_neg hdigits, if_neg hrange]
      exact ⟨rfl, by simp only; omega⟩
  · cases h

theorem serverDirective_listing {numb : Int} {server server' : ServerBlock}
    {list : List Str}
    (h : serverDirective world numb server list = some (server', true)) :
    server'.listing = server.listing.directive list := by
  have hother : list.headD [] ≠ "host".toList →
      list.headD [] ≠ "listen".toList →
        server.listing.directive list = server.listing := by
    intro hhost hlisten
    unfold Listing.directive
    split
    · rename_i name value
      change ¬name = _ at hhost
      change ¬name = _ at hlisten
      rw [if_neg hhost, if_neg hlisten]
    · rfl
  unfold serverDirective at h
  simp only at h
  split at h
  · rename_i hname
    obtain ⟨rfl, hstatus⟩ := Prod.mk.inj (Option.some.inj h)
    obtain ⟨name, value, rfl, hvalue⟩ := parsHost_accepted hstatus
    have hhost : name = "host".toList := hname
    simp only [ServerBlock.listing, Listing.directive, hvalue, if_pos hhost]
  rename_i hhost
  split at h
  · rename_i hname
    obtain ⟨rfl, hstatus⟩ := Prod.mk.inj (Option.some.inj h)
    obtain ⟨name, value, rfl, hvalue, hpos⟩ := parsPort_accepted hstatus
    have hlisten : name = "listen".toList := hname
    change ¬name = _ at hhost
    rw [ServerBlock.setPort, if_pos hpos]
    simp only [ServerBlock.listing, Listing.directive, hvalue]
    rw [if_neg hhost, if_pos hlisten]
  rename_i hlisten
  rw [hother hhost hlisten]
  split at h
  · obtain ⟨rfl, -⟩ := Prod.mk.inj (Option.some.inj h)
    rfl
  split at h
  · obtain ⟨rfl, -⟩ := Prod.mk.inj (Option.some.inj h)
    rfl
  split at h
  · obtain ⟨rfl, -⟩ := Prod.mk.inj (Option.some.inj h)
    rfl
  split at h
  · obtain ⟨rfl, -⟩ := Prod.mk.inj (Option.some.inj h)
    rfl
  split at h
  · obtain ⟨rfl, -⟩ := Prod.mk.inj (Option.some.inj h)
    rfl
  · cases h

theorem Reading.Moves.listings {reading next : Reading}
    (h : Moves world numbs reading next) :
    reading.entry.toList.foldl noteEntry reading.listings = next.listings := by
  have hclosed : ∀ {server server' : ServerBlock},
      server.checkStatus = (server', true) → server'.listing = server.listing := by
    intro server server' hstatus
    unfold ServerBlock.checkStatus at hstatus
    split at hstatus
    · cases hstatus
    split at hstatus
    · cases hstatus
    split at hstatus
    · obtain ⟨rfl, -⟩ := Prod.mk.inj hstatus
      rfl
    · obtain ⟨rfl, -⟩ := Prod.mk.inj hstatus
      rfl
  cases h with
  | opens =>
      simp [entry, Reading.listings, noteEntry, ServerBlock.listing]
  | directive hwords hclose hlocation hdirective =>
      rename_i servers server server' line word args rest _
      have hentry : Reading.entry ⟨servers, .inside server, line :: rest⟩ =
          some (.directive (word :: args)) := by
        simp only [entry, hwords]
        rw [if_neg (not_or.mpr ⟨hclose, hlocation⟩)]
      rw [hentry]
      simp only [Reading.listings, Option.toList_some, List.foldl_cons,
        List.foldl_nil, noteEntry]
      rw [List.modifyLast_concat, serverDirective_listing hdirective]
  | closes hwords hclose _ hstatus =>
      simp only [entry, hwords]
      rw [if_pos (.inl hclose)]
      simp [Reading.listings, hclosed hstatus]
  | ends hwords hstatus =>
      simp only [entry, hwords]
      rw [if_pos (.inl (by decide))]
      simp [Reading.listings, hclosed hstatus]
  | opensLocation hplace =>
      obtain rfl | ⟨rfl, hhead⟩ := hplace
      · rfl
      · obtain ⟨args, hwords⟩ := List.head?_eq_some_iff.mp hhead
        simp only [entry, hwords]
        rw [if_pos (.inr trivial)]
        rfl
  | leaves => rfl
  | routeDirective => rfl
  | closesLocation => rfl

theorem Transcript.listings {reading last : Reading} {entries : List Entry}
    (h : Transcript world numbs reading entries last) :
    entries.foldl noteEntry reading.listings = last.listings := by
  induction h with
  | refl => rfl
  | step hmove _ ih =>
      rw [List.foldl_append, (moves_of_move hmove).listings]
      exact ih

theorem addServers_listeners (servers : List ServerBlock) :
    (addServers servers).map (fun config => (config.host, config.port)) =
      (servers.map ServerBlock.listing).flatMap Listing.listeners := by
  have hfold : ∀ (indexed : List (ServerBlock × Nat))
      (configs : List ListenerConfig),
      (indexed.foldl (fun configs entry =>
        addServerConfig configs entry.2 entry.1.host entry.1.port
          entry.1.serverNames) configs).map
            (fun config => (config.host, config.port)) =
        configs.map (fun config => (config.host, config.port)) ++
          (indexed.map (ServerBlock.listing ∘ Prod.fst)).flatMap
            Listing.listeners := by
    intro indexed
    induction indexed with
    | nil => simp
    | cons head rest ih =>
        intro configs
        rw [List.foldl_cons, ih]
        simp [addServerConfig, Listing.listeners, ServerBlock.listing,
          Function.comp_def]
  change (servers.zipIdx.foldl (fun configs entry =>
    addServerConfig configs entry.2 entry.1.host entry.1.port
      entry.1.serverNames) []).map _ = _
  rw [hfold, ← List.map_map, List.zipIdx_map_fst]
  rfl

/-- The listeners of an accepted configuration differ exactly if its text asks
for none of them twice. -/
theorem listeners_nodup_iff {world' : W} {parts : List Str} {conf : Confile}
    (h : setServer world numbs parts = .ok (world', conf))
    (haccepted : conf.status = true) :
    ∃ entries, Transcribes world' numbs parts entries ∧
      (((addServers conf.servers).map fun config =>
          (config.host, config.port)).Nodup ↔
        Apart (listingsOf entries)) := by
  obtain ⟨-, -, hhalts⟩ := setServer_accepted h haccepted
  obtain ⟨last, hsteps, hlast⟩ := hhalts.last
  obtain ⟨entries, htranscript⟩ := Transcript.exists_of_steps hsteps
  refine ⟨entries, ⟨last, conf.servers, htranscript, hlast⟩, ?_⟩
  have hlistings := htranscript.listings
  obtain ⟨hplace, hservers⟩ := accepted_of_move hlast
  have hsame : listingsOf entries = conf.servers.map ServerBlock.listing := by
    rw [listingsOf, ← hservers]
    have hend : last.listings = last.servers.map ServerBlock.listing := by
      simp [Reading.listings, hplace]
    rw [← hend]
    exact hlistings
  rw [addServers_listeners, ← hsame]
  exact apart_iff

end Transcripts

def twiceParts : List Str :=
  ["server \x7b host 127.0.0.1".toList, " listen 80".toList,
    "\x7d server \x7b host localhost".toList, " listen 80".toList, "\x7d".toList]

def twiceServer : ServerBlock where
  host := "127.0.0.1".toList
  port := [80]

theorem setServerLoop_twiceParts (world : Disk) :
    setServerLoop world (fun _ => 0) (turns twiceParts) {} ⟨twiceParts, 0⟩ =
      .ok (Confile.holding [twiceServer, twiceServer]) := rfl

theorem listeners_twice : ¬∀ (world' : Disk) (parts : List Str)
    (conf : Confile),
    setServer pageDisk (fun _ => 0) parts = .ok (world', conf) →
      conf.status = true →
        ((addServers conf.servers).map fun config =>
          (config.host, config.port)).Nodup := by
  intro hall
  obtain ⟨world', hpage⟩ := setDefaultPage_pageDisk
  have hrun : setServer pageDisk (fun _ => 0) twiceParts =
      .ok (world', Confile.holding [twiceServer, twiceServer]) := by
    rw [setServer_of_page hpage, setServerLoop_twiceParts]
    rfl
  exact absurd (hall world' twiceParts _ hrun rfl) (by decide)

theorem listeners_nodup_plain : ∃ world' entries,
    Transcribes (W := Disk) world' (fun _ => 0) plainParts entries ∧
      (((addServers [plainServer]).map fun config =>
          (config.host, config.port)).Nodup ↔
        Apart (listingsOf entries)) := by
  obtain ⟨world', hrun⟩ := setServer_plainParts
  obtain ⟨entries, htranscribes, hiff⟩ := listeners_nodup_iff hrun rfl
  exact ⟨world', entries, htranscribes, hiff⟩

end Webserv
