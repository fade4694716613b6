import Webserv.Confinement

namespace Webserv

open Cxx

/-! The two decisions about which location governs a request: the prefix
comparison of `is_location_path` and the search of `is_valid_method`. -/

section FirstMatch

variable {α : Type} {p : α → Bool} {q : α → Prop}

theorem eq_of_first {l front front' back back' : List α} {a a' : α}
    (hsplit : l = front ++ a :: back) (hsplit' : l = front' ++ a' :: back')
    (ha : q a) (hfront : ∀ b ∈ front, ¬q b)
    (ha' : q a') (hfront' : ∀ b ∈ front', ¬q b) : a = a' := by
  subst hsplit
  rcases List.append_eq_append_iff.mp hsplit' with
    ⟨middle, rfl, hback⟩ | ⟨middle, rfl, hback⟩
  · cases middle with
    | nil => exact (List.cons.inj hback).1
    | cons b middle =>
        obtain ⟨rfl, -⟩ := List.cons.inj hback
        exact absurd ha (hfront' a (by simp))
  · cases middle with
    | nil => exact (List.cons.inj hback).1.symm
    | cons b middle =>
        obtain ⟨rfl, -⟩ := List.cons.inj hback
        exact absurd ha' (hfront a' (by simp))

theorem find?_forall_iff {l : List α} :
    (∀ a, l.find? p = some a → q a) ↔
      ∀ front a back, l = front ++ a :: back → p a →
        q a ∨ ∃ b ∈ front, p b ∧ q b := by
  constructor
  · rintro hfirst front a back rfl ha
    cases hfront : front.find? p with
    | none =>
        refine .inl (hfirst a ?_)
        rw [List.find?_append, hfront, List.find?_cons_of_pos ha]
        rfl
    | some b =>
        refine .inr ⟨b, List.mem_of_find?_eq_some hfront,
          List.find?_some hfront, hfirst b ?_⟩
        rw [List.find?_append, hfront]
        rfl
  · intro hall a ha
    obtain ⟨hmatch, front, back, hsplit, hnone⟩ :=
      List.find?_eq_some_iff_append.mp ha
    rcases hall front a back hsplit hmatch with hq | ⟨b, hb, hpb, -⟩
    · exact hq
    · have hnot := hnone b hb
      rw [hpb] at hnot
      cases hnot

theorem exists_first {l : List α} {a : α} (hmem : a ∈ l) (ha : q a) :
    ∃ front b back, l = front ++ b :: back ∧ q b ∧ ∀ c ∈ front, ¬q c := by
  induction l with
  | nil => cases hmem
  | cons x rest ih =>
      by_cases hx : q x
      · exact ⟨[], x, rest, rfl, hx, by simp⟩
      · have hrest : a ∈ rest := by
          rcases List.mem_cons.mp hmem with rfl | hrest
          · exact absurd ha hx
          · exact hrest
        obtain ⟨front, b, back, rfl, hb, hfront⟩ := ih hrest
        refine ⟨x :: front, b, back, rfl, hb, ?_⟩
        intro c hc
        rcases List.mem_cons.mp hc with rfl | hc
        · exact hx
        · exact hfront c hc

end FirstMatch

namespace ServerBlock

/-- `is_valid_method` asks the first route whose location occurs. -/
theorem isValidMethod_eq (routes : List RouteBlock) (path method : Str) :
    isValidMethod routes path method =
      match routes.find? (fun route =>
          (search? route.location path).isSome) with
      | some route => decide (method ∈ route.methods)
      | none => true := by
  induction routes with
  | nil => rfl
  | cons route rest ih =>
      by_cases hfound : (search? route.location path).isSome
      · simp [isValidMethod, hfound]
      · simp [isValidMethod, hfound, ih]

/-- The answer of the first occurring location, stated without a search: a
location with another answer stands behind one with this answer, and a
refusal needs a location that occurs. -/
def Governed (routes : List RouteBlock) (path method : Str)
    (allowed : Prop) : Prop :=
  (∀ front route back, routes = front ++ route :: back →
    route.location <:+: path →
      (method ∈ route.methods ↔ allowed) ∨
        ∃ earlier ∈ front, earlier.location <:+: path ∧
          (method ∈ earlier.methods ↔ allowed)) ∧
  (¬allowed → ∃ route ∈ routes, route.location <:+: path)

theorem isValidMethod_iff_governed {routes : List RouteBlock}
    {path method : Str} {allowed : Prop} :
    (isValidMethod routes path method = true ↔ allowed) ↔
      Governed routes path method allowed := by
  have hfirst := @find?_forall_iff _
    (fun route => (search? route.location path).isSome)
    (fun route => method ∈ route.methods ↔ allowed) routes
  simp only [search?_isSome_iff] at hfirst
  rw [isValidMethod_eq, Governed, ← hfirst]
  cases hfind : routes.find? fun route =>
      (search? route.location path).isSome with
  | none =>
      have hnone : ∀ route ∈ routes, ¬route.location <:+: path := by
        intro route hroute hoccurs
        have hnot := List.find?_eq_none.mp hfind route hroute
        exact hnot (search?_isSome_iff.mpr hoccurs)
      simp only [true_iff, reduceCtorEq, false_implies, implies_true,
        true_and]
      constructor
      · exact fun hallowed hnot => absurd hallowed hnot
      · intro h
        by_contra hnot
        obtain ⟨route, hroute, hoccurs⟩ := h hnot
        exact hnone route hroute hoccurs
  | some route =>
      have hfound := List.find?_some hfind
      have hoccurs : route.location <:+: path :=
        search?_isSome_iff.mp hfound
      simp only [decide_eq_true_eq, Option.some.injEq, forall_eq']
      constructor
      · exact fun h => ⟨h, fun _ => ⟨route,
          List.mem_of_find?_eq_some hfind, hoccurs⟩⟩
      · exact fun h => h.1

/-- The part of a path that `is_location_path` compares: up to the last
character of the first component where another one follows, and all of it
where none does. -/
def comparedPart (path : Str) : Str :=
  match search? ['/'] (path.drop 1) with
  | some pos => path.take pos
  | none => path

/-- `is_location_path` takes this route for the path, unless an earlier one. -/
def Fits (path : Str) (route : RouteBlock) : Prop :=
  path ≠ ['/'] ∧ comparedPart path <+: cStr route.uri

theorem search?_slash_joinDirs_ne_zero {parts : List Str}
    (hplain : ∀ part ∈ parts, PlainPart part) :
    search? ['/'] (joinDirs parts) ≠ some 0 := by
  intro hzero
  have hstarts : ['/'] <+: joinDirs parts := by
    simpa [OccursAt] using search?_occursAt hzero
  obtain ⟨rest, hrest⟩ := hstarts
  cases parts with
  | nil => simp [joinDirs] at hrest
  | cons part more =>
      have hpart := hplain part List.mem_cons_self
      obtain ⟨c, part, rfl⟩ := List.exists_cons_of_ne_nil hpart.ne_nil
      have hc : '/' = c := by
        cases more <;> simp [joinDirs] at hrest <;> exact hrest.1
      exact hpart.no_slash (hc ▸ List.mem_cons_self)

theorem fitsUri_iff_fits {parts : List Str} {pos : Nat}
    (hplain : ∀ part ∈ parts, PlainPart part) (hne : joinDirs parts ≠ [])
    (hpos : comparedLength (search? ['/'] (joinDirs parts))
      ('/' :: joinDirs parts) = pos) (route : RouteBlock) :
    FitsUri pos ('/' :: joinDirs parts) route ↔
      Fits ('/' :: joinDirs parts) route := by
  have hnul : '\x00' ∉ '/' :: joinDirs parts := by
    simpa using joinDirs_no_nul hplain
  unfold FitsUri Fits comparedPart
  rw [cStr_eq_self hnul, List.drop_succ_cons, List.drop_zero]
  have hroot : '/' :: joinDirs parts ≠ ['/'] := by simpa using hne
  cases hsearch : search? ['/'] (joinDirs parts) with
  | none =>
      rw [hsearch] at hpos
      have hwhole : ('/' :: joinDirs parts).length = pos := hpos
      rw [strncmp_eq_zero_iff hnul (Nat.le_of_eq hwhole.symm), ← hwhole]
      simp [hne]
  | some n =>
      have hle := search?_le_length hsearch
      have hzero : n ≠ 0 := by
        rintro rfl
        exact search?_slash_joinDirs_ne_zero hplain hsearch
      have hpos' : pos = n := by
        rw [hsearch] at hpos
        cases n with
        | zero => exact absurd rfl hzero
        | succ n => exact hpos.symm
      rw [hpos', strncmp_eq_zero_iff hnul (by simp; omega)]
      simp [hne]

theorem isLocationPath_plain (block : ServerBlock) {parts : List Str}
    (hplain : ∀ part ∈ parts, PlainPart part) :
    (∃ front route back, block.routes = front ++ route :: back ∧
      Fits ('/' :: joinDirs parts) route ∧
      (∀ earlier ∈ front, ¬Fits ('/' :: joinDirs parts) earlier) ∧
      block.isLocationPath ('/' :: joinDirs parts) =
        .ok (block.setLocationUrl (some front.length),
          route.root ++ '/' :: joinDirs parts)) ∨
    (∀ route ∈ block.routes, ¬Fits ('/' :: joinDirs parts) route) ∧
      block.isLocationPath ('/' :: joinDirs parts) = .ok (block, []) := by
  have hsubstr : substrFrom ('/' :: joinDirs parts) 1 =
      .ok (joinDirs parts) := by
    rw [substrFrom_ok (by simp)]
    rfl
  unfold isLocationPath
  rw [hsubstr]
  by_cases hne : joinDirs parts = []
  · right
    simp [hne, Fits, bind, Except.bind, pure, Except.pure]
  · simp only [bind, Except.bind, hne, if_false]
    generalize hpos : comparedLength (search? ['/'] (joinDirs parts))
      ('/' :: joinDirs parts) = pos
    have hfits := fitsUri_iff_fits hplain hne hpos
    cases hfind : findLocation ('/' :: joinDirs parts) pos 0
        block.routes with
    | none =>
        right
        refine ⟨fun route hroute => ?_, rfl⟩
        rw [← hfits]
        exact findLocation_eq_none hfind route hroute
    | some found =>
        left
        obtain ⟨i, route⟩ := found
        obtain ⟨front, back, hroutes, hi, hroute, hearlier⟩ :=
          findLocation_split hfind
        rw [Nat.zero_add] at hi
        refine ⟨front, route, back, hroutes, (hfits route).mp hroute, ?_, ?_⟩
        · intro earlier hmem
          rw [← hfits]
          exact hearlier earlier hmem
        · rw [hi]
          rfl

/-- The path on disk that `parse_request` derives for a request path without
a location. -/
def underRoot (block : ServerBlock) (path : Str) : Str :=
  if path = ['/'] then block.serverRoot else block.serverRoot ++ path

/-- Both decisions fall the same way for a request: the method is allowed
exactly when the route chosen lists it, and always where none is chosen. -/
def MethodAgrees (block : ServerBlock) (path method : Str) : Prop :=
  ∃ block' located,
    (block.setLocationUrl none).isLocationPath path =
      .ok (block', located) ∧
    (isValidMethod block'.routes (diskPath block' path located) method =
        true ↔
      ∀ route, block'.selected = some route → method ∈ route.methods)

/-- The condition for it, on the lists of routes alone. -/
structure MethodGoverned (block : ServerBlock) (path method : Str) : Prop where
  selected : ∀ front route back, block.routes = front ++ route :: back →
    Fits path route → (∀ earlier ∈ front, ¬Fits path earlier) →
      Governed block.routes (route.root ++ path) method
        (method ∈ route.methods)
  unselected : (∀ route ∈ block.routes, ¬Fits path route) →
    Governed block.routes (block.underRoot path) method True

theorem diskPath_nil {block : ServerBlock} {parts : List Str}
    (hplain : ∀ part ∈ parts, PlainPart part) :
    diskPath block ('/' :: joinDirs parts) [] =
      block.underRoot ('/' :: joinDirs parts) := by
  rw [diskPath_eq hplain rfl, underRoot]
  simp [joinDirs_eq_nil hplain]

theorem methodAgrees_iff {block block' : ServerBlock}
    {path located method : Str}
    (h : (block.setLocationUrl none).isLocationPath path =
      .ok (block', located)) :
    MethodAgrees block path method ↔
      (isValidMethod block'.routes (diskPath block' path located) method =
          true ↔
        ∀ route, block'.selected = some route → method ∈ route.methods) := by
  unfold MethodAgrees
  rw [h]
  constructor
  · rintro ⟨chosen, found, heq, hagrees⟩
    obtain ⟨rfl, rfl⟩ := Prod.mk.inj (Except.ok.inj heq)
    exact hagrees
  · exact fun hagrees => ⟨block', located, rfl, hagrees⟩

/-- For a normalised path the two decisions agree exactly under that
condition. -/
theorem methodAgrees_iff_governed (block : ServerBlock) {parts : List Str}
    (method : Str) (hplain : ∀ part ∈ parts, PlainPart part) :
    MethodAgrees block ('/' :: joinDirs parts) method ↔
      MethodGoverned block ('/' :: joinDirs parts) method := by
  rcases isLocationPath_plain (block.setLocationUrl none) hplain with
    ⟨front, route, back, hroutes, hfits, hearlier, hlocation⟩ |
    ⟨hnone, hlocation⟩
  · rw [setLocationUrl_routes] at hroutes
    rw [setLocationUrl_setLocationUrl] at hlocation
    have hdisk : diskPath (block.setLocationUrl (some front.length))
        ('/' :: joinDirs parts) (route.root ++ '/' :: joinDirs parts) =
          route.root ++ '/' :: joinDirs parts := by
      simp [diskPath]
    have hselected : (block.setLocationUrl (some front.length)).selected =
        some route := by
      simp [selected, setLocationUrl, hroutes]
    rw [methodAgrees_iff hlocation, hdisk, hselected, setLocationUrl_routes]
    simp only [Option.some.injEq, forall_eq']
    rw [isValidMethod_iff_governed]
    constructor
    · intro hgoverned
      refine ⟨?_, ?_⟩
      · intro front' route' back' hroutes' hfits' hearlier'
        -- only one route is the first one that fits
        obtain rfl : route' = route :=
          eq_of_first hroutes' hroutes hfits' hearlier' hfits hearlier
        exact hgoverned
      · intro hnone
        exact absurd hfits (hnone route (by simp [hroutes]))
    · exact fun h => h.selected front route back hroutes hfits hearlier
  · rw [setLocationUrl_routes] at hnone
    have hselected : (block.setLocationUrl none).selected = none := rfl
    rw [methodAgrees_iff hlocation, diskPath_nil hplain, hselected,
      setLocationUrl_routes]
    simp only [reduceCtorEq, false_implies, implies_true]
    rw [isValidMethod_iff_governed]
    constructor
    · intro hgoverned
      refine ⟨?_, fun _ => hgoverned⟩
      intro front route back hroutes hfits
      exact absurd hfits (hnone route (by simp [hroutes]))
    · exact fun h => h.unselected hnone

/-- Nothing misleads the search: the URI of the route chosen leads the path, or
the route lists the method, and no text of a route with another answer occurs in
front of the one that leads, or at all where none does. -/
structure Undisturbed (block : ServerBlock) (path method : Str) : Prop where
  leads : ∀ front route back, block.routes = front ++ route :: back →
    Fits path route → (∀ earlier ∈ front, ¬Fits path earlier) →
      route.uri <+: path ∨ method ∈ route.methods
  beside : ∀ front route back, block.routes = front ++ route :: back →
    Fits path route → (∀ earlier ∈ front, ¬Fits path earlier) →
      ∀ other ∈ block.routes, other ∈ front ∨ ¬route.uri <+: path →
        other.location <:+: route.root ++ path →
          (method ∈ other.methods ↔ method ∈ route.methods)
  unselected : (∀ route ∈ block.routes, ¬Fits path route) →
    ∀ other ∈ block.routes, other.location <:+: block.underRoot path →
      method ∈ other.methods

/-- The text of a route whose URI leads the path occurs in the path below its
root. -/
theorem location_infix {route : RouteBlock} {path : Str}
    (h : route.uri <+: path) : route.location <:+: route.root ++ path := by
  obtain ⟨rest, rfl⟩ := h
  have hlocation : route.location ++ rest = route.root ++ (route.uri ++ rest) :=
    List.append_assoc ..
  exact ⟨[], rest, hlocation⟩

theorem Undisturbed.governed {block : ServerBlock} {path method : Str}
    (h : Undisturbed block path method) :
    MethodGoverned block path method := by
  constructor
  · intro front route back hroutes hfits hearlier
    have hleads := h.leads front route back hroutes hfits hearlier
    have hbeside := h.beside front route back hroutes hfits hearlier
    constructor
    · intro front' other back' hroutes' hoccurs
      have hmem : other ∈ block.routes := by simp [hroutes']
      by_cases huri : route.uri <+: path
      · -- where the other route stands beside the one that leads
        rw [hroutes] at hroutes'
        rcases List.append_eq_append_iff.mp hroutes' with
          ⟨middle, rfl, hback⟩ | ⟨middle, rfl, hback⟩
        · cases middle with
          | nil =>
              obtain ⟨rfl, -⟩ := List.cons.inj hback
              exact .inl Iff.rfl
          | cons first middle =>
              obtain ⟨rfl, -⟩ := List.cons.inj hback
              exact .inr ⟨route, by simp, location_infix huri, Iff.rfl⟩
        · cases middle with
          | nil =>
              obtain ⟨rfl, -⟩ := List.cons.inj hback
              exact .inl Iff.rfl
          | cons first middle =>
              obtain ⟨rfl, -⟩ := List.cons.inj hback
              exact .inl (hbeside other hmem (.inl (by simp)) hoccurs)
      · exact .inl (hbeside other hmem (.inr huri) hoccurs)
    · intro hunlisted
      exact ⟨route, by simp [hroutes],
        location_infix (hleads.resolve_right hunlisted)⟩
  · intro hnone
    constructor
    · intro front other back hroutes hoccurs
      have hlisted := h.unselected hnone other (by simp [hroutes]) hoccurs
      exact .inl (iff_true_intro hlisted)
    · exact fun hnot => absurd trivial hnot

theorem methodAgrees_of_undisturbed {block : ServerBlock} {parts : List Str}
    {method : Str} (hplain : ∀ part ∈ parts, PlainPart part)
    (h : Undisturbed block ('/' :: joinDirs parts) method) :
    MethodAgrees block ('/' :: joinDirs parts) method :=
  (methodAgrees_iff_governed block method hplain).mpr h.governed

theorem methodAgrees_of_undisturbed_upload :
    MethodAgrees { routes := [{ uri := "/upload".toList }] }
      "/upload/a".toList "POST".toList := by
  have hplain : ∀ part ∈ ["upload".toList, "a".toList], PlainPart part := by
    intro part hpart
    rcases List.mem_pair.mp hpart with rfl | rfl
    · exact ⟨by decide, by decide, by decide, by decide⟩
    · exact ⟨by decide, by decide, by decide, by decide⟩
  have honly : ∀ {front route back}, [({ uri := "/upload".toList } :
      RouteBlock)] = front ++ route :: back →
        route = { uri := "/upload".toList } := by
    intro front route back hroutes
    refine List.mem_singleton.mp ?_
    rw [hroutes]
    exact List.mem_append_right _ List.mem_cons_self
  refine methodAgrees_of_undisturbed hplain ⟨?_, ?_, ?_⟩
  · intro front route back hroutes _ _
    rw [honly hroutes]
    exact .inl (by decide)
  · intro front route back hroutes _ _ other hother _ _
    rw [honly hroutes, List.mem_singleton.mp hother]
  · intro hnone
    exact absurd (by unfold Fits; decide) (hnone _ List.mem_cons_self)

/-- The comparison stops one character early: "/ab" governs "/a/x", and its
text does not occur in the path that is searched. -/
theorem methodAgrees_fails_short_comparison :
    ¬MethodAgrees
      { routes := [{ uri := "/ab".toList, methods := ["GET".toList] }] }
      "/a/x".toList "DELETE".toList := by
  intro h
  let block : ServerBlock :=
    { routes := [{ uri := "/ab".toList, methods := ["GET".toList] }] }
  have hlocation :
      (block.setLocationUrl none).isLocationPath "/a/x".toList =
        .ok (block.setLocationUrl (some 0), "./html/a/x".toList) := by
    decide
  rw [methodAgrees_iff hlocation] at h
  have hlisted := h.mp (by decide) _ rfl
  revert hlisted
  decide

/-! Whether the route chosen is one the path belongs to. -/

/-- The URI is the path, or the path down to one of its slashes. -/
def Within (path : Str) (route : RouteBlock) : Prop :=
  path = route.uri ∨ route.uri ++ ['/'] <+: path

/-- `is_location_path` selects this route for the path. -/
def Selects (block : ServerBlock) (path : Str) (route : RouteBlock) : Prop :=
  ∃ block' located,
    (block.setLocationUrl none).isLocationPath path =
      .ok (block', located) ∧ block'.selected = some route

/-- Only routes the path belongs to are selected, and one of them is where
there is one other than "/". -/
structure WellSelected (block : ServerBlock) (path : Str) : Prop where
  sound : ∀ route, block.Selects path route → Within path route
  complete : (∃ route ∈ block.routes,
      route.uri ≠ ['/'] ∧ Within path route) →
    ∃ route, block.Selects path route ∧ route.uri ≠ ['/'] ∧
      Within path route

/-- The routes that fit without the path belonging to them stand behind one it
belongs to, and a route without a URI is not the only one to go by. -/
structure RoutesTold (routes : List RouteBlock) (path : Str) : Prop where
  ordered : ∀ front route back, routes = front ++ route :: back →
    Fits path route → ¬Within path route →
      ∃ earlier ∈ front, Fits path earlier ∧ Within path earlier
  named : ∀ route ∈ routes, route.uri = [] →
    ∃ other ∈ routes, Fits path other

theorem comparedPart_begins (path : Str) : comparedPart path <+: path := by
  unfold comparedPart
  split
  · exact List.take_prefix _ _
  · exact List.prefix_refl path

theorem comparedPart_length {path uri : Str} (hne : uri ≠ [])
    (h : uri ++ ['/'] <+: path) :
    (comparedPart path).length ≤ uri.length := by
  obtain ⟨rest, rfl⟩ := h
  obtain ⟨c, uri, rfl⟩ := List.exists_cons_of_ne_nil hne
  have hinside : ['/'] <:+: uri ++ ['/'] ++ rest :=
    ⟨uri, rest, rfl⟩
  obtain ⟨pos, hpos⟩ := Option.isSome_iff_exists.mp
    (search?_isSome_iff.mpr hinside)
  have hfirst : pos ≤ uri.length := by
    by_contra hlate
    refine (search?_eq_some_iff.mp hpos).2.2 uri.length (by omega) ?_
    unfold OccursAt
    rw [List.append_assoc, List.drop_left]
    exact List.prefix_append _ _
  unfold comparedPart
  rw [List.cons_append, List.cons_append, List.drop_succ_cons,
    List.drop_zero, hpos]
  refine (List.length_take_le _ _).trans ?_
  rw [List.length_cons]
  omega

theorem Within.fits {path : Str} {route : RouteBlock}
    (hnul : '\x00' ∉ path) (hroot : path ≠ ['/']) (hne : route.uri ≠ [])
    (h : Within path route) : Fits path route := by
  have huri : route.uri <+: path := by
    rcases h with heq | h
    · rw [← heq]
    · exact (List.prefix_append _ _).trans h
  rw [Fits, cStr_eq_self fun hmem => hnul (huri.subset hmem)]
  refine ⟨hroot, ?_⟩
  rcases h with heq | h
  · rw [← heq]
    exact comparedPart_begins path
  · exact List.prefix_of_prefix_length_le (comparedPart_begins path) huri
      (comparedPart_length hne h)

theorem selects_iff (block : ServerBlock) {parts : List Str}
    (hplain : ∀ part ∈ parts, PlainPart part) (route : RouteBlock) :
    Selects block ('/' :: joinDirs parts) route ↔
      ∃ front back, block.routes = front ++ route :: back ∧
        Fits ('/' :: joinDirs parts) route ∧
        ∀ earlier ∈ front, ¬Fits ('/' :: joinDirs parts) earlier := by
  rcases isLocationPath_plain (block.setLocationUrl none) hplain with
    ⟨front, first, back, hroutes, hfits, hearlier, hlocation⟩ |
    ⟨hnone, hlocation⟩
  · rw [setLocationUrl_routes] at hroutes
    have hselected : ((block.setLocationUrl none).setLocationUrl
        (some front.length)).selected = some first := by
      simp [selected, setLocationUrl, hroutes]
    constructor
    · rintro ⟨block', located, heq, hroute⟩
      rw [hlocation] at heq
      obtain ⟨rfl, -⟩ := Prod.mk.inj (Except.ok.inj heq)
      rw [hselected] at hroute
      obtain rfl := Option.some.inj hroute
      exact ⟨front, back, hroutes, hfits, hearlier⟩
    · rintro ⟨front', back', hroutes', hfits', hearlier'⟩
      obtain rfl : route = first :=
        eq_of_first hroutes' hroutes hfits' hearlier' hfits hearlier
      exact ⟨_, _, hlocation, hselected⟩
  · rw [setLocationUrl_routes] at hnone
    constructor
    · rintro ⟨block', located, heq, hroute⟩
      rw [hlocation] at heq
      obtain ⟨rfl, -⟩ := Prod.mk.inj (Except.ok.inj heq)
      cases hroute
    · rintro ⟨front, back, hroutes, hfits, -⟩
      exact absurd hfits (hnone route (by simp [hroutes]))

theorem Within.uri_ne_root {parts : List Str}
    (hplain : ∀ part ∈ parts, PlainPart part)
    (hroot : '/' :: joinDirs parts ≠ ['/']) {route : RouteBlock}
    (h : Within ('/' :: joinDirs parts) route) : route.uri ≠ ['/'] := by
  intro huri
  rw [Within, huri] at h
  rcases h with heq | hstarts
  · exact hroot heq
  · refine search?_slash_joinDirs_ne_zero hplain ?_
    have hslash : ['/'] <+: joinDirs parts :=
      (List.cons_prefix_cons.mp hstarts).2
    cases hjoined : joinDirs parts with
    | nil =>
        rw [hjoined] at hslash
        simp at hslash
    | cons c rest =>
        rw [hjoined] at hslash
        exact search?_cons_of_starts hslash

/-- The first route that fits is one the path belongs to, exactly when the
routes are in this order. -/
theorem wellSelected_iff (block : ServerBlock) {parts : List Str}
    (hplain : ∀ part ∈ parts, PlainPart part) (hne : parts ≠ []) :
    WellSelected block ('/' :: joinDirs parts) ↔
      RoutesTold block.routes ('/' :: joinDirs parts) := by
  have hroot : '/' :: joinDirs parts ≠ ['/'] := by
    simpa [joinDirs_eq_nil hplain] using hne
  have hnul : '\x00' ∉ '/' :: joinDirs parts := by
    simpa using joinDirs_no_nul hplain
  constructor
  · intro h
    refine ⟨?_, ?_⟩
    · intro front route back hroutes hfits hwithin
      obtain ⟨front', first, back', hsplit, hfirst, hearlier⟩ :=
        @exists_first _ (Fits ('/' :: joinDirs parts)) (front ++ [route])
          route (by simp) hfits
      have hselects : Selects block ('/' :: joinDirs parts) first := by
        refine (selects_iff block hplain first).mpr
          ⟨front', back' ++ back, ?_, hfirst, hearlier⟩
        rw [hroutes, List.append_cons, hsplit, List.append_assoc]
        rfl
      have hsound := h.sound first hselects
      have hmem : first ∈ front ++ [route] := by simp [hsplit]
      rcases List.mem_append.mp hmem with hfront | hlast
      · exact ⟨first, hfront, hfirst, hsound⟩
      · rw [List.mem_singleton.mp hlast] at hsound
        exact absurd hsound hwithin
    · intro route hroute huri
      obtain ⟨other, hselects, -⟩ := h.complete ⟨route, hroute,
        by simp [huri], .inr (by simp [huri])⟩
      obtain ⟨front, back, hroutes, hfits, -⟩ :=
        (selects_iff block hplain other).mp hselects
      exact ⟨other, by simp [hroutes], hfits⟩
  · intro h
    have hsound : ∀ route, Selects block ('/' :: joinDirs parts) route →
        Within ('/' :: joinDirs parts) route := by
      intro route hselects
      obtain ⟨front, back, hroutes, hfits, hearlier⟩ :=
        (selects_iff block hplain route).mp hselects
      by_contra hwithin
      obtain ⟨earlier, hmem, hfirst, -⟩ :=
        h.ordered front route back hroutes hfits hwithin
      exact hearlier earlier hmem hfirst
    refine ⟨hsound, ?_⟩
    rintro ⟨route, hroute, -, hwithin⟩
    obtain ⟨fitting, hmem, hfits⟩ :
        ∃ fitting ∈ block.routes, Fits ('/' :: joinDirs parts) fitting := by
      by_cases huri : route.uri = []
      · exact h.named route hroute huri
      · exact ⟨route, hroute, hwithin.fits hnul hroot huri⟩
    obtain ⟨front, first, back, hroutes, hfirst, hearlier⟩ :=
      exists_first hmem hfits
    have hselects := (selects_iff block hplain first).mpr
      ⟨front, back, hroutes, hfirst, hearlier⟩
    have hbelongs := hsound first hselects
    exact ⟨first, hselects, hbelongs.uri_ne_root hplain hroot, hbelongs⟩

theorem wellSelected_iff_upload :
    WellSelected { routes := [{ uri := "/upload".toList }] }
        "/upload/a".toList ↔
      RoutesTold [{ uri := "/upload".toList }] "/upload/a".toList := by
  refine @wellSelected_iff { routes := [{ uri := "/upload".toList }] }
    ["upload".toList, "a".toList] ?_ (by simp)
  intro part hpart
  rcases List.mem_pair.mp hpart with rfl | rfl <;>
    exact ⟨by decide, by decide, by decide, by decide⟩

/-- The comparison stops one character early: "/ab" is selected for
"/a/x". -/
theorem wellSelected_fails_short_comparison :
    ¬WellSelected { routes := [{ uri := "/ab".toList }] }
      "/a/x".toList := by
  intro h
  have hlocation :
      (({ routes := [{ uri := "/ab".toList }] } :
        ServerBlock).setLocationUrl none).isLocationPath "/a/x".toList =
        .ok (({ routes := [{ uri := "/ab".toList }] } :
          ServerBlock).setLocationUrl (some 0), "./html/a/x".toList) := by
    decide
  have hwithin := h.sound { uri := "/ab".toList } ⟨_, _, hlocation, rfl⟩
  revert hwithin
  unfold Within
  decide

end ServerBlock

end Webserv
