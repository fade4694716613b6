import Webserv.Cxx.Text

namespace Webserv

open Cxx

/-! The configuration blocks and the two lookups a request makes in them. -/

structure RouteBlock where
  uri : Str := []
  root : Str := "./html".toList
  methods : List Str := ["GET".toList, "POST".toList, "DELETE".toList]
  autoindex : Bool := false
  index : List Str := []
  cgiExtension : List Str := []
  clientBodyTempPath : Str := "./upload".toList
  redirections : List (Int × Str) := []
  deriving DecidableEq, Repr

structure ServerBlock where
  host : Str := []
  port : List Int := []
  serverNames : Str := []
  serverRoot : Str := "./html".toList
  clientBodySize : Nat := 1048576
  index : List Str := []
  routes : List RouteBlock := []
  errorPages : List (Int × Str) := []
  /-- The route chosen for the current request, `none` for the value `-1`. -/
  isLocationUrl : Option Nat := none
  deriving DecidableEq, Repr

namespace RouteBlock

/-- The text `is_valid_method` looks for in a path. -/
def location (route : RouteBlock) : Str := route.root ++ route.uri

end RouteBlock

namespace ServerBlock

def setLocationUrl (block : ServerBlock) (url : Option Nat) : ServerBlock :=
  { block with isLocationUrl := url }

@[simp] theorem setLocationUrl_setLocationUrl (block : ServerBlock)
    (url url' : Option Nat) :
    (block.setLocationUrl url).setLocationUrl url' =
      block.setLocationUrl url' := rfl

@[simp] theorem setLocationUrl_routes (block : ServerBlock)
    (url : Option Nat) : (block.setLocationUrl url).routes = block.routes :=
  rfl

@[simp] theorem setLocationUrl_serverRoot (block : ServerBlock)
    (url : Option Nat) :
    (block.setLocationUrl url).serverRoot = block.serverRoot := rfl

/-- `routes[is_location_url]`. -/
def selected (block : ServerBlock) : Option RouteBlock :=
  block.isLocationUrl.bind fun i => block.routes[i]?

def isValidMethod (routes : List RouteBlock) (path method : Str) : Bool :=
  match routes with
  | [] => true
  | route :: rest =>
      if (search? route.location path).isSome then
        decide (method ∈ route.methods)
      else isValidMethod rest path method

/-- The loop of `is_location_path`, from the route with index `i` on. -/
def findLocation (path : Str) (pos : Nat) :
    Nat → List RouteBlock → Option (Nat × RouteBlock)
  | _, [] => none
  | i, route :: rest =>
      if strncmp pos (cStr path) (cStr route.uri) = 0 then some (i, route)
      else findLocation path pos (i + 1) rest

/-- How many characters of the path are compared, given where the path without
its first slash has one. -/
def comparedLength (pos : Option Nat) (path : Str) : Nat :=
  match pos with
  | some 0 => path.length
  | none => path.length
  | some pos => pos

/-- The path handed back is empty when no route is chosen. -/
def isLocationPath (block : ServerBlock) (path : Str) :
    Except Fault (ServerBlock × Str) := do
  let path ← substrFrom path 1
  let pos := search? ['/'] path
  if path = [] then return (block, [])
  let path := '/' :: path
  match findLocation path (comparedLength pos path) 0 block.routes with
  | some (i, route) =>
      return (block.setLocationUrl (some i), route.root ++ path)
  | none => return (block, [])

def findErrorPagePath (block : ServerBlock) (status : Int) : Str :=
  match block.errorPages.lookup status with
  | some path => path
  | none => "NULL".toList

/-- Whether `is_location_path` takes a route for a URI, compared up to the
second slash of the path. -/
def FitsUri (pos : Nat) (path : Str) (route : RouteBlock) : Prop :=
  strncmp pos (cStr path) (cStr route.uri) = 0

theorem findLocation_split {path : Str} {pos i j : Nat}
    {routes : List RouteBlock} {route : RouteBlock}
    (h : findLocation path pos i routes = some (j, route)) :
    ∃ front back, routes = front ++ route :: back ∧
      j = i + front.length ∧ FitsUri pos path route ∧
      ∀ earlier ∈ front, ¬FitsUri pos path earlier := by
  induction routes generalizing i with
  | nil => cases h
  | cons first rest ih =>
      rw [findLocation] at h
      split at h
      · rename_i hfits
        obtain ⟨rfl, rfl⟩ := Prod.mk.inj (Option.some.inj h)
        exact ⟨[], rest, rfl, rfl, hfits, by simp⟩
      · rename_i hfirst
        obtain ⟨front, back, rfl, rfl, hfits, hearlier⟩ := ih h
        refine ⟨first :: front, back, rfl, by simp; omega, hfits, ?_⟩
        intro earlier hmem
        rcases List.mem_cons.mp hmem with rfl | hmem
        · exact hfirst
        · exact hearlier earlier hmem

theorem findLocation_eq_none {path : Str} {pos i : Nat}
    {routes : List RouteBlock}
    (h : findLocation path pos i routes = none) :
    ∀ route ∈ routes, ¬FitsUri pos path route := by
  induction routes generalizing i with
  | nil => simp
  | cons first rest ih =>
      rw [findLocation] at h
      split at h
      · cases h
      · rename_i hfits
        intro route hroute
        rcases List.mem_cons.mp hroute with rfl | hrest
        · exact hfits
        · exact ih h route hrest

theorem isLocationPath_ok {block block' : ServerBlock} {path located : Str}
    (h : block.isLocationPath path = .ok (block', located)) :
    (block' = block ∧ located = []) ∨
      ∃ i route, block.routes[i]? = some route ∧
        block' = block.setLocationUrl (some i) ∧
        path.drop 1 ≠ [] ∧ located = route.root ++ '/' :: path.drop 1 := by
  unfold isLocationPath at h
  obtain ⟨rest, hrest, h⟩ := bind_ok h
  obtain ⟨-, rfl⟩ := substrFrom_eq_ok hrest
  simp only at h
  split at h
  · obtain ⟨rfl, rfl⟩ := Prod.mk.inj (Except.ok.inj h)
    exact .inl ⟨rfl, rfl⟩
  · rename_i hne
    split at h
    · rename_i i route hfind
      obtain ⟨rfl, rfl⟩ := Prod.mk.inj (Except.ok.inj h)
      obtain ⟨front, back, hroutes, rfl, -, -⟩ := findLocation_split hfind
      exact .inr ⟨_, route, by simp [hroutes], rfl, hne, rfl⟩
    · obtain ⟨rfl, rfl⟩ := Prod.mk.inj (Except.ok.inj h)
      exact .inl ⟨rfl, rfl⟩

end ServerBlock

end Webserv
