import Webserv.ParseGate
import Webserv.Buffers

namespace Webserv

open Cxx

/-! What a `GET` for a directory is answered with: the first index file that
exists, or a listing where it is switched on. -/

section IndexResolution

variable {W : Type} [Os W]

def indexNames (block : ServerBlock) : List Str :=
  match block.selected with
  | some route => route.index
  | none => block.index

/-- The files that may stand for a directory, in the order they are tried. -/
def candidates (client : Client) : List Str :=
  let path := client.request.path
  if indexNames client.serverClientObj = [] then
    [path ++ "/".toList ++ "index.html".toList]
  else
    (indexNames client.serverClientObj).map fun name =>
      path ++ "/".toList ++ name

structure FirstExisting (world : W) (files : List Str) (file : Str) :
    Prop where
  exists_split : ∃ front back, files = front ++ file :: back ∧
    ∀ earlier ∈ front, Os.stat world earlier = none
  present : (Os.stat world file).isSome

/-- The directory can be listed, with these names. -/
structure ReadableDirectory (world : W) (path : Str) (names : List Str) :
    Prop where
  directory : ∃ pathStat, Os.stat world path = some pathStat ∧
    pathStat.kind = .directory
  readable : Os.access world path .read = true
  listed : Os.readdir world path = some names

/-- A listing of the names is handed out, for a route that allows it. -/
def ListingSent (client : Client) (names : List Str) (answer : Client) : Prop :=
  ∃ route, client.serverClientObj.selected = some route ∧
    route.autoindex = true ∧ directoryListing client names = .ok answer

def Refuses (world : W) (client answer : Client) : Prop :=
  ∃ status, (status = 403 ∨ status = 404) ∧
    answer = setResponseError world client status

structure IndexResolved (world : W) (client : Client) (names : List Str) :
    Prop where
  found : ∀ file, FirstExisting world (candidates client) file →
    responseToGet world client = .ok (sendFile world client file)
  missing : (∀ file ∈ candidates client, Os.stat world file = none) →
    ∃ answer, responseToGet world client = .ok answer ∧
      (ListingSent client names answer ∨ Refuses world client answer)

theorem findIndex_first {world : W} {path : Str} {names : List Str}
    {str file : Str}
    (h : FirstExisting world
      (names.map fun name => path ++ "/".toList ++ name) file) :
    findIndex world path names str = file := by
  obtain ⟨⟨front, back, hsplit, hearlier⟩, hpresent⟩ := h
  induction names generalizing front str with
  | nil => cases front <;> cases hsplit
  | cons name rest ih =>
      rw [List.map_cons] at hsplit
      rw [findIndex]
      cases front with
      | nil =>
          obtain ⟨rfl, -⟩ := List.cons.inj hsplit
          exact if_pos hpresent
      | cons earlier front =>
          obtain ⟨rfl, hrest⟩ := List.cons.inj hsplit
          have hnone := hearlier _ List.mem_cons_self
          rw [hnone, if_neg (by simp)]
          exact ih _ hrest fun file hfile =>
            hearlier file (List.mem_cons_of_mem _ hfile)

theorem findIndex_missing {world : W} {path : Str} {names : List Str}
    {str : Str} (hstr : names = [] → Os.stat world str = none)
    (h : ∀ name ∈ names, Os.stat world (path ++ "/".toList ++ name) = none) :
    Os.stat world (findIndex world path names str) = none := by
  induction names generalizing str with
  | nil => exact hstr rfl
  | cons name rest ih =>
      have hname := h name List.mem_cons_self
      rw [findIndex, hname, if_neg (by simp)]
      exact ih (fun _ => hname) fun name hmem =>
        h name (List.mem_cons_of_mem _ hmem)

theorem indexCandidate_eq (world : W) (client : Client) :
    indexCandidate world client =
      if indexNames client.serverClientObj = [] then
        client.request.path ++ "/".toList ++ "index.html".toList
      else findIndex world client.request.path
        (indexNames client.serverClientObj) [] := by
  unfold indexCandidate indexNames
  cases hselected : client.serverClientObj.selected <;> simp only [hselected]

theorem indexCandidate_first {world : W} {client : Client} {file : Str}
    (h : FirstExisting world (candidates client) file) :
    indexCandidate world client = file := by
  rw [indexCandidate_eq]
  unfold candidates at h
  simp only at h
  split
  · rename_i hnames
    rw [if_pos hnames] at h
    obtain ⟨front, back, hsplit, -⟩ := h.exists_split
    cases front with
    | nil => exact (List.cons.inj hsplit).1
    | cons earlier front =>
        have hlength := congrArg List.length hsplit
        simp at hlength
  · rename_i hnames
    rw [if_neg hnames] at h
    exact findIndex_first h

theorem indexCandidate_missing {world : W} {client : Client}
    (h : ∀ file ∈ candidates client, Os.stat world file = none) :
    Os.stat world (indexCandidate world client) = none := by
  rw [indexCandidate_eq]
  unfold candidates at h
  simp only at h
  split
  · rename_i hnames
    rw [if_pos hnames] at h
    exact h _ List.mem_cons_self
  · rename_i hnames
    rw [if_neg hnames] at h
    exact findIndex_missing (fun hnil => absurd hnil hnames)
      fun name hname => h _ (List.mem_map_of_mem hname)

theorem checkAutoIndex_cases (world : W) (client : Client)
    (routes : List RouteBlock) :
    checkAutoIndex world client routes =
        (setResponseError world client 403, 1) ∨
      checkAutoIndex world client routes = (client, 2) := by
  induction routes with
  | nil => exact .inr rfl
  | cons route rest ih =>
      rw [checkAutoIndex]
      split
      · exact .inl rfl
      · exact ih

theorem directoryAnswer_zero (world : W) (client : Client) (str : Str)
    (names : List Str) :
    directoryAnswer world client 0 str names =
      .ok (sendFile world client str) := by
  unfold directoryAnswer
  rw [if_neg (by decide)]
  cases client.serverClientObj.selected with
  | none => rfl
  | some route => cases hauto : route.autoindex <;> simp [hauto]

/-- The path the request stands for lies below the root of its route. -/
def Client.Located (client : Client) : Prop :=
  ∀ route, client.serverClientObj.selected = some route →
    route.root <+: client.request.path

theorem directoryListing_total {client : Client} (h : client.Located)
    {route : RouteBlock}
    (hselected : client.serverClientObj.selected = some route)
    (names : List Str) :
    ∃ answer, directoryListing client names = .ok answer := by
  have hlength := (h route hselected).length_le
  unfold directoryListing
  simp only [hselected]
  rw [substrFrom_ok hlength]
  by_cases hnames : names = []
  · rw [if_pos hnames]
    exact ⟨_, rfl⟩
  · rw [if_neg hnames]
    exact ⟨_, rfl⟩

theorem directoryAnswer_missing {world : W} {client : Client}
    (h : client.Located) (str : Str) (names : List Str) :
    ∃ answer, directoryAnswer world
          (checkAutoIndex world client client.serverClientObj.routes).1
          (checkAutoIndex world client client.serverClientObj.routes).2
          str names = .ok answer ∧
      (ListingSent client names answer ∨ Refuses world client answer) := by
  rcases checkAutoIndex_cases world client client.serverClientObj.routes with
    hoff | hopen
  · refine ⟨setResponseError world client 403, ?_, .inr ⟨403, .inl rfl, rfl⟩⟩
    rw [hoff]
    rfl
  · rw [hopen]
    unfold directoryAnswer
    rw [if_neg (by simp)]
    cases hselected : client.serverClientObj.selected with
    | none => exact ⟨_, rfl, .inr ⟨403, .inl rfl, rfl⟩⟩
    | some route =>
        simp only
        cases hauto : route.autoindex with
        | false => exact ⟨_, rfl, .inr ⟨404, .inr rfl, rfl⟩⟩
        | true =>
            obtain ⟨answer, hanswer⟩ :=
              directoryListing_total h hselected names
            exact ⟨answer, hanswer, .inl ⟨route, hselected, hauto, hanswer⟩⟩

theorem responseToGet_directory {world : W} {client : Client}
    {names : List Str}
    (h : ReadableDirectory world client.request.path names) :
    responseToGet world client =
      if (Os.stat world (indexCandidate world client)).isNone then
        directoryAnswer world
          (checkAutoIndex world client client.serverClientObj.routes).1
          (checkAutoIndex world client client.serverClientObj.routes).2
          (indexCandidate world client) names
      else directoryAnswer world client 0 (indexCandidate world client)
        names := by
  obtain ⟨pathStat, hstat, hkind⟩ := h.directory
  unfold responseToGet
  rw [hstat]
  simp only [hkind]
  unfold directoryResponse
  rw [h.readable, if_neg (by decide), h.listed]

theorem responseToGet_resolved {world : W} {client : Client}
    {names : List Str} (hlocated : client.Located)
    (h : ReadableDirectory world client.request.path names) :
    IndexResolved world client names := by
  refine ⟨?_, ?_⟩
  · intro file hfile
    rw [responseToGet_directory h, indexCandidate_first hfile,
      if_neg (by simp [Option.isSome_iff_ne_none.mp hfile.present]),
      directoryAnswer_zero]
  · intro hmissing
    rw [responseToGet_directory h, indexCandidate_missing hmissing,
      if_pos (by rfl)]
    exact directoryAnswer_missing hlocated _ names

/-! Every request that comes as far as `response_to_get` is located. -/

theorem Accepted.located {client client' : Client} {parts : List Str}
    {located : Str} (h : Accepted client client' parts located)
    (hforgot : client.serverClientObj.selected = none) : client'.Located := by
  intro route hselected
  have hpath := h.path
  rcases ServerBlock.isLocationPath_ok h.location with
    ⟨hblock, -⟩ | ⟨i, chosen, hroute, hblock, -, hlocated⟩
  · rw [hblock, hforgot] at hselected
    cases hselected
  · have hchosen : route = chosen := by
      rw [hblock] at hselected
      change client.serverClientObj.routes[i]? = some route at hselected
      rw [hroute] at hselected
      exact (Option.some.inj hselected).symm
    have hdisk : diskPath client'.serverClientObj ('/' :: joinDirs parts)
        located = located := by
      simp [diskPath, hlocated]
    rw [hpath, hdisk, hlocated, hchosen]
    simp

theorem parseOnce_located {world : W} {client parsed : Client}
    (h : parseOnce world client.forgetLocation = .ok parsed)
    (hready : parsed.response.readyToSend = false) : parsed.Located := by
  unfold parseOnce at h
  split at h
  · obtain ⟨parts, located, haccepted⟩ := parseRequest_accepted h hready
    exact haccepted.located rfl
  · obtain rfl := Except.ok.inj h
    intro route hselected
    cases hselected

/-- The directory of an accepted request is answered with its first index
file, or else refused or, where that is switched on, listed. -/
theorem indexResolved {world : W} {client parsed : Client}
    {names : List Str}
    (hparse : parseOnce world client.forgetLocation = .ok parsed)
    (hready : parsed.response.readyToSend = false)
    (hdirectory : ReadableDirectory world parsed.request.path names) :
    IndexResolved world parsed names :=
  responseToGet_resolved (parseOnce_located hparse hready) hdirectory

end IndexResolution

/-! A site whose only directory can be listed, asked for it. -/

def openSite : Disk := .ofDirectories ["./html".toList, "./html/open".toList]

def openBlock : ServerBlock where
  routes := [{ uri := "/open".toList, autoindex := true }]

def openVisitor : Client where
  clientId := 5
  request := { sRequest := "GET /open HTTP/1.1\r\n\r\n".toList }
  serverClientObj := openBlock

theorem indexResolved_open :
    ∃ parsed, parseOnce openSite openVisitor.forgetLocation = .ok parsed ∧
      IndexResolved openSite parsed [".".toList, "..".toList] := by
  have hrun : (parseOnce openSite openVisitor.forgetLocation).toOption.map
      (fun parsed => (parsed.response.readyToSend, parsed.request.path)) =
        some (false, "./html/open".toList) := by decide +kernel
  obtain ⟨parsed, hparse, hparts⟩ := ok_of_toOption_map hrun
  obtain ⟨hready, hpath⟩ := Prod.mk.inj hparts
  refine ⟨parsed, hparse, indexResolved hparse hready ?_⟩
  rw [hpath]
  exact ⟨⟨⟨.directory, true, true⟩, by decide +kernel, rfl⟩,
    by decide +kernel, by decide +kernel⟩

end Webserv
