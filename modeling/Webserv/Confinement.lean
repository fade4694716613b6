import Webserv.ParseRequest
import Webserv.Disk

namespace Webserv

open Cxx

/-! Where the path of an accepted request may lead. -/

/-- A path at a root of the configuration, or below one through plain
components. -/
def Confined (block : ServerBlock) (path : Str) : Prop :=
  ∃ root, (root = block.serverRoot ∨
      ∃ route ∈ block.routes, root = route.root) ∧
    (path = root ∨ ∃ parts : List Str,
      (∀ part ∈ parts, part ≠ [] ∧ '/' ∉ part ∧ part ≠ "..".toList) ∧
        path = root ++ '/' :: joinDirs parts)

theorem diskPath_eq {block : ServerBlock} {parts : List Str} {located : Str}
    (hplain : ∀ part ∈ parts, PlainPart part) (hlocated : located = []) :
    diskPath block ('/' :: joinDirs parts) located =
      if parts = [] then block.serverRoot
      else block.serverRoot ++ '/' :: joinDirs parts := by
  subst hlocated
  have hcStr := cStr_eq_self (joinDirs_no_nul hplain)
  by_cases hparts : parts = []
  · simp [diskPath, hparts, joinDirs]
  · have hjoin : joinDirs parts ≠ [] := (joinDirs_eq_nil hplain).not.mpr hparts
    simp [diskPath, hparts, hjoin, hcStr]

theorem Accepted.confined {client client' : Client} {parts : List Str}
    {located : Str} (h : Accepted client client' parts located) :
    Confined client.serverClientObj client'.request.path := by
  have hparts : ∀ part ∈ parts,
      part ≠ [] ∧ '/' ∉ part ∧ part ≠ "..".toList :=
    fun part hpart => ⟨(h.plain part hpart).ne_nil,
      (h.plain part hpart).no_slash, (h.plain part hpart).ne_dotDot⟩
  have hpath := h.path
  rcases ServerBlock.isLocationPath_ok h.location with
    ⟨hblock, hlocated⟩ | ⟨i, route, hroute, -, -, hlocated⟩
  · refine ⟨client.serverClientObj.serverRoot, .inl rfl, ?_⟩
    rw [diskPath_eq h.plain hlocated, hblock] at hpath
    by_cases hnone : parts = []
    · simp only [hnone, if_true] at hpath
      by_cases hroot : client.serverClientObj.serverRoot = []
      · -- an empty server root leaves the request path "/" as it is
        rw [if_pos hroot] at hpath
        exact .inr ⟨[], by simp, by rw [hpath, hroot]; rfl⟩
      · rw [if_neg hroot] at hpath
        exact .inl hpath
    · simp only [hnone, if_false] at hpath
      rw [if_neg (by simp)] at hpath
      exact .inr ⟨parts, hparts, hpath⟩
  · refine ⟨route.root, .inr ⟨route, List.mem_of_getElem? hroute, rfl⟩,
      .inr ⟨parts, hparts, ?_⟩⟩
    have hne : located ≠ [] := by
      rw [hlocated]
      simp
    simp only [diskPath, hne, and_false, if_false] at hpath
    rw [hpath, hlocated]
    rfl

/-- A request that `parse_request` lets through names a path at or below one
of the configured roots, however the request spells it. -/
theorem parseRequest_confined {W : Type} [Os W] {world : W}
    {client client' : Client}
    (h : parseRequest world client = .ok client')
    (hready : client'.response.readyToSend = false) :
    Confined client.serverClientObj client'.request.path := by
  obtain ⟨parts, located, haccepted⟩ := parseRequest_accepted h hready
  exact haccepted.confined

theorem parseRequest_confined_html :
    Confined {} "./html/b".toList := by
  let client := (Client.connect 5 {}).setSRequest
    "GET /a//../b HTTP/1.1\r\nHost: h\r\n\r\n".toList
  let client' : Client := { client with
    request := { client.request with
      method := "GET".toList
      version := "HTTP/1.1".toList
      path := "./html/b".toList
      headersMap := [("\r".toList, "h".toList), ("Host".toList, "h".toList)]
      sRequest := []
      index := true } }
  have hrun : parseRequest (W := Disk) ⟨[]⟩ client = .ok client' := by
    decide +kernel
  exact parseRequest_confined hrun rfl

end Webserv
