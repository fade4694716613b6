import Webserv.Session
import Webserv.Routing

namespace Webserv

open Cxx
open Lexical

/-! What a `DELETE` can remove when a location forbids it. -/

theorem Accepted.path_ne_nil {client client' : Client} {parts : List Str}
    {located : Str} (h : Accepted client client' parts located) :
    client'.request.path ≠ [] := by
  rw [h.path]
  simp only
  split
  · simp
  · assumption

/-- The text in which `is_valid_method` looks for a location: the path, except
that an empty server root is not put in front of "/". -/
def checkedText (block : ServerBlock) (path : Str) : Str :=
  if block.serverRoot = [] ∧ path = ['/'] then [] else path

theorem Accepted.checkedText_eq {client client' : Client}
    {parts : List Str} {located : Str}
    (h : Accepted client client' parts located) :
    diskPath client'.serverClientObj ('/' :: joinDirs parts) located =
      checkedText client'.serverClientObj client'.request.path := by
  have hpath := h.path
  simp only at hpath
  unfold checkedText
  rcases ServerBlock.isLocationPath_ok h.location with
    ⟨-, rfl⟩ | ⟨i, route, -, -, hne, rfl⟩
  · rw [diskPath_eq h.plain rfl] at hpath ⊢
    by_cases hparts : parts = []
    · subst hparts
      by_cases hroot : client'.serverClientObj.serverRoot = []
      · simp_all [joinDirs]
      · simp_all
    · have hjoin : joinDirs parts ≠ [] :=
        (joinDirs_eq_nil h.plain).not.mpr hparts
      rw [if_neg hparts, if_neg (by simp)] at hpath
      rw [if_neg hparts, hpath, if_neg]
      rintro ⟨hroot, hslash⟩
      rw [hroot] at hslash
      exact hjoin (List.cons.inj hslash).2
  · have hdisk : diskPath client'.serverClientObj ('/' :: joinDirs parts)
        (route.root ++ '/' :: List.drop 1 ('/' :: joinDirs parts)) =
          route.root ++ '/' :: joinDirs parts := by
      simp [diskPath]
    rw [hdisk] at hpath ⊢
    rw [if_neg (by simp)] at hpath
    rw [hpath, if_neg]
    rintro ⟨-, hslash⟩
    have hlength := congrArg List.length hslash
    have hpositive : 0 < (joinDirs parts).length :=
      List.length_pos_iff.mpr hne
    simp only [List.length_append, List.length_cons, List.length_nil]
      at hlength
    omega

/-- Two places of which one lies at or below the other. -/
def Comparable (path base : Str) : Prop :=
  AtOrBelow path base ∨ AtOrBelow base path

/-- A request for the removal of a protected place, of something below it or
of a directory above it names a location that forbids it, ahead of any that
allows it; or it is answered without any check of locations. -/
def RefusedAround (base : Str) (parsed : Client) : Prop :=
  parsed.request.method = "DELETE".toList →
    Comparable parsed.request.path base →
      ServerBlock.Governed parsed.serverClientObj.routes
          (checkedText parsed.serverClientObj parsed.request.path)
          "DELETE".toList False ∨
        parsed.response.readyToSend = true

namespace Session

variable {W : Type} [Os W]

/-- The condition on one event: the head it may complete is refused. -/
def DeletesRefused (base : Str) (session : Session W) : Event → Prop
  | .receive fd bytes => ∀ client parsed,
      session.clients fd = some client → client.allRecv = false →
        client.request.index = false →
        parseRequest session.process.world
          (client.setSRequest bytes).forgetLocation = .ok parsed →
        RefusedAround base parsed
  | _ => True

def NothingRemoved (base : Str) (process : Process W) : Prop :=
  ∀ effect ∈ process.effects, ∀ path,
    effect.act = .remove path → ¬AtOrBelow path base

/-- A parsed request that is still to be handled leaves the place alone. -/
def LeavesAlone (base : Str) (client : Client) : Prop :=
  client.response.readyToSend = false →
    client.request.method = "DELETE".toList →
      client.request.path ≠ [] ∧ ¬Comparable client.request.path base

/-- The invariant: nothing has been removed there, and no client is about to
remove anything there. -/
structure DeleteInvariant (base : Str) (session : Session W) : Prop where
  removed : NothingRemoved base session.process
  clients : ∀ fd client, session.clients fd = some client →
    LeavesAlone base client

theorem leavesAlone_of_refused {base : Str} {world : W}
    {client parsed : Client}
    (hparsed : parseRequest world client = .ok parsed)
    (hrefused : RefusedAround base parsed) : LeavesAlone base parsed := by
  intro hready hmethod
  obtain ⟨parts, located, haccepted⟩ :=
    parseRequest_accepted hparsed hready
  refine ⟨haccepted.path_ne_nil, fun hcomparable => ?_⟩
  rcases hrefused hmethod hcomparable with hgoverned | hanswered
  · have hallowed := haccepted.allowed
    rw [haccepted.checkedText_eq, hmethod] at hallowed
    exact (ServerBlock.isValidMethod_iff_governed.mpr hgoverned).mp hallowed
  · rw [hready] at hanswered
    cases hanswered

theorem dispatch_removes {base : Str} {process process' : Process W}
    {client client' : Client} (halone : LeavesAlone base client)
    (h : dispatchRequest process client = .ok (process', client')) :
    LeavesAlone base client' ∧ ∃ acts : List Act,
      process'.effects =
        process.effects ++ acts.map (Effect.mk client.clientId) ∧
      ∀ path, .remove path ∈ acts → ¬AtOrBelow path base := by
  have hserved := dispatchRequest_served h
  obtain ⟨file, sRequest, hrequest⟩ := hserved.request
  constructor
  · intro hready hmethod
    rw [hrequest] at hmethod ⊢
    refine halone ?_ hmethod
    by_contra hnot
    have hwas := hserved.ready (by simpa using hnot)
    rw [hready] at hwas
    cases hwas
  · by_cases hready : client.response.readyToSend = true
    · rw [dispatchRequest_of_ready hready] at h
      obtain ⟨rfl, -⟩ := Prod.mk.inj (Except.ok.inj h)
      exact ⟨[], by simp, by simp⟩
    · obtain ⟨acts, heffects, hacts⟩ := hserved.effects
      refine ⟨acts, heffects, fun path hpath hbase => ?_⟩
      obtain ⟨hmethod, hbelow⟩ := hacts _ hpath
      obtain ⟨hne, hapart⟩ :=
        halone (by simpa using hready) hmethod
      exact hapart (AtOrBelow.comparable (hbelow hne) hbase)

theorem receive_leavesAlone {base : Str} {process process' : Process W}
    {client client' : Client} {bytes : Str}
    (hremoved : NothingRemoved base process)
    (halone : LeavesAlone base client)
    (hrefused : client.allRecv = false → client.request.index = false →
      ∀ parsed, parseRequest process.world
        (client.setSRequest bytes).forgetLocation = .ok parsed →
      RefusedAround base parsed)
    (h : receive process client bytes = .ok (process', client')) :
    NothingRemoved base process' ∧ LeavesAlone base client' := by
  rcases receive_cases h with ⟨-, rfl, rfl⟩ | ⟨hall, parsed, hparsed, h⟩
  · exact ⟨hremoved, halone⟩
  -- a client about to be handled leaves the place alone
  have hhandled : LeavesAlone base parsed := by
    rcases parseOnce_cases hparsed with ⟨hindex, hparse⟩ | ⟨-, rfl⟩
    · exact leavesAlone_of_refused hparse
        (hrefused hall hindex parsed hparse)
    · exact halone
  obtain ⟨halone', acts, heffects, hacts⟩ := dispatch_removes hhandled h
  refine ⟨fun effect heffect path hact => ?_, halone'⟩
  rw [heffects] at heffect
  rcases List.mem_append.mp heffect with hold | hnew
  · exact hremoved effect hold path hact
  · obtain ⟨act, hmem, rfl⟩ := List.mem_map.mp hnew
    subst hact
    exact hacts path hmem

theorem step_deleteInvariant {base : Str} {session next : Session W}
    {event : Event} (hinvariant : DeleteInvariant base session)
    (hrefused : DeletesRefused base session event)
    (h : step session event = .ok next) : DeleteInvariant base next := by
  have hconnect : ∀ fd block, event = .connect fd block →
      LeavesAlone base (Client.connect fd block) := by
    intro fd block _ _ hmethod
    cases hmethod
  have hreceive : ∀ fd bytes client process' client',
      event = .receive fd bytes → session.clients fd = some client →
      receive session.process client bytes = .ok (process', client') →
      NothingRemoved base process' ∧ LeavesAlone base client' := by
    rintro fd bytes client process' client' rfl hclient hhandled
    exact receive_leavesAlone hinvariant.removed
      (hinvariant.clients fd client hclient)
      (fun hall hindex parsed => hrefused client parsed hclient hall hindex)
      hhandled
  obtain ⟨hremoved, hclients⟩ := step_rule (NothingRemoved base)
    (fun _ => LeavesAlone base) hinvariant.removed hinvariant.clients hconnect
    hreceive h
  exact ⟨hremoved, hclients⟩

def privateRoute : RouteBlock where
  uri := "/private".toList
  methods := ["GET".toList]

def privateDisk : Disk where
  nodes := [
    (Lexical.resolve "./html".toList, .directory),
    (Lexical.resolve "./html/private".toList, .directory),
    (Lexical.resolve "./html/private/x".toList, .file "x".toList)]

end Session

end Webserv
