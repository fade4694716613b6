import Webserv.PostStatics

namespace Webserv

open Cxx

/-! The statics of all body handlers, between one request and the next. -/

section Idle

variable {W : Type}

/-- The statics of `boundary` at their initial values, and no file open in
`create_file`. -/
structure PartStatics.Idle (part : PartStatics) : Prop where
  buffer : part.buffer = []
  callCount : part.callCount = 0
  boundaryStr : part.boundaryStr = []
  processingFile : part.processingFile = false
  file : part.file.isOpen = false

structure Process.Idle (process : Process W) : Prop where
  post : process.post = {}
  chunkRequest : process.chunkRequest = []
  part : process.part.Idle
  cgiChunk : process.cgiChunk = {}
  bodyCgi : process.bodyCgi = {}

instance (part : PartStatics) : Decidable part.Idle :=
  decidable_of_iff (part.buffer = [] ∧ part.callCount = 0 ∧
      part.boundaryStr = [] ∧ part.processingFile = false ∧
        part.file.isOpen = false)
    ⟨fun h => ⟨h.1, h.2.1, h.2.2.1, h.2.2.2.1, h.2.2.2.2⟩,
      fun h => ⟨h.1, h.2, h.3, h.4, h.5⟩⟩

instance (process : Process W) : Decidable process.Idle :=
  decidable_of_iff (process.post = {} ∧ process.chunkRequest = [] ∧
      process.part.Idle ∧ process.cgiChunk = {} ∧ process.bodyCgi = {})
    ⟨fun h => ⟨h.1, h.2.1, h.2.2.1, h.2.2.2.1, h.2.2.2.2⟩,
      fun h => ⟨h.1, h.2, h.3, h.4, h.5⟩⟩

/-- The three ways to take a body, by the head of its request. -/
inductive BodyKind
  | parts
  | chunks
  | plain
  deriving DecidableEq, Repr

def bodyKind (client : Client) : BodyKind :=
  let contentType := client.request.getMapValues "Content-Type".toList
  let check := client.request.getMapValues "Transfer-Encoding".toList
  if (search? "boundary=".toList contentType).isSome ∧ check ≠ [] then .parts
  else if check = "chunked".toList then .chunks
  else .plain

/-- The statics that a body of a kind leaves alone are idle, and the others
are as they may be while it is being taken. -/
structure Process.IdleBut (kind : BodyKind) (process : Process W) :
    Prop where
  first : process.post.first = 0 → process.post = {}
  file : process.part.file.isOpen = true → process.part.processingFile = true
  post : kind = .parts → process.post = {}
  chunkRequest : kind ≠ .chunks → process.chunkRequest = []
  part : kind ≠ .parts → process.part.Idle
  cgiChunk : process.cgiChunk = {}
  bodyCgi : process.bodyCgi = {}

theorem Process.Idle.but {process : Process W} (h : process.Idle)
    (kind : BodyKind) : process.IdleBut kind where
  first := fun _ => h.post
  file := fun hopen => absurd (h.part.file.symm.trans hopen) (by decide)
  post := fun _ => h.post
  chunkRequest := fun _ => h.chunkRequest
  part := fun _ => h.part
  cgiChunk := h.cgiChunk
  bodyCgi := h.bodyCgi

end Idle

section Bodies

variable {W : Type} [Os W] {process process' : Process W}
  {client client' : Client}

theorem takeBody_eq (process : Process W) (client : Client) :
    takeBody process client =
      match bodyKind client with
      | .parts => boundary process client
      | .chunks => chunked process client
      | .plain => hanldePostRequest process client := by
  unfold takeBody bodyKind
  simp only
  split
  · rfl
  · split <;> rfl

/-! `boundary` is idle behind every body it ends. -/

theorem closeProcessed_closes
    (hfile : process.part.file.isOpen = true →
      process.part.processingFile = true)
    (h : closeProcessed process client = .ok (process', client')) :
    process'.part.file.isOpen = false ∧
      process'.part.processingFile = false ∧
      ∃ part, process' = { process with part := part } := by
  unfold closeProcessed at h
  split at h
  · obtain ⟨⟨created, client₁⟩, hcreate, h⟩ := bind_ok h
    obtain ⟨rfl, -⟩ := Prod.mk.inj (Except.ok.inj h)
    obtain ⟨rfl, -⟩ := Prod.mk.inj (Except.ok.inj hcreate)
    exact ⟨rfl, rfl, _, rfl⟩
  · rename_i hprocessing
    obtain ⟨rfl, -⟩ := Prod.mk.inj (Except.ok.inj h)
    refine ⟨?_, (Bool.not_eq_true _).mp hprocessing, process.part, rfl⟩
    exact (Bool.not_eq_true _).mp fun hopen => hprocessing (hfile hopen)

theorem takeBuffer_watched
    (h : takeBuffer process client = .ok (process', client')) :
    process'.part.processingFile = true ∧
      ∃ world part effects, process' = { process with
        world := world
        part := part
        effects := effects } := by
  unfold takeBuffer at h
  split at h
  · obtain ⟨⟨created, client₁⟩, hcreate, h⟩ := bind_ok h
    obtain ⟨rfl, -⟩ := Prod.mk.inj (Except.ok.inj h)
    obtain ⟨_, _, _, _, rfl⟩ := createFile_frame hcreate
    exact ⟨rfl, _, _, _, rfl⟩
  · rename_i hprocessing
    obtain ⟨⟨created, client₁⟩, hcreate, h⟩ := bind_ok h
    obtain ⟨rfl, -⟩ := Prod.mk.inj (Except.ok.inj h)
    obtain ⟨_, _, _, _, rfl⟩ := createFile_frame hcreate
    exact ⟨(Bool.not_eq_false _).mp hprocessing, _, _, _, rfl⟩

theorem takeChunk_closes {pos : Nat}
    (h : takeChunk process client pos = .ok (process', client')) :
    process'.part.file.isOpen = false ∧
      ∃ world part effects, process' = { process with
        world := world
        part := part
        effects := effects } := by
  unfold takeChunk at h
  obtain ⟨data, -, h⟩ := bind_ok h
  obtain ⟨dataChunk, -, h⟩ := bind_ok h
  obtain ⟨⟨created, client₁⟩, hcreate, h⟩ := bind_ok h
  obtain ⟨⟨closed, client₂⟩, hclose, h⟩ := bind_ok h
  obtain ⟨rfl, -⟩ := Prod.mk.inj (Except.ok.inj h)
  obtain ⟨rfl, -⟩ := Prod.mk.inj (Except.ok.inj hclose)
  obtain ⟨_, _, _, _, rfl⟩ := createFile_frame hcreate
  exact ⟨rfl, _, _, _, rfl⟩

theorem boundaryLoop_watched {fuel : Nat}
    (hfile : process.part.file.isOpen = true →
      process.part.processingFile = true)
    (h : boundaryLoop fuel process client = .ok (process', client')) :
    (process'.part.file.isOpen = true →
      process'.part.processingFile = true) ∧
      ∃ world part effects, process' = { process with
        world := world
        part := part
        effects := effects } := by
  induction fuel generalizing process client with
  | zero => cases h
  | succ fuel ih =>
      rw [boundaryLoop] at h
      simp only at h
      split at h
      · obtain ⟨hprocessing, hframe⟩ := takeBuffer_watched h
        exact ⟨fun _ => hprocessing, hframe⟩
      split at h
      · obtain ⟨⟨closed, client₁⟩, hclose, h⟩ := bind_ok h
        obtain ⟨rest, -, h⟩ := bind_ok h
        obtain ⟨hclosed, -, part, rfl⟩ := closeProcessed_closes hfile hclose
        have hshut : part.file.isOpen = true → part.processingFile = true :=
          fun hopen => absurd (hclosed.symm.trans hopen) (by decide)
        obtain ⟨hlater, world, part', effects, rfl⟩ := ih hshut h
        exact ⟨hlater, world, part', effects, rfl⟩
      · obtain ⟨⟨taken, client₁⟩, htake, h⟩ := bind_ok h
        obtain ⟨rest, -, h⟩ := bind_ok h
        obtain ⟨hclosed, world, part, effects, rfl⟩ := takeChunk_closes htake
        have hshut : part.file.isOpen = true → part.processingFile = true :=
          fun hopen => absurd (hclosed.symm.trans hopen) (by decide)
        obtain ⟨hlater, world', part', effects', rfl⟩ := ih hshut h
        exact ⟨hlater, world', part', effects', rfl⟩

omit [Os W] in
theorem startBoundary_watched {started : Process W}
    (h : startBoundary process = .ok (some started)) :
    ∃ part, started = { process with part := part } ∧
      part.file = process.part.file ∧
      part.processingFile = process.part.processingFile := by
  unfold startBoundary boundaryLine at h
  split at h
  · simp only at h
    split at h
    · cases h
    · obtain ⟨firstLine, -, h⟩ := bind_ok h
      split at h
      · obtain ⟨rest, -, h⟩ := bind_ok h
        obtain rfl := Option.some.inj (Except.ok.inj h)
        exact ⟨_, rfl, rfl, rfl⟩
      · cases h
  · obtain rfl := Option.some.inj (Except.ok.inj h)
    exact ⟨process.part, rfl, rfl, rfl⟩

theorem boundaryEnd_idle
    (hfile : process.part.file.isOpen = true →
      process.part.processingFile = true)
    (h : boundaryEnd process client = .ok (process', client')) :
    (client'.allRecv = true → process'.part.Idle) ∧
      (process'.part.file.isOpen = true →
        process'.part.processingFile = true) ∧
      ∃ part, process' = { process with part := part } := by
  unfold boundaryEnd at h
  split at h
  · obtain ⟨⟨closed, client₁⟩, hclose, h⟩ := bind_ok h
    obtain ⟨rfl, rfl⟩ := Prod.mk.inj (Except.ok.inj h)
    obtain ⟨hclosed, -, part, rfl⟩ := closeProcessed_closes hfile hclose
    refine ⟨fun _ => ⟨rfl, rfl, rfl, rfl, hclosed⟩, fun hopen => ?_, _, rfl⟩
    exact absurd (hclosed.symm.trans hopen) (by decide)
  · rename_i hmore
    obtain ⟨rfl, rfl⟩ := Prod.mk.inj (Except.ok.inj h)
    exact ⟨fun hall => absurd hall hmore, hfile, process.part, rfl⟩

/-- Every body that `boundary` ends leaves its statics idle. -/
theorem boundary_idle (hopen : client.allRecv = false)
    (hfile : process.part.file.isOpen = true →
      process.part.processingFile = true)
    (h : boundary process client = .ok (process', client')) :
    (client'.allRecv = true → process'.part.Idle) ∧
      (process'.part.file.isOpen = true →
        process'.part.processingFile = true) ∧
      ∃ world part effects, process' = { process with
        world := world
        part := part
        effects := effects } := by
  unfold boundary at h
  obtain ⟨started, hstart, h⟩ := bind_ok h
  split at h
  · obtain ⟨rfl, rfl⟩ := Prod.mk.inj (Except.ok.inj h)
    refine ⟨fun hall => ?_, hfile, _, _, _, rfl⟩
    exact absurd (hopen.symm.trans hall) (by decide)
  · rename_i started
    obtain ⟨⟨looped, client₁⟩, hloop, h⟩ := bind_ok h
    obtain ⟨part, rfl, hsame, hprocessing⟩ := startBoundary_watched hstart
    have hstarted : part.file.isOpen = true →
        part.processingFile = true := by
      rw [hsame, hprocessing]
      exact hfile
    obtain ⟨hwatched, world, part', effects, rfl⟩ :=
      boundaryLoop_watched hstarted hloop
    obtain ⟨hidle, hlater, part'', rfl⟩ := boundaryEnd_idle hwatched h
    exact ⟨hidle, hlater, _, _, _, rfl⟩

/-! A buffer of a body, in any of the three ways. -/

/-- The pieces that a plain or chunked body hands on. -/
def bodyRead (process : Process W) (client : Client) : ChunksRead :=
  let request := process.chunkRequest ++ client.request.sRequest
  if bodyKind client = .chunks then
    readChunks (request.length + 1) request
  else ⟨[client.request.sRequest], [], false⟩

/-- A body that `boundary` takes needs no condition. -/
def ResetsBody (process : Process W) (client : Client) : Prop :=
  bodyKind client ≠ .parts →
    ResetsPost process client (bodyRead process client)

theorem takeBody_idle (hopen : client.allRecv = false)
    (hbut : process.IdleBut (bodyKind client))
    (hclean : ResetsBody process client)
    (h : takeBody process client = .ok (process', client')) :
    (client'.allRecv = true → process'.Idle) ∧
      process'.IdleBut (bodyKind client) := by
  rw [takeBody_eq] at h
  unfold ResetsBody bodyRead at hclean
  cases hkind : bodyKind client with
  | parts =>
      rw [hkind] at h hbut
      obtain ⟨hpart, hfile, world, part, effects, rfl⟩ :=
        boundary_idle hopen hbut.file h
      have hpost := hbut.post rfl
      have hchunks := hbut.chunkRequest (by decide)
      exact ⟨fun hall =>
          ⟨hpost, hchunks, hpart hall, hbut.cgiChunk, hbut.bodyCgi⟩,
        fun _ => hpost, hfile, fun _ => hpost, fun _ => hchunks,
        fun hne => absurd rfl hne, hbut.cgiChunk, hbut.bodyCgi⟩
  | chunks =>
      rw [hkind] at h hbut hclean
      have hclean := hclean (by decide)
      rw [if_pos rfl] at hclean
      have hpart := hbut.part (by decide)
      rw [chunked_eq_with] at h
      obtain ⟨posted, answered, hpieces, rfl, rfl⟩ :=
        chunkedLoopWith_read hanldePostRequest_oblivious h
      have hreset : ResetsPost { process with
          chunkRequest := process.chunkRequest ++ client.request.sRequest }
          client _ :=
        ⟨hclean.refused, hclean.found, hclean.front, hclean.final,
          hclean.empty⟩
      obtain ⟨hend, hfirst⟩ :=
        hreset.pieces readChunks_last hbut.first hopen hpieces
      obtain ⟨_, _, _, _, rfl⟩ := piecesWith_frame hpieces
      refine ⟨fun hall => ?_, hfirst, hbut.file, fun hne => (by cases hne),
        fun hne => absurd rfl hne, fun _ => hpart, hbut.cgiChunk,
        hbut.bodyCgi⟩
      have hended : answered.allRecv = true ∨ (readChunks
          ((process.chunkRequest ++ client.request.sRequest).length + 1)
          (process.chunkRequest ++ client.request.sRequest)).last = true := by
        split at hall
        · rename_i hlast
          exact .inr hlast
        · exact .inl hall
      obtain ⟨hpost, hrest⟩ := hend hended
      exact ⟨hpost, hrest, hpart, hbut.cgiChunk, hbut.bodyCgi⟩
  | plain =>
      rw [hkind] at h hbut hclean
      have hclean := hclean (by decide)
      rw [if_neg (by decide)] at hclean
      have hpart := hbut.part (by decide)
      have hchunks := hbut.chunkRequest (by decide)
      have hpieces : piecesWith hanldePostRequest process client
          [client.request.sRequest] = .ok (process', client') := by
        have hcall : hanldePostRequest process
            (client.setSRequest client.request.sRequest) =
              .ok (process', client') := h
        rw [piecesWith, hcall]
        rfl
      obtain ⟨hend, hfirst⟩ := hclean.pieces (fun _ => rfl) hbut.first hopen hpieces
      obtain ⟨_, _, _, _, rfl⟩ := hanldePostRequest_frame h
      exact ⟨fun hall => ⟨(hend (.inl hall)).1, hchunks, hpart,
          hbut.cgiChunk, hbut.bodyCgi⟩,
        hfirst, hbut.file, fun hne => (by cases hne), fun _ => hchunks,
        fun _ => hpart, hbut.cgiChunk, hbut.bodyCgi⟩

end Bodies

end Webserv
