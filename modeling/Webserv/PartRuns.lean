import Webserv.PartRounds
import Webserv.Detours

namespace Webserv

open Cxx

/-! A multipart body over its buffers: what a `201` says about the files that
its parts name. -/

section Calls

variable {W : Type} [Os W] {process process' : Process W}
  {client client' : Client} {boundary : Str} {parts : List BodyPart}
  {directories : List Str}

theorem createFile_callCount {buffer : Str} {flag : Nat}
    (h : createFile process client buffer flag = .ok (process', client')) :
    process'.part.callCount = process.part.callCount := by
  obtain ⟨_, _, _, _, rfl⟩ := createFile_frame h
  rfl

theorem closeProcessed_callCount
    (h : closeProcessed process client = .ok (process', client')) :
    process'.part.callCount = process.part.callCount := by
  unfold closeProcessed at h
  split at h
  · obtain ⟨⟨created, client₁⟩, hcreate, h⟩ := bind_ok h
    obtain ⟨rfl, -⟩ := Prod.mk.inj (Except.ok.inj h)
    have hcount := createFile_callCount hcreate
    exact hcount
  · obtain ⟨rfl, -⟩ := Prod.mk.inj (Except.ok.inj h)
    rfl

theorem boundaryLoop_callCount {fuel : Nat}
    (h : boundaryLoop fuel process client = .ok (process', client')) :
    process'.part.callCount = process.part.callCount := by
  induction fuel generalizing process client with
  | zero => cases h
  | succ fuel ih =>
      rw [boundaryLoop] at h
      simp only at h
      split at h
      · unfold takeBuffer at h
        split at h <;>
          (obtain ⟨⟨created, client₁⟩, hcreate, h⟩ := bind_ok h
           obtain ⟨rfl, -⟩ := Prod.mk.inj (Except.ok.inj h)
           have hcount := createFile_callCount hcreate
           exact hcount)
      split at h
      · obtain ⟨⟨closed, client₁⟩, hclose, h⟩ := bind_ok h
        obtain ⟨rest, -, h⟩ := bind_ok h
        have hrest := ih h
        have hclosed := closeProcessed_callCount hclose
        exact hrest.trans hclosed
      · obtain ⟨⟨taken, client₁⟩, htake, h⟩ := bind_ok h
        obtain ⟨rest, -, h⟩ := bind_ok h
        have hrest := ih h
        refine hrest.trans ?_
        unfold takeChunk at htake
        obtain ⟨data, -, htake⟩ := bind_ok htake
        obtain ⟨dataChunk, -, htake⟩ := bind_ok htake
        obtain ⟨⟨created, client₂⟩, hcreate, htake⟩ := bind_ok htake
        obtain ⟨⟨closed, client₃⟩, hclose, htake⟩ := bind_ok htake
        obtain ⟨rfl, -⟩ := Prod.mk.inj (Except.ok.inj htake)
        have hcount := createFile_callCount hclose
        exact hcount.trans (createFile_callCount hcreate)

/-- Between two calls of `boundary`: the line of the first delimiter is not
complete, or the parts are being read. -/
inductive Stage (boundary : Str) (parts : List BodyPart)
    (directories : List Str) (rest : Str) (process : Process W)
    (client : Client) : Prop
  | start : process.part.callCount = 0 →
      process.part.processingFile = false → '\n' ∉ process.part.buffer →
      process.part.buffer ++ rest = encodeParts boundary parts →
      Stage boundary parts directories rest process client
  | reading : process.part.callCount ≠ 0 → process.part.buffer = [] →
      process.part.boundaryStr = boundary →
      ∀ {seen : List BodyPart}, seen ≠ [] → Ahead boundary parts seen rest →
      Told directories process client seen →
      Stage boundary parts directories rest process client

/-- What a call of `boundary` leads to: an error, an end with every part seen,
or a wait for more. -/
inductive Called (boundary : Str) (parts : List BodyPart)
    (directories : List Str) (rest : Str) (process : Process W)
    (client : Client) : Prop
  | refused : client.response.readyToSend = true →
      Called boundary parts directories rest process client
  | closed : client.allRecv = true → Told directories process client parts →
      Called boundary parts directories rest process client
  | waits : client.allRecv = false →
      Stage boundary parts directories rest process client →
      Called boundary parts directories rest process client

theorem Left.called {rest : Str}
    (h : Left boundary parts directories rest process client)
    (hcount : process.part.callCount ≠ 0)
    (hend : boundaryEnd process client = .ok (process', client')) :
    Called boundary parts directories rest process' client' := by
  have hserved := boundaryEnd_served hend
  cases h with
  | closed hall htold =>
      exact .closed (hserved.allRecv hall) (htold.mono hserved)
  | waits hbegun hahead hboundary hbuffer hanswered htold =>
      cases hall : client.allRecv with
      | true => exact .refused (hserved.ready (hanswered hall))
      | false =>
          unfold boundaryEnd at hend
          rw [if_neg (by simp [hall])] at hend
          obtain ⟨rfl, rfl⟩ := Prod.mk.inj (Except.ok.inj hend)
          exact .waits hall
            (.reading hcount hbuffer hboundary hbegun hahead htold)

omit [Os W] in
theorem encodeParts_cut {buffer rest : Str} {part : BodyPart}
    {more : List BodyPart} (hboundary : PlainBoundary boundary)
    (hsplit : buffer ++ rest = encodeParts boundary (part :: more))
    (hbreak : '\n' ∈ buffer) :
    ∃ front, buffer = delimiter boundary ++ (endOfLine ++ front) ∧
      front ++ rest = part.text ++ endOfLine ++
        (delimiter boundary ++ following boundary more) := by
  have hline : buffer ++ rest = (delimiter boundary ++ ['\r']) ++ '\n' ::
      (part.text ++ endOfLine ++
        (delimiter boundary ++ following boundary more)) := by
    rw [hsplit, encodeParts, following]
    simp [endOfLine]
  have hnoBreak : '\n' ∉ delimiter boundary ++ ['\r'] := by
    have hdelimiter := hboundary.disjoint '\n' (by decide)
    simp [hdelimiter]
  rcases List.append_eq_append_iff.mp hline with
    ⟨left, hfront, -⟩ | ⟨behind, hbuffer, hrest⟩
  · exact absurd (hfront ▸ List.mem_append_left left hbreak) hnoBreak
  · cases behind with
    | nil =>
        rw [List.append_nil] at hbuffer
        exact absurd (hbuffer ▸ hbreak) hnoBreak
    | cons c behind =>
        obtain ⟨rfl, hbehind⟩ := List.cons.inj hrest
        refine ⟨behind, ?_, hbehind.symm⟩
        rw [hbuffer]
        simp [endOfLine]

omit [Os W] in
theorem front_le_sRequest {front : Str}
    (hbreak : '\n' ∉ process.part.buffer)
    (hbuffer : process.part.buffer ++ client.request.sRequest =
      delimiter boundary ++ (endOfLine ++ front)) :
    front.length ≤ client.request.sRequest.length := by
  have hlengths := congrArg List.length hbuffer
  simp only [List.length_append] at hlengths
  by_contra hlong
  have hline : delimiter boundary ++ endOfLine <+: process.part.buffer := by
    refine List.prefix_of_prefix_length_le ⟨front, ?_⟩
      (List.prefix_append _ client.request.sRequest) ?_
    · rw [hbuffer, List.append_assoc]
    · rw [List.length_append]
      omega
  exact hbreak (hline.subset (List.mem_append_right _ (by decide)))

omit [Os W] in
theorem boundaryLine_unbroken (h : '\n' ∉ process.part.buffer) :
    boundaryLine process = .ok none := by
  have hnone : search? "\n".toList process.part.buffer = none := by
    rw [search?_eq_none_iff]
    exact fun hoccurs => h (hoccurs.subset (by decide))
  unfold boundaryLine
  simp only [hnone]

theorem boundary_unbroken (hcount : process.part.callCount = 0)
    (hline : '\n' ∉ process.part.buffer ++ client.request.sRequest)
    (hcall : Webserv.boundary process client = .ok (process', client')) :
    process' = process.setBuffer
        (process.part.buffer ++ client.request.sRequest) ∧
      client' = client := by
  have hstart : startBoundary (process.setBuffer
      (process.part.buffer ++ client.request.sRequest)) = .ok none :=
    (if_pos hcount).trans (boundaryLine_unbroken hline)
  unfold Webserv.boundary at hcall
  simp only [hstart] at hcall
  obtain ⟨rfl, rfl⟩ := Prod.mk.inj (Except.ok.inj hcall)
  exact ⟨rfl, rfl⟩

theorem boundary_read (hcount : process.part.callCount ≠ 0) :
    Webserv.boundary process client = (do
      let (process, client) ← boundaryLoop
        ((process.part.buffer ++ client.request.sRequest).length + 1)
        (process.setBuffer (process.part.buffer ++
          client.request.sRequest)).countCall client
      boundaryEnd process client) := by
  have hstart : startBoundary (process.setBuffer
      (process.part.buffer ++ client.request.sRequest)) =
        .ok (some (process.setBuffer
          (process.part.buffer ++ client.request.sRequest))) :=
    if_neg hcount
  unfold Webserv.boundary
  simp only [hstart]
  rfl

/-- One buffer of the body. -/
theorem Stage.call (body : Body W boundary parts directories)
    (hparts : parts ≠ []) {rest : Str}
    (h : Stage boundary parts directories (client.request.sRequest ++ rest)
      process client)
    (hends : EndsClear boundary parts rest.length)
    (hdirectory : uploadDirectory client.serverClientObj ∈ directories)
    (hopen : client.allRecv = false)
    (hlength : (delimiter boundary ++ endOfLine ++
      client.request.sRequest).length < 2 ^ 31)
    (hcall : Webserv.boundary process client = .ok (process', client')) :
    Called boundary parts directories rest process' client' := by
  have hanswered : client.EndsAnswered := by
    intro hall
    rw [hopen] at hall
    cases hall
  rw [List.length_append] at hlength
  cases h with
  | start hcount hprocessing hbreak hsplit =>
      rw [← List.append_assoc] at hsplit
      by_cases hline : '\n' ∈ process.part.buffer ++ client.request.sRequest
      · obtain ⟨part, more, rfl⟩ := List.exists_cons_of_ne_nil hparts
        obtain ⟨front, hbuffer, hfront⟩ :=
          encodeParts_cut body.delimits hsplit hline
        rw [boundary_start body.delimits hcount hbuffer] at hcall
        obtain ⟨⟨looped, client₁⟩, hloop, hend⟩ := bind_ok hcall
        have hstarted : (process.startPart boundary front).part.callCount ≠
            0 := Nat.succ_ne_zero _
        have hlooped := boundaryLoop_callCount hloop
        have hinside : Inside boundary (part :: more) [] (part :: more)
            directories rest (process.startPart boundary front) client :=
          ⟨rfl, rfl, hanswered, by simp [Told], hdirectory⟩
        have hsmall := front_le_sRequest hbreak hbuffer
        refine Left.called (hinside.boundaryLoop_part body hends.later
          hprocessing hfront ?_ ?_ (fun hnext hbehind hrest hsize =>
            hnext.boundaryLoop_delimiter body (by simp) hends.later hbehind
              hrest hsize) hloop) (hlooped ▸ hstarted) hend
        · intro hnamed
          change dispositionField.length ≤ front.length
          have hlengths := congrArg List.length hfront
          have hopening : opening =
            endOfLine.length + dispositionField.length := rfl
          rcases hends.first part rfl hnamed with hbefore | hbehind
          · simp only [following, List.length_append] at hbefore hlengths
            omega
          · simp only [following, List.length_append] at hbehind hlengths
            omega
        · change front.length < 2 ^ 31
          omega
      · obtain ⟨rfl, rfl⟩ := boundary_unbroken hcount hline hcall
        exact .waits hopen (.start hcount hprocessing hline hsplit)
  | @reading hcount hbuffer hboundary seen hbegun hahead htold =>
      rw [boundary_read hcount, hbuffer, List.nil_append] at hcall
      obtain ⟨⟨looped, client₁⟩, hloop, hend⟩ := bind_ok hcall
      have hcounted : looped.part.callCount ≠ 0 :=
        (boundaryLoop_callCount hloop).trans_ne (Nat.succ_ne_zero _)
      refine Left.called ?_ hcounted hend
      generalize hrest : client.request.sRequest ++ rest = ahead at hahead
      cases hahead with
      | @inside _ more tail hsplit hclear =>
          have hmore : more <:+ parts.tail := by
            rw [hsplit, List.tail_append_of_ne_nil hbegun]
            exact List.suffix_append _ _
          have hinside : Inside boundary parts seen more directories rest
              (process.setBuffer client.request.sRequest).countCall client :=
            ⟨hsplit, hboundary, hanswered, htold.mono (.of_effects _ rfl),
              hdirectory⟩
          refine hinside.boundaryLoop_inside body hbegun
            (fun later hlater => hends.later later (hlater.trans hmore))
            hclear hrest ?_ hloop
          change client.request.sRequest.length < 2 ^ 31
          omega
      | lost hlost =>
          rw [← hrest] at hlost
          have hkept : (process.setBuffer
              client.request.sRequest).countCall.part.boundaryStr =
            boundary := hboundary
          obtain ⟨hsame, hnil, hafter⟩ := boundaryLoop_lost body.empty
            hkept hanswered (fun hoccurs =>
              hlost (hoccurs.trans (List.prefix_append _ _).isInfix)) hloop
          refine .waits hbegun (.lost fun hoccurs =>
            hlost (hoccurs.trans (List.suffix_append _ _).isInfix)) hsame hnil
            hafter ?_
          have hserved := boundaryLoop_served hloop
          refine Told.mono ?_ hserved
          exact htold.mono (.of_effects client rfl)

end Calls

/-! Every write to a file, with what it was given and how much of it was
taken. -/

structure Written where
  path : Str
  offered : Str
  taken : Nat
  deriving DecidableEq, Repr

structure Recorded (W : Type) where
  world : W
  writes : List Written := []

instance {W : Type} [Os W] : Os (Recorded W) where
  stat record := Os.stat record.world
  access record := Os.access record.world
  readdir record := Os.readdir record.world
  openRead record := Os.openRead record.world
  openDirectory record := Os.openDirectory record.world
  openWrite record path :=
    (Os.openWrite record.world path).map fun world =>
      { record with world := world }
  write record path bytes :=
    let (world, taken) := Os.write record.world path bytes
    (⟨world, record.writes ++ [⟨path, bytes, taken⟩]⟩, taken)
  remove record path :=
    (Os.remove record.world path).map fun world =>
      { record with world := world }
  run record script :=
    let (world, outcome) := Os.run record.world script
    ({ record with world := world }, outcome)
  nameBound record := Os.nameBound record.world

/-- A system that takes every byte of a file it has opened: the worlds in which
that holds, and those in which a file is written to. -/
structure Storage (W : Type) [Os W] where
  ready : W → Prop
  taking : W → Str → Prop
  openWrite : ∀ world path next, ready world →
    Os.openWrite world path = some next → taking next path
  write : ∀ world path bytes, taking world path →
    taking (Os.write world path bytes).1 path ∧
      bytes.length ≤ (Os.write world path bytes).2
  done : ∀ world path, taking world path → ready world

def IsError (status : Int) : Prop := 400 ≤ status ∧ status < 600

section Health

variable {W : Type} [Os W] {storage : Storage W}
  {process process' : Process (Recorded W)} {client client' : Client}

/-- Every write so far has succeeded, and only an error is answered yet. -/
structure Healthy (storage : Storage W) (process : Process (Recorded W))
    (client : Client) : Prop where
  complete : ∀ written ∈ process.world.writes,
    written.offered.length ≤ written.taken
  ready : storage.ready process.world.world
  taking : ∀ path, process.part.file.path = some path →
    process.part.file.failed = false ∧
      storage.taking process.world.world path
  error : client.response.readyToSend = true →
    IsError client.response.responseStatus

theorem Healthy.refuse
    (h : Healthy storage process client) (world : Recorded W) {status : Int}
    (hstatus : IsError status) :
    Healthy storage process (setResponseError world client status) :=
  ⟨h.complete, h.ready, h.taking, fun _ => by
    rw [setResponseError_responseStatus]
    exact hstatus⟩

theorem Healthy.putPart (h : Healthy storage process client) (bytes : Str) :
    Healthy storage (putPart process client bytes) client := by
  have hput : (Webserv.putPart process client bytes).world =
        (process.part.file.put process.world bytes).2.1 ∧
      (Webserv.putPart process client bytes).part.file =
        (process.part.file.put process.world bytes).1 := ⟨rfl, rfl⟩
  suffices hfile : (∀ written ∈
        (process.part.file.put process.world bytes).2.1.writes,
          written.offered.length ≤ written.taken) ∧
      storage.ready (process.part.file.put process.world bytes).2.1.world ∧
      ∀ path, (process.part.file.put process.world bytes).1.path =
          some path →
        (process.part.file.put process.world bytes).1.failed = false ∧
          storage.taking
            (process.part.file.put process.world bytes).2.1.world path by
    rw [← hput.1, ← hput.2] at hfile
    exact ⟨hfile.1, hfile.2.1, hfile.2.2, h.error⟩
  unfold OFStream.put
  cases hpath : process.part.file.path with
  | none => exact ⟨h.complete, h.ready, nofun⟩
  | some path =>
      obtain ⟨hfailed, htaking⟩ := h.taking path hpath
      simp only
      by_cases hnone : process.part.file.failed = true ∨ bytes = []
      · rw [if_pos hnone]
        exact ⟨h.complete, h.ready, h.taking⟩
      · rw [if_neg hnone]
        obtain ⟨hafter, hall⟩ :=
          storage.write process.world.world path bytes htaking
        refine ⟨?_, storage.done _ path hafter, ?_⟩
        · intro written hwritten
          rcases List.mem_append.mp hwritten with hbefore | hlast
          · exact h.complete written hbefore
          · rw [List.mem_singleton.mp hlast]
            exact hall
        · intro other hother
          obtain rfl := Option.some.inj hother
          exact ⟨decide_eq_false (Nat.not_lt.mpr hall), hafter⟩

theorem Healthy.openPart (h : Healthy storage process client) (path : Str) :
    Healthy storage (openPart process client path) client := by
  have hopen : (Webserv.openPart process client path).world =
        (process.part.file.close.openFile process.world path).2 ∧
      (Webserv.openPart process client path).part.file =
        (process.part.file.close.openFile process.world path).1 :=
    ⟨rfl, rfl⟩
  have hlift : Os.openWrite process.world path =
      (Os.openWrite process.world.world path).map fun world =>
        { process.world with world := world } := rfl
  cases hworld : Os.openWrite process.world.world path with
  | none =>
      have hopened : process.part.file.close.openFile process.world path =
          ({ process.part.file.close with failed := true },
            process.world) := by
        unfold OFStream.openFile
        rw [if_neg (by simp), hlift, hworld]
        rfl
      rw [hopened] at hopen
      refine ⟨?_, ?_, ?_, h.error⟩
      · rw [hopen.1]
        exact h.complete
      · rw [hopen.1]
        exact h.ready
      · rw [hopen.2]
        intro other hother
        cases hother
  | some next =>
      have hopened : process.part.file.close.openFile process.world path =
          (⟨some path, false⟩, { process.world with world := next }) := by
        unfold OFStream.openFile
        rw [if_neg (by simp), hlift, hworld]
        rfl
      rw [hopened] at hopen
      have htaking := storage.openWrite _ path next h.ready hworld
      refine ⟨?_, ?_, ?_, h.error⟩
      · rw [hopen.1]
        exact h.complete
      · rw [hopen.1]
        exact storage.done next path htaking
      · rw [hopen.1, hopen.2]
        intro other hother
        obtain rfl := Option.some.inj hother
        exact ⟨rfl, htaking⟩

omit [Os W] in
theorem Healthy.of_same [Os W] {storage : Storage W}
    (h : Healthy storage process client)
    (hworld : process'.world = process.world)
    (hfile : process'.part.file = process.part.file)
    (hresponse : client'.response = client.response) :
    Healthy storage process' client' :=
  ⟨hworld ▸ h.complete, hworld ▸ h.ready,
    fun path hpath => by
      rw [hfile] at hpath
      rw [hfile, hworld]
      exact h.taking path hpath,
    hresponse ▸ h.error⟩

theorem Healthy.close (h : Healthy storage process client)
    (hworld : process'.world = process.world)
    (hfile : process'.part.file = process.part.file.close) :
    Healthy storage process' client :=
  ⟨hworld ▸ h.complete, hworld ▸ h.ready, by rw [hfile]; exact nofun,
    h.error⟩

theorem getFileName_healthy (h : Healthy storage process client)
    (world : Recorded W) :
    Healthy storage process (getFileName world client).1 := by
  have hrefused : IsError 502 := ⟨by decide, by decide⟩
  unfold getFileName
  simp only
  split
  · exact h.refuse world hrefused
  split
  · exact h.refuse world hrefused
  split
  · exact h.refuse world hrefused
  · exact h

theorem createPart_healthy (h : Healthy storage process client)
    (head : PartHead) (content : Str) :
    Healthy storage (createPart process client head content).1
      (createPart process client head content).2 := by
  cases head with
  | other => exact h
  | unnamed => exact h.refuse _ ⟨by decide, by decide⟩
  | unterminated => exact h.refuse _ ⟨by decide, by decide⟩
  | named name =>
      have hfound := getFileName_healthy h process.world
      unfold createPart
      generalize getFileName process.world client = found at *
      obtain ⟨client₁, dirname⟩ := found
      simp only at *
      split
      · exact hfound.of_same rfl rfl rfl
      have hopened :=
        hfound.openPart (cStr (dirname ++ "/".toList ++ name))
      split
      · exact hopened.refuse _ ⟨by decide, by decide⟩
      have hcreated := @Healthy.of_same W _
        { openPart process client₁
            (cStr (dirname ++ "/".toList ++ name)) with
          part := { (openPart process client₁
            (cStr (dirname ++ "/".toList ++ name))).part with
              fileCreated := true } } _ client₁ _ storage hopened rfl rfl rfl
      split
      · exact hcreated
      · exact hcreated.putPart content

theorem createFile_healthy {buffer : Str} {flag : Nat}
    (h : Healthy storage process client)
    (hcreate : createFile process client buffer flag =
      .ok (process', client')) :
    Healthy storage process' client' := by
  unfold createFile at hcreate
  split at hcreate
  · obtain ⟨rfl, rfl⟩ := Prod.mk.inj (Except.ok.inj hcreate)
    exact h.close rfl rfl
  split at hcreate
  · split at hcreate
    · obtain ⟨rfl, rfl⟩ := Prod.mk.inj (Except.ok.inj hcreate)
      exact h.putPart buffer
    · obtain ⟨rfl, rfl⟩ := Prod.mk.inj (Except.ok.inj hcreate)
      exact h
  · obtain ⟨head, -, hcreate⟩ := bind_ok hcreate
    have hpart := createPart_healthy h head (partContent buffer)
    rw [Except.ok.inj hcreate] at hpart
    exact hpart

theorem closeProcessed_healthy (h : Healthy storage process client)
    (hclose : closeProcessed process client = .ok (process', client')) :
    Healthy storage process' client' := by
  unfold closeProcessed at hclose
  split at hclose
  · obtain ⟨⟨created, client₁⟩, hcreate, hclose⟩ := bind_ok hclose
    obtain ⟨rfl, rfl⟩ := Prod.mk.inj (Except.ok.inj hclose)
    exact (createFile_healthy h hcreate).of_same rfl rfl rfl
  · obtain ⟨rfl, rfl⟩ := Prod.mk.inj (Except.ok.inj hclose)
    exact h

theorem boundaryLoop_healthy {fuel : Nat}
    (h : Healthy storage process client)
    (hloop : boundaryLoop fuel process client = .ok (process', client')) :
    Healthy storage process' client' := by
  induction fuel generalizing process client with
  | zero => cases hloop
  | succ fuel ih =>
      rw [boundaryLoop] at hloop
      simp only at hloop
      generalize checkIfHaveNewBoundary process.part.buffer
        process.part.boundaryStr 0 = found at hloop
      have hmarked : Healthy storage process
          (if found.2 then client.setAllRecv true else client) := by
        split <;> exact h.of_same rfl rfl rfl
      generalize (if found.2 then client.setAllRecv true else client) = client₀
        at hloop hmarked
      split at hloop
      · unfold takeBuffer at hloop
        split at hloop <;>
          (obtain ⟨⟨created, client₁⟩, hcreate, hloop⟩ := bind_ok hloop
           obtain ⟨rfl, rfl⟩ := Prod.mk.inj (Except.ok.inj hloop)
           exact (createFile_healthy hmarked hcreate).of_same rfl rfl rfl)
      split at hloop
      · obtain ⟨⟨closed, client₁⟩, hclose, hloop⟩ := bind_ok hloop
        obtain ⟨rest, -, hloop⟩ := bind_ok hloop
        refine ih ?_ hloop
        exact (closeProcessed_healthy hmarked hclose).of_same rfl rfl rfl
      · obtain ⟨⟨taken, client₁⟩, htake, hloop⟩ := bind_ok hloop
        obtain ⟨rest, -, hloop⟩ := bind_ok hloop
        refine ih ?_ hloop
        unfold takeChunk at htake
        obtain ⟨data, -, htake⟩ := bind_ok htake
        obtain ⟨dataChunk, -, htake⟩ := bind_ok htake
        obtain ⟨⟨created, client₂⟩, hcreate, htake⟩ := bind_ok htake
        obtain ⟨⟨closed, client₃⟩, hclose, htake⟩ := bind_ok htake
        obtain ⟨rfl, rfl⟩ := Prod.mk.inj (Except.ok.inj htake)
        exact (createFile_healthy (createFile_healthy hmarked hcreate)
          hclose).of_same rfl rfl rfl

omit [Os W] in
theorem startBoundary_files [Os W] {started : Process (Recorded W)}
    (hstart : startBoundary process = .ok (some started)) :
    started.world = process.world ∧ started.part.file = process.part.file := by
  unfold startBoundary boundaryLine at hstart
  split at hstart
  · simp only at hstart
    split at hstart
    · cases hstart
    · obtain ⟨firstLine, -, hstart⟩ := bind_ok hstart
      split at hstart
      · obtain ⟨rest, -, hstart⟩ := bind_ok hstart
        obtain rfl := Option.some.inj (Except.ok.inj hstart)
        exact ⟨rfl, rfl⟩
      · cases hstart
  · obtain rfl := Option.some.inj (Except.ok.inj hstart)
    exact ⟨rfl, rfl⟩

theorem boundary_healthy (h : Healthy storage process client)
    (hcall : boundary process client = .ok (process', client')) :
    Healthy storage process' client' := by
  unfold boundary at hcall
  obtain ⟨started, hstart, hcall⟩ := bind_ok hcall
  split at hcall
  · obtain ⟨rfl, rfl⟩ := Prod.mk.inj (Except.ok.inj hcall)
    exact h.of_same rfl rfl rfl
  · rename_i started
    obtain ⟨hworld, hfile⟩ := startBoundary_files hstart
    obtain ⟨⟨looped, client₁⟩, hloop, hend⟩ := bind_ok hcall
    have hcounted : Healthy storage started.countCall client :=
      h.of_same hworld hfile rfl
    have hlooped := boundaryLoop_healthy hcounted hloop
    change boundaryEnd looped client₁ = _ at hend
    unfold boundaryEnd at hend
    split at hend
    · obtain ⟨⟨closed, client₂⟩, hclose, hend⟩ := bind_ok hend
      obtain ⟨rfl, rfl⟩ := Prod.mk.inj (Except.ok.inj hend)
      exact (closeProcessed_healthy hlooped hclose).of_same rfl rfl rfl
    · obtain ⟨rfl, rfl⟩ := Prod.mk.inj (Except.ok.inj hend)
      exact hlooped

theorem checkUri_healthy (h : Healthy storage process client)
    (world : Recorded W) : Healthy storage process (checkUri world client).1 := by
  unfold checkUri
  split
  · exact h.refuse world ⟨by decide, by decide⟩
  split
  · exact h.refuse world ⟨by decide, by decide⟩
  · exact h

end Health

/-! The buffers of one request. -/

section Requests

variable {W : Type} [Os W] {storage : Storage W}
  {process process' : Process (Recorded W)} {client client' : Client}
  {boundary : Str} {parts : List BodyPart} {directories : List Str}

/-- A `POST` whose body is taken for parts. -/
structure TakesParts (client : Client) : Prop where
  method : client.request.method = "POST".toList
  index : client.request.index = true
  multipart : (search? "boundary=".toList
    (client.request.getMapValues "Content-Type".toList)).isSome
  coding : client.request.getMapValues "Transfer-Encoding".toList ≠ []
  notScript : scriptExtension? client.request.path = none

theorem TakesParts.of_request {file : OFStream} {sRequest : Str}
    (h : TakesParts client)
    (hrequest : client'.request =
      { client.request with file := file, sRequest := sRequest }) :
    TakesParts client' := by
  refine ⟨?_, ?_, ?_, ?_, ?_⟩
  · rw [hrequest]
    exact h.method
  · rw [hrequest]
    exact h.index
  · rw [hrequest]
    exact h.multipart
  · rw [hrequest]
    exact h.coding
  · rw [hrequest]
    exact h.notScript

/-- No part is lost silently: with a `201` every file that a part names has
been opened and every write has succeeded, and any other answer is an error. -/
def NothingLost (parts : List BodyPart) (directories : List Str)
    (process : Process (Recorded W)) (client : Client) : Prop :=
  client.response.readyToSend = true →
    (client.response.responseStatus = 201 ∧
      (∀ part ∈ parts, ∀ name, part.Carries name →
        Opened directories process client.clientId name) ∧
      ∀ written ∈ process.world.writes,
        written.offered.length ≤ written.taken) ∨
    IsError client.response.responseStatus

/-- Between two buffers: an answer that loses nothing, or a wait for more. -/
inductive Reaches (storage : Storage W) (boundary : Str)
    (parts : List BodyPart) (directories : List Str) (rest : Str)
    (process : Process (Recorded W)) (client : Client) : Prop
  | answered : client.request.index = true →
      client.response.readyToSend = true →
      NothingLost parts directories process client →
      Reaches storage boundary parts directories rest process client
  | waits : TakesParts client → client.allRecv = false →
      client.response.readyToSend = false → Healthy storage process client →
      (parts ≠ [] → Stage boundary parts directories rest process client) →
      Reaches storage boundary parts directories rest process client

theorem postRequest_reaches
    (body : Body (Recorded W) boundary parts directories) {rest : Str}
    (hpost : TakesParts client) (hopen : client.allRecv = false)
    (hhealthy : Healthy storage process client)
    (hstage : parts ≠ [] → Stage boundary parts directories
      (client.request.sRequest ++ rest) process client)
    (hends : EndsClear boundary parts rest.length)
    (hdirectory : uploadDirectory client.serverClientObj ∈ directories)
    (hlength : (delimiter boundary ++ endOfLine ++
      client.request.sRequest).length < 2 ^ 31)
    (hcall : postRequest process client = .ok (process', client')) :
    Reaches storage boundary parts directories rest process' client' := by
  have hserved := postRequest_served hcall
  obtain ⟨file, sRequest, hrequest⟩ := hserved.request
  have hafter := hpost.of_request hrequest
  have hchecked := checkUri_healthy hhealthy process.world
  unfold Webserv.postRequest at hcall
  simp only at hcall
  split at hcall
  · rename_i hrefused
    obtain ⟨rfl, rfl⟩ := Prod.mk.inj (Except.ok.inj hcall)
    obtain ⟨status, hanswer⟩ := checkUri_refused hrefused
    refine .answered hafter.index ?_ fun hanswered => .inr ?_
    · rw [hanswer]
      exact setResponseError_readyToSend ..
    · exact hchecked.error hanswered
  rename_i haccepted
  rw [checkUri_directory (by simpa using haccepted)] at hcall
  obtain ⟨⟨process₁, client₁⟩, hbody, hcall⟩ := bind_ok hcall
  obtain ⟨rfl, rfl⟩ := Prod.mk.inj (Except.ok.inj hcall)
  unfold takeBody at hbody
  simp only at hbody
  rw [if_pos ⟨hpost.multipart, hpost.coding⟩] at hbody
  have hkept := boundary_healthy hhealthy hbody
  have hcalled : parts ≠ [] → Called boundary parts directories rest process₁
      client₁ := fun hparts =>
    (hstage hparts).call body hparts hends hdirectory hopen hlength hbody
  cases hanswered : client₁.response.readyToSend with
  | true =>
      have hsame : answerCreated process₁ client₁ = client₁ :=
        if_neg (by simp [hanswered])
      rw [hsame] at hafter ⊢
      exact .answered hafter.index hanswered fun h => .inr (hkept.error h)
  | false =>
      cases hall : client₁.allRecv with
      | true =>
          have hcreated : answerCreated process₁ client₁ =
              setResponseError process₁.world client₁ 201 :=
            if_pos ⟨hall, hanswered⟩
          rw [hcreated] at hafter ⊢
          refine .answered hafter.index (setResponseError_readyToSend ..)
            fun _ => .inl ⟨setResponseError_responseStatus .., ?_,
              hkept.complete⟩
          intro part hpart name hcarries
          rw [setResponseError_clientId]
          cases hcalled (List.ne_nil_of_mem hpart) with
          | refused hrefused =>
              rw [hanswered] at hrefused
              cases hrefused
          | closed _ htold => exact htold hanswered part hpart name hcarries
          | waits hwaiting =>
              rw [hall] at hwaiting
              cases hwaiting
      | false =>
          have hsame : answerCreated process₁ client₁ = client₁ :=
            if_neg (by simp [hall])
          rw [hsame] at hafter ⊢
          refine .waits hafter hall hanswered hkept fun hparts => ?_
          cases hcalled hparts with
          | refused hrefused =>
              rw [hanswered] at hrefused
              cases hrefused
          | closed hclosed =>
              rw [hall] at hclosed
              cases hclosed
          | waits _ hstage => exact hstage

omit [Os W] in
theorem Stage.of_same [Os W] {rest : Str}
    (h : Stage boundary parts directories rest process client)
    (hresponse : client'.response = client.response)
    (hid : client'.clientId = client.clientId) :
    Stage boundary parts directories rest process client' := by
  cases h with
  | start hcount hprocessing hbreak hsplit =>
      exact .start hcount hprocessing hbreak hsplit
  | reading hcount hbuffer hboundary hbegun hahead htold =>
      refine .reading hcount hbuffer hboundary hbegun hahead ?_
      unfold Told at htold ⊢
      rw [hresponse, hid]
      exact htold

theorem Reaches.receive (body : Body (Recorded W) boundary parts directories)
    {bytes rest : Str}
    (h : Reaches storage boundary parts directories (bytes ++ rest) process
      client)
    (hends : EndsClear boundary parts rest.length)
    (hdirectory : "./upload".toList ∈ directories)
    (hlength : (delimiter boundary ++ endOfLine ++ bytes).length < 2 ^ 31)
    (hcall : receive process client bytes = .ok (process', client')) :
    Reaches storage boundary parts directories rest process' client' := by
  cases h with
  | answered hindex hready hnothing =>
      rcases receive_cases hcall with
        ⟨-, rfl, rfl⟩ | ⟨-, parsed, hparsed, hdispatch⟩
      · exact .answered hindex hready hnothing
      rcases parseOnce_cases hparsed with ⟨hfresh, -⟩ | ⟨-, rfl⟩
      · rw [show client.request.index = false from hfresh] at hindex
        cases hindex
      rw [dispatchRequest_of_ready (by exact hready)] at hdispatch
      obtain ⟨rfl, rfl⟩ := Prod.mk.inj (Except.ok.inj hdispatch)
      exact .answered hindex hready hnothing
  | waits hpost hopen hready hhealthy hstage =>
      have hwaiting : Waiting client :=
        ⟨hpost.method, hpost.index, hopen, hready⟩
      rw [hwaiting.receive_post hpost.notScript] at hcall
      have hrequest : (client.setSRequest bytes).forgetLocation.request =
          { client.request with
            file := client.request.file, sRequest := bytes } := rfl
      exact postRequest_reaches body (hpost.of_request hrequest) hopen
        (hhealthy.of_same rfl rfl rfl)
        (fun hparts => (hstage hparts).of_same rfl rfl) hends hdirectory
        hlength hcall

theorem endsClear_zero (hfirst : ∀ part ∈ parts, part.NamesFirst) :
    EndsClear boundary parts 0 := by
  have hlong : ∀ part ∈ parts, ∀ rest, part.Named →
      0 + opening ≤ (following boundary (part :: rest)).length := by
    intro part hpart rest hnamed
    have htext := (hfirst part hpart).length_le hnamed
    have hopening : opening = endOfLine.length + dispositionField.length := rfl
    simp only [following, List.length_append]
    omega
  refine ⟨fun part hpart hnamed => .inr ?_,
    fun rest hrest part hpart hnamed => .inr ?_⟩
  · obtain ⟨more, rfl⟩ := List.head?_eq_some_iff.mp hpart
    exact hlong part List.mem_cons_self more hnamed
  · obtain ⟨more, rfl⟩ := List.head?_eq_some_iff.mp hpart
    exact hlong part (List.mem_of_mem_tail
      (hrest.subset List.mem_cons_self)) more hnamed

/-- No buffer of a body of which so much is ahead ends where a part with a file
name is passed over. -/
def CutsClear (boundary : Str) (parts : List BodyPart) (ahead : Str)
    (buffers : List Str) : Prop :=
  ∀ front, front <+: buffers → front ≠ [] →
    EndsClear boundary parts (ahead.length - front.flatten.length)

theorem CutsClear.head {bytes rest : Str} {buffers : List Str}
    (h : CutsClear boundary parts (bytes ++ rest) (bytes :: buffers)) :
    EndsClear boundary parts rest.length := by
  have hends := h [bytes] (List.prefix_append [bytes] buffers) (by simp)
  simpa using hends

theorem CutsClear.tail {bytes rest : Str} {buffers : List Str}
    (h : CutsClear boundary parts (bytes ++ rest) (bytes :: buffers)) :
    CutsClear boundary parts rest buffers := by
  intro front hfront hne
  have hends := h (bytes :: front) (List.cons_prefix_cons.mpr ⟨rfl, hfront⟩)
    (by simp)
  rw [List.flatten_cons, List.length_append, List.length_append,
    Nat.add_sub_add_left] at hends
  exact hends

theorem Reaches.feed (body : Body (Recorded W) boundary parts directories)
    {ahead : Str} {buffers : List Str}
    (h : Reaches storage boundary parts directories ahead process client)
    (hahead : buffers.flatten <+: ahead)
    (hcuts : CutsClear boundary parts ahead buffers)
    (hdirectory : "./upload".toList ∈ directories)
    (hlength : ∀ bytes ∈ buffers,
      (delimiter boundary ++ endOfLine ++ bytes).length < 2 ^ 31)
    (hfed : feed process client buffers = .ok (process', client')) :
    ∃ rest, Reaches storage boundary parts directories rest process'
      client' := by
  induction buffers generalizing ahead process client with
  | nil =>
      obtain ⟨rfl, rfl⟩ := Prod.mk.inj (Except.ok.inj hfed)
      exact ⟨ahead, h⟩
  | cons bytes buffers ih =>
      obtain ⟨rest, rfl⟩ : bytes <+: ahead :=
        (List.prefix_append bytes buffers.flatten).trans hahead
      obtain ⟨process₁, client₁, hcall, hrest⟩ := feed_cons_ok hfed
      exact ih
        (h.receive body hcuts.head hdirectory
          (hlength bytes List.mem_cons_self) hcall)
        ((List.prefix_append_right_inj bytes).mp hahead) hcuts.tail
        (fun other hother => hlength other (List.mem_cons_of_mem _ hother))
        hrest

omit [Os W] in
theorem Reaches.nothingLost [Os W] {storage : Storage W} {rest : Str}
    (h : Reaches storage boundary parts directories rest process client) :
    NothingLost parts directories process client := by
  cases h with
  | answered _ _ hnothing => exact hnothing
  | waits _ _ hready =>
      intro hanswered
      rw [hready] at hanswered
      cases hanswered

/-- A request for parts whose head is accepted, on a server that reads no other
body. -/
structure PartsRequest (storage : Storage W) (process : Process (Recorded W))
    (client : Client) (head : Str) (parsed : Client) : Prop
    extends BodyRequest process client head parsed where
  multipart : (search? "boundary=".toList
    (parsed.request.getMapValues "Content-Type".toList)).isSome
  coding : parsed.request.getMapValues "Transfer-Encoding".toList ≠ []
  notScriptPath : scriptExtension? parsed.request.path = none
  idle : process.part = {}
  ready : storage.ready process.world.world
  unwritten : process.world.writes = []

/-- In every run whose buffers end clear of the parts with a file name, over a
system that takes every byte, an answered body has lost nothing. -/
theorem feed_nothingLost {head first : Str} {rest : List Str}
    {parsed : Client} (h : PartsRequest storage process client head parsed)
    (hempty : ∀ world : W, Os.stat world [] = none)
    (hboundary : PlainBoundary boundary)
    (hplain : ∀ part ∈ parts, part.Plain boundary)
    (hfirst : ∀ part ∈ parts, part.NamesFirst)
    (hbody : first ++ rest.flatten <+: encodeParts boundary parts)
    (hcuts : CutsClear boundary parts (encodeParts boundary parts)
      (first :: rest))
    (hlength : ∀ bytes ∈ first :: rest,
      (delimiter boundary ++ endOfLine ++ bytes).length < 2 ^ 31)
    (hfed : feed process client ((head ++ first) :: rest) =
      .ok (process', client')) :
    NothingLost parts
      [uploadDirectory parsed.serverClientObj, "./upload".toList] process'
      client' := by
  have hbodies : Body (Recorded W) boundary parts
      [uploadDirectory parsed.serverClientObj, "./upload".toList] :=
    ⟨hboundary, hplain, hfirst, fun world => hempty world.world⟩
  have hfresh := h.fresh
  obtain ⟨ahead, hahead⟩ : first <+: encodeParts boundary parts :=
    (List.prefix_append first rest.flatten).trans hbody
  rw [← hahead] at hbody hcuts
  obtain ⟨process₁, client₁, hcall, hrest⟩ := feed_cons_ok hfed
  rw [h.receive_post] at hcall
  have hpost : TakesParts (parsed.setSRequest first) :=
    ⟨h.method, hfresh.index, h.multipart, h.coding, h.notScriptPath⟩
  have hhealthy : Healthy storage process (parsed.setSRequest first) := by
    refine ⟨?_, h.ready, ?_, ?_⟩
    · rw [h.unwritten]
      exact nofun
    · rw [h.idle]
      exact nofun
    · intro hready
      rw [show (parsed.setSRequest first).response.readyToSend = false from
        h.accepted] at hready
      cases hready
  have hstage : Stage boundary parts
      [uploadDirectory parsed.serverClientObj, "./upload".toList]
      (first ++ ahead) process (parsed.setSRequest first) := by
    refine .start ?_ ?_ ?_ ?_
    · rw [h.idle]
    · rw [h.idle]
    · rw [h.idle]
      exact nofun
    · rw [h.idle]
      exact hahead
  have hreaches := postRequest_reaches hbodies hpost hfresh.open_ hhealthy
    (fun _ => hstage) hcuts.head List.mem_cons_self
    (hlength first List.mem_cons_self) hcall
  obtain ⟨left, hfinal⟩ := hreaches.feed hbodies
    ((List.prefix_append_right_inj first).mp hbody) hcuts.tail (by simp)
    (fun bytes hbytes => hlength bytes (List.mem_cons_of_mem _ hbytes)) hrest
  exact hfinal.nothingLost

end Requests

/-! One part with a file, its name in the first line of its head or behind
another one. -/

namespace Disk

def storage : Storage Disk where
  ready _ := True
  taking disk path := ∃ content,
    disk.node? (Lexical.resolve path) = some (.file content)
  openWrite disk path next _ hopen := by
    change disk.openWrite path = some next at hopen
    unfold openWrite at hopen
    split at hopen
    · cases hopen
    split at hopen
    · cases hopen
    · rename_i hnode
      obtain rfl := Option.some.inj hopen
      have hne : (Lexical.resolve path).2.2 ≠ [] := by
        intro hnil
        refine hnode ?_
        rw [node?, if_pos hnil]
      exact ⟨[], disk.node?_setNode_self hne _⟩
  write disk path bytes htaking := by
    obtain ⟨content, hcontent⟩ := htaking
    rw [write_of_file bytes hcontent]
    exact ⟨⟨_, disk.node?_setNode_self (below_of_file hcontent) _⟩,
      Nat.le_refl _⟩
  done _ _ _ := trivial

end Disk

def partsProcess : Process (Recorded Disk) where
  world := { world := .ofDirectories ["./html".toList, "./upload".toList] }

def partsHead : Str :=
  ("POST / HTTP/1.1\r\nContent-Type: multipart/form-data; boundary=b\r\n" ++
    "Content-Length: 99\r\n\r\n").toList

def dispositionLine : Str :=
  "Content-Disposition: form-data; filename=\"a\"".toList

def headedPart (headers : List Str) : BodyPart where
  headers := headers ++ [dispositionLine]
  content := "x".toList

theorem headedPart_carries (headers : List Str) :
    (headedPart headers).Carries "a".toList := by
  refine ⟨dispositionLine, by simp [headedPart], by decide, by decide,
    " form-data; ".toList, [], rfl, ?_⟩
  unfold OccursAt
  decide +kernel

theorem partsRequest :
    ∃ parsed, PartsRequest Disk.storage partsProcess (.connect 5 {}) partsHead
      parsed := by
  have hparse : (parseOnce partsProcess.world ((Client.connect 5 {}).setSRequest
      partsHead).forgetLocation).toOption.map (fun parsed =>
        decide (parsed.response.readyToSend = false ∧
          parsed.request.method = "POST".toList ∧
          (search? "boundary=".toList (parsed.request.getMapValues
            "Content-Type".toList)).isSome = true ∧
          parsed.request.getMapValues "Transfer-Encoding".toList ≠ [] ∧
          scriptExtension? parsed.request.path = none)) = some true := by
    decide +kernel
  obtain ⟨parsed, hparsed, hfields⟩ := ok_of_toOption_map hparse
  obtain ⟨hready, hmethod, hmultipart, hcoding, hscript⟩ :=
    of_decide_eq_true hfields
  refine ⟨parsed, ⟨⟨partsHead.length - 4, by decide +kernel,
    by decide +kernel⟩, rfl, rfl, hparsed, hready, hmethod, fun ex hex => ?_⟩,
    hmultipart, hcoding, hscript, rfl, trivial, rfl⟩
  rw [hscript] at hex
  cases hex

theorem feed_nothingLost_upload :
    ∃ parsed process' client',
      PartsRequest Disk.storage partsProcess (.connect 5 {}) partsHead parsed ∧
      feed partsProcess (.connect 5 {})
        [partsHead ++ encodeParts "b".toList [headedPart []]] =
          .ok (process', client') ∧
      client'.response.readyToSend = true ∧
      client'.response.responseStatus = 201 ∧
      process'.world.writes ≠ [] ∧
      NothingLost [headedPart []]
        [uploadDirectory parsed.serverClientObj, "./upload".toList] process'
        client' := by
  obtain ⟨parsed, hparsed⟩ := partsRequest
  have hrun : (feed partsProcess (.connect 5 {})
      [partsHead ++ encodeParts "b".toList [headedPart []]]).toOption.map
        (fun final => decide (final.2.response.readyToSend = true ∧
          final.2.response.responseStatus = 201 ∧
          final.1.world.writes ≠ [])) = some true := by
    decide +kernel
  obtain ⟨⟨process', client'⟩, hfed, hfinal⟩ := ok_of_toOption_map hrun
  obtain ⟨hready, hstatus, hwrites⟩ := of_decide_eq_true hfinal
  have hfirst : ∀ part ∈ [headedPart []], part.NamesFirst := by
    intro part hpart name hcarries
    obtain rfl := List.mem_singleton.mp hpart
    obtain ⟨line, hline, hnames⟩ := hcarries
    obtain rfl := List.mem_singleton.mp hline
    exact ⟨dispositionLine, rfl, hnames⟩
  have hplain : ∀ part ∈ [headedPart []], part.Plain "b".toList := by
    intro part hpart
    obtain rfl := List.mem_singleton.mp hpart
    exact ⟨by decide, search?_eq_none_iff.mp (by decide)⟩
  refine ⟨parsed, process', client', hparsed, hfed, hready, hstatus, hwrites,
    feed_nothingLost hparsed (fun _ => rfl) plainBoundary_b hplain hfirst
      (by simp) ?_ ?_ hfed⟩
  · intro front hfront hnonempty
    obtain rfl : front = [encodeParts "b".toList [headedPart []]] := by
      rcases List.prefix_cons_iff.mp hfront with rfl | ⟨rest, rfl, hrest⟩
      · exact absurd rfl hnonempty
      · rw [List.prefix_nil.mp hrest]
    simpa using endsClear_zero hfirst
  · intro bytes hbytes
    obtain rfl := List.mem_singleton.mp hbytes
    decide

/-- A part whose file name stands in its second header line is skipped, and the
answer is `201` all the same. -/
theorem nothingLost_fails_typeFirst :
    ∃ process' client',
      feed partsProcess (.connect 5 {})
        [partsHead ++ encodeParts "b".toList
          [headedPart ["Content-Type: text/plain".toList]]] =
          .ok (process', client') ∧
      client'.response.readyToSend = true ∧
      (headedPart ["Content-Type: text/plain".toList]).Carries "a".toList ∧
      ∀ directories, ¬NothingLost
        [headedPart ["Content-Type: text/plain".toList]] directories process'
        client' := by
  have hrun : (feed partsProcess (.connect 5 {})
      [partsHead ++ encodeParts "b".toList
        [headedPart ["Content-Type: text/plain".toList]]]).toOption.map
        (fun final => decide (final.2.response.readyToSend = true ∧
          final.2.response.responseStatus = 201 ∧
          final.1.actsOf final.2.clientId = [])) = some true := by
    decide +kernel
  obtain ⟨⟨process', client'⟩, hfed, hfinal⟩ := ok_of_toOption_map hrun
  obtain ⟨hready, hstatus, hacts⟩ := of_decide_eq_true hfinal
  have hcarries := headedPart_carries ["Content-Type: text/plain".toList]
  refine ⟨process', client', hfed, hready, hcarries,
    fun directories hnothing => ?_⟩
  rcases hnothing hready with ⟨-, hopened, -⟩ | herror
  · obtain ⟨directory, -, hact⟩ :=
      hopened _ List.mem_cons_self _ hcarries
    rw [hacts] at hact
    cases hact
  · rw [hstatus] at herror
    exact absurd herror.1 (by decide)

end Webserv
