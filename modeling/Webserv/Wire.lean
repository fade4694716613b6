import Webserv.LoopRounds
import Webserv.Delivery
import Webserv.Machine.Simulation

namespace Webserv

open Cxx

/-! The bytes on the sockets: over any interleaving of the connections, a
connection carries parts of its own answer only, in their order. -/

/-! What one event passes on of what a client still has to send. -/

def Client.unsent (client : Client) : Str :=
  (client.offers.map Offer.bytes).flatten

/-- Each `send` of an event fails, or accepts all that it is offered. -/
structure Offer.Whole (offer : Offer) (answers : Answers) : Prop where
  head : ∀ head ∈ offer.head,
    answers.sentHead ≤ 0 ∨ answers.sentHead = head.length
  chunk : offer.chunk ≠ [] →
    answers.sentChunk ≤ 0 ∨ answers.sentChunk = offer.chunk.length

instance (offer : Offer) (answers : Answers) :
    Decidable (offer.Whole answers) :=
  decidable_of_iff
    ((∀ head ∈ offer.head,
      answers.sentHead ≤ 0 ∨ answers.sentHead = head.length) ∧
      (offer.chunk ≠ [] →
        answers.sentChunk ≤ 0 ∨ answers.sentChunk = offer.chunk.length))
    ⟨fun h => ⟨h.1, h.2⟩, fun h => ⟨h.1, h.2⟩⟩

theorem remaining_of_eof {fileStream : IFStream}
    (h : (!fileStream.isOpen || fileStream.eof) = true) :
    (remaining fileStream).flatten = [] := by
  unfold remaining
  split
  · rfl
  · rename_i content hcontent
    have heof : fileStream.eof = true := by
      simpa [IFStream.isOpen, hcontent] using h
    rw [heof, Bool.true_or, if_pos rfl]
    rfl

theorem remaining_of_directory {fileStream : IFStream} {part : Str}
    {later : List Str} (h : fileStream.directory ≠ none)
    (hremaining : remaining fileStream = part :: later) :
    part = [] ∧ later = [] := by
  have hsome : fileStream.directory.isSome = true :=
    Option.isSome_iff_ne_none.mpr h
  have hone : remaining fileStream = [[]] := by
    unfold remaining
    split
    · rfl
    · rw [hsome, Bool.or_true, if_pos rfl]
  obtain ⟨rfl, rfl⟩ := List.cons.inj (hone.symm.trans hremaining)
  exact ⟨rfl, rfl⟩

theorem writeChunk_of_directory {client : Client} {result : Int}
    (h : client.response.fileStream.directory ≠ none) :
    writeChunk client result =
      some (client.setFileStream client.response.fileStream, []) := by
  have hsome : client.response.fileStream.directory.isSome = true :=
    Option.isSome_iff_ne_none.mpr h
  have hread : client.response.fileStream.read chunkSize =
      (client.response.fileStream, []) := by
    unfold IFStream.read
    cases client.response.fileStream.content with
    | none => rfl
    | some content => simp only [hsome, if_true]
  unfold writeChunk
  by_cases hopen : client.response.fileStream.isOpen = true ∧
      client.response.fileStream.eof = false
  · simp [hopen, hread]
  · rw [if_neg hopen]
    rfl

theorem writeChunk_passes (client : Client) (result : Int) {part : Str}
    {later : List Str}
    (hremaining : remaining client.response.fileStream = part :: later) :
    writeChunk client result = none ∨
      (part ≠ [] → 1 ≤ result) ∧ ∃ fileStream,
        writeChunk client result =
          some (client.setFileStream fileStream, part.take result.toNat) ∧
        (remaining fileStream).flatten = later.flatten := by
  by_cases hfile : client.response.fileStream.directory = none
  case neg =>
    obtain ⟨rfl, hlater⟩ := remaining_of_directory hfile hremaining
    refine .inr ⟨fun h => absurd rfl h, client.response.fileStream, ?_, ?_⟩
    · rw [List.take_nil]
      exact writeChunk_of_directory hfile
    · rw [hremaining, hlater]
      rfl
  by_cases hpositive : part ≠ [] → 1 ≤ result
  · right
    obtain ⟨fileStream, hwritten, -, hlast, hmore⟩ :=
      writeChunk_remaining hfile hremaining hpositive
    refine ⟨hpositive, fileStream, hwritten, ?_⟩
    by_cases hlater : later = []
    · rw [remaining_of_eof (hlast hlater), hlater]
      rfl
    · rw [(hmore hlater).2]
  · left
    obtain ⟨hpart, hfailed⟩ := Classical.not_imp.mp hpositive
    refine writeChunk_eq_none_iff.mpr ⟨?_, by omega⟩
    unfold remaining at hremaining
    split at hremaining
    · exact absurd (List.cons.inj hremaining).1.symm hpart
    rename_i content hcontent
    split at hremaining
    · exact absurd (List.cons.inj hremaining).1.symm hpart
    rename_i heof
    rw [hfile, Option.isSome_none, Bool.or_false] at heof
    obtain ⟨rest, hrest, -⟩ := @pieces_cons chunkSize (by decide)
      (content.drop client.response.fileStream.position)
    rw [hrest] at hremaining
    obtain ⟨hread, -⟩ := List.cons.inj hremaining
    refine ⟨by simp [IFStream.isOpen, hcontent], by simpa using heof, ?_⟩
    unfold IFStream.read
    rw [hcontent, hfile]
    simpa [hread] using hpart

/-- Either the `send` of the response string fails, or that of the piece, or
the event passes on what the two have accepted of its offer. -/
theorem clientWrite_passes (client : Client) (answers : Answers) :
    ∃ offer rest, client.offers = offer :: rest ∧
      (clientWrite client answers = ([], none) ∨
        (∀ head ∈ offer.head, 0 < answers.sentHead) ∧
          (clientWrite client answers =
              ((offer.head.getD []).take answers.sentHead.toNat, none) ∨
            (offer.chunk ≠ [] → 0 < answers.sentChunk) ∧
              ∃ client', clientWrite client answers =
                  (offer.accepted answers, some client') ∧
                client'.unsent = (rest.map Offer.bytes).flatten)) := by
  obtain ⟨part, later, hremaining⟩ :=
    List.exists_cons_of_ne_nil (remaining_ne_nil client.response.fileStream)
  have hoffers : client.offers =
      { head :=
          if client.request.isStringReqSend then none
          else some client.response.response
        chunk := part } :: later.map fun chunk => { chunk := chunk } := by
    unfold Client.offers
    rw [hremaining]
  refine ⟨_, _, hoffers, ?_⟩
  by_cases hhead : client.request.isStringReqSend = false ∧
      answers.sentHead ≤ 0
  · left
    unfold clientWrite writeHead
    rw [if_neg (by simp [hhead.1]), if_pos hhead.2]
  right
  have hpositive : ∀ head, (if client.request.isStringReqSend then none
      else some client.response.response) = some head →
        0 < answers.sentHead := by
    intro head hsome
    by_cases hsent : client.request.isStringReqSend = true
    · rw [if_pos hsent] at hsome
      cases hsome
    · have hnot : ¬answers.sentHead ≤ 0 :=
        fun hfailed => hhead ⟨by simpa using hsent, hfailed⟩
      omega
  refine ⟨hpositive, ?_⟩
  have hwritten : writeHead client answers.sentHead =
      some (client.setStringReqSend,
        (Option.getD (if client.request.isStringReqSend then none
          else some client.response.response) []).take
            answers.sentHead.toNat) := by
    unfold writeHead
    cases hsent : client.request.isStringReqSend with
    | true => simp [Client.setStringReqSend, ← hsent]
    | false =>
        have hbound := hpositive client.response.response (by simp [hsent])
        have hsome : ¬answers.sentHead ≤ 0 := by omega
        simp [hsome]
  rcases writeChunk_passes client.setStringReqSend answers.sentChunk
      (show remaining client.setStringReqSend.response.fileStream = _ from
        hremaining) with hfailed | ⟨hchunk, fileStream, hchunks, hrest⟩
  · left
    unfold clientWrite
    rw [hwritten]
    simp only [hfailed]
  · right
    refine ⟨hchunk, client.setStringReqSend.setFileStream fileStream, ?_, ?_⟩
    · unfold clientWrite
      rw [hwritten]
      simp only [hchunks]
      rfl
    · have hlater : later.flatten =
          ((later.map fun chunk => ({ chunk := chunk } : Offer)).map
            Offer.bytes).flatten := by
        simp [Function.comp_def, Offer.bytes]
      unfold Client.unsent
      rw [flatten_offers, ← hlater, ← hrest]
      rfl

theorem unsent_of_finished {client client' : Client} {answers : Answers}
    (hwritten : (clientWrite client answers).2 = some client')
    (hdone : client'.finished = true) : client'.unsent = [] := by
  obtain ⟨fileStream, rfl⟩ := clientWrite_some hwritten
  unfold Client.unsent
  rw [flatten_offers, remaining_of_eof hdone]
  rfl

/-! Two ways to compare what has been passed on with what there was to send:
part of it in its order, or all of it. -/

section Passing

variable {rel : Str → Str → Prop}

structure Passing (rel : Str → Str → Prop) : Prop where
  refl : ∀ text, rel text text
  trans : ∀ {sent middle text}, rel sent middle → rel middle text →
    rel sent text
  append : ∀ front {sent text}, rel sent text → rel (front ++ sent)
    (front ++ text)

theorem passing_sublist : Passing List.Sublist :=
  ⟨List.Sublist.refl, List.Sublist.trans,
    fun front _ _ h => List.Sublist.append_left h front⟩

theorem passing_eq : Passing Eq :=
  ⟨fun _ => rfl, Eq.trans, fun front _ _ h => congrArg (front ++ ·) h⟩

/-- What an event passes on and what it leaves to send, beside what there was. -/
def PassesOn (rel : Str → Str → Prop) (client : Client) (answers : Answers) :
    Prop :=
  ∃ rest, rel ((clientWrite client answers).1 ++ rest) client.unsent ∧
    ∀ client', (clientWrite client answers).2 = some client' →
      client'.unsent = rest

theorem passes_sublist (client : Client) (answers : Answers) :
    PassesOn List.Sublist client answers := by
  obtain ⟨offer, rest, hoffers, hcases⟩ := clientWrite_passes client answers
  have hunsent : client.unsent =
      offer.bytes ++ (rest.map Offer.bytes).flatten := by
    unfold Client.unsent
    rw [hoffers]
    rfl
  have hhead : ((offer.head.getD []).take answers.sentHead.toNat).Sublist
      (offer.head.getD []) := List.take_sublist ..
  rcases hcases with hnone | ⟨-, hfailed | ⟨-, client', hsome, hrest⟩⟩
  · exact ⟨[], by simp [hnone], by simp [hnone]⟩
  · refine ⟨[], ?_, by simp [hfailed]⟩
    rw [hfailed, hunsent, List.append_nil, Offer.bytes, List.append_assoc]
    exact hhead.trans (List.sublist_append_left ..)
  · refine ⟨client'.unsent, ?_, fun other hother => ?_⟩
    · rw [hsome, hunsent, hrest]
      exact (hhead.append (List.take_sublist ..)).append (.refl _)
    · rw [hsome] at hother
      rw [Option.some.inj hother]

theorem passes_whole {client : Client} {answers : Answers}
    (hwhole : ∀ offer ∈ client.offers.head?, offer.Whole answers) :
    PassesOn Eq client answers := by
  obtain ⟨offer, rest, hoffers, hcases⟩ := clientWrite_passes client answers
  have hunsent : client.unsent =
      offer.bytes ++ (rest.map Offer.bytes).flatten := by
    unfold Client.unsent
    rw [hoffers]
    rfl
  have hwhole : offer.Whole answers := hwhole offer (by rw [hoffers]; rfl)
  have hhead : (∀ head ∈ offer.head, 0 < answers.sentHead) →
      (offer.head.getD []).take answers.sentHead.toNat =
        offer.head.getD [] := by
    intro hpositive
    cases htext : offer.head with
    | none => simp
    | some head =>
        have hbounds := hwhole.head head htext
        have hpositive := hpositive head htext
        refine List.take_of_length_le ?_
        simp only [Option.getD_some]
        omega
  rcases hcases with hnone | ⟨hpositive, hfailed | ⟨hpiece, client', hsome,
    hrest⟩⟩
  · exact ⟨client.unsent, by simp [hnone], by simp [hnone]⟩
  · refine ⟨offer.chunk ++ (rest.map Offer.bytes).flatten, ?_,
      by simp [hfailed]⟩
    rw [hfailed, hunsent, hhead hpositive, Offer.bytes, List.append_assoc]
  · refine ⟨client'.unsent, ?_, fun other hother => ?_⟩
    · have hchunk : offer.chunk.take answers.sentChunk.toNat =
          offer.chunk := by
        by_cases hempty : offer.chunk = []
        · simp [hempty]
        · have hbounds := hwhole.chunk hempty
          have hpositive := hpiece hempty
          exact List.take_of_length_le (by omega)
      rw [hsome, hunsent, hrest]
      simp only [Offer.accepted, Offer.bytes, hhead hpositive, hchunk]
    · rw [hsome] at hother
      rw [Option.some.inj hother]

end Passing

/-! The record of one descriptor. -/

section Keys

variable {α β : Type} [DecidableEq β] {key : α → β} {l : List α}

theorem find?_set_key {i : Nat} {x y : α} {b : β}
    (hnodup : (l.map key).Nodup) (hx : l[i]? = some x)
    (hkey : key y = key x) :
    (l.set i y).find? (key · = b) =
      if b = key x then some y else l.find? (key · = b) := by
  induction l generalizing i with
  | nil => cases hx
  | cons a l ih =>
      obtain ⟨hfresh, hrest⟩ := List.nodup_cons.mp hnodup
      cases i with
      | zero =>
          obtain rfl := Option.some.inj hx
          rw [List.set_cons_zero, List.find?_cons, List.find?_cons, hkey]
          by_cases hb : b = key a
          · simp [hb]
          · simp [hb, Ne.symm hb]
      | succ i =>
          rw [List.set_cons_succ, List.find?_cons, List.find?_cons,
            ih hrest hx]
          by_cases ha : key a = b
          · have hne : b ≠ key x := by
              rintro rfl
              rw [ha] at hfresh
              exact hfresh (List.mem_map_of_mem (List.mem_of_getElem? hx))
            simp [ha, hne]
          · simp [ha]

theorem find?_eraseIdx_key {i : Nat} {x : α} {b : β}
    (hnodup : (l.map key).Nodup) (hx : l[i]? = some x) :
    (l.eraseIdx i).find? (key · = b) =
      if b = key x then none else l.find? (key · = b) := by
  induction l generalizing i with
  | nil => cases hx
  | cons a l ih =>
      obtain ⟨hfresh, hrest⟩ := List.nodup_cons.mp hnodup
      cases i with
      | zero =>
          obtain rfl := Option.some.inj hx
          rw [List.eraseIdx_cons_zero, List.find?_cons]
          by_cases hb : b = key a
          · rw [if_pos hb, List.find?_eq_none]
            intro y hy hsame
            rw [hb] at hsame
            exact hfresh (List.mem_map.mpr ⟨y, hy, of_decide_eq_true hsame⟩)
          · simp [hb, Ne.symm hb]
      | succ i =>
          rw [List.eraseIdx_cons_succ, List.find?_cons, List.find?_cons,
            ih hrest hx]
          by_cases ha : key a = b
          · have hne : b ≠ key x := by
              rintro rfl
              rw [ha] at hfresh
              exact hfresh (List.mem_map_of_mem (List.mem_of_getElem? hx))
            simp [ha, hne]
          · simp [ha]

end Keys

namespace Server

variable {W : Type} {server : Server W}

def record (server : Server W) (fd : Int) : Option Client :=
  server.clients.find? (·.clientId = fd)

theorem record_of_slot (h : Aligned server) {index clientIndex : Nat}
    {polled : PollFd} {client : Client}
    (hslot : Slot server index clientIndex polled client) :
    server.record polled.fd = some client := by
  unfold record
  rw [List.find?_eq_getElem?_findIdx, ← hslot.sameFd,
    findIdx_key h.clients_nodup hslot.record]
  exact hslot.record

theorem sentTo_logSent_ne (server : Server W) {fd other : Int}
    (hne : other ≠ fd) (bytes : Str) :
    (server.logSent fd bytes).sentTo other = server.sentTo other := by
  simp [sentTo, logSent, Ne.symm hne]

def turn (server : Server W) : Event → Option (Client × Answers)
  | .poll _ => none
  | .visit answers =>
      match server.cursor with
      | 0 => none
      | index + 1 =>
          (server.pollfds[index]?).bind fun polled =>
            if polled.revents = { pollOut := true } then
              (server.record polled.fd).map fun client => (client, answers)
            else none

def listener (server : Server W) : Event → Option ServerConfig
  | .poll _ => none
  | .visit _ => server.nextSlot.bind fun polled => server.findConfig polled.fd

/-- What one step does to the connection on a descriptor: to its record, and to
the bytes that have been sent. -/
inductive Dealt [Os W] (turn : Option (Client × Answers))
    (handed : Option (Int × Str)) (listener : Option ServerConfig)
    (blocks : List ServerBlock) (process process' : Process W) (fd : Int) :
    Option Client → Str → Option Client → Str → Prop
  | same {record : Option Client} {sent : Str} :
      (∀ bytes, handed ≠ some (fd, bytes)) →
      Dealt turn handed listener blocks process process' fd record sent record sent
  | connected {config : ServerConfig} {block : ServerBlock} {sent : Str} :
      listener = some config →
      blocks[config.serverBlockIndex.toNat]? = some block →
      Dealt turn handed listener blocks process process' fd none sent
        (some (Client.connect fd block)) sent
  | received {client client' : Client} {bytes sent : Str} :
      handed = some (fd, bytes) → client.allRecv = false →
      receive process client bytes = .ok (process', client') →
      Dealt turn handed listener blocks process process' fd (some client) sent
        (some client') sent
  | wrote {client client' : Client} {answers : Answers} {sent bytes : Str} :
      turn = some (client, answers) → client.allRecv = true →
      clientWrite client answers = (bytes, some client') →
      Dealt turn handed listener blocks process process' fd (some client) sent
        (some client') (sent ++ bytes)
  | closed {client : Client} {sent : Str} :
      (∀ answers, turn ≠ some (client, answers)) →
      Dealt turn handed listener blocks process process' fd (some client) sent none sent
  /-- The last write, or one that has failed. -/
  | left {client : Client} {answers : Answers} {sent bytes : Str} :
      turn = some (client, answers) → client.allRecv = true →
      (clientWrite client answers).1 = bytes →
      (∀ client', (clientWrite client answers).2 = some client' →
        client'.finished = true) →
      Dealt turn handed listener blocks process process' fd (some client) sent none
        (sent ++ bytes)

theorem record_eraseClient (h : Aligned server) {index clientIndex : Nat}
    {polled : PollFd} {client : Client}
    (hslot : Slot server index clientIndex polled client) (fd : Int) :
    (server.eraseClient index clientIndex polled.fd).record fd =
      if fd = polled.fd then none else server.record fd := by
  rw [← hslot.sameFd]
  exact find?_eraseIdx_key h.clients_nodup hslot.record

theorem record_set (h : Aligned server) {clientIndex : Nat}
    {client client' : Client} {next : Server W}
    (hclient : server.clients[clientIndex]? = some client)
    (hid : client'.clientId = client.clientId)
    (hnext : next.clients = server.clients.set clientIndex client')
    (fd : Int) :
    next.record fd =
      if fd = client.clientId then some client' else server.record fd := by
  unfold record
  rw [hnext]
  exact find?_set_key h.clients_nodup hclient hid

theorem record_eq_none {fd : Int}
    (hfresh : fd ∉ server.clients.map Client.clientId) :
    server.record fd = none := by
  refine List.find?_eq_none.mpr fun client hclient hsame => ?_
  refine hfresh (List.mem_map.mpr ⟨client, hclient, ?_⟩)
  exact of_decide_eq_true hsame

theorem record_of_turn {event : Event} {client : Client} {answers : Answers}
    (h : server.turn event = some (client, answers)) :
    server.record client.clientId = some client := by
  unfold turn at h
  split at h
  · cases h
  split at h
  · cases h
  obtain ⟨polled, -, hturn⟩ := Option.bind_eq_some_iff.mp h
  split at hturn
  · obtain ⟨found, hfound, hsame⟩ := Option.map_eq_some_iff.mp hturn
    obtain ⟨rfl, -⟩ := Prod.mk.inj hsame
    have hid : found.clientId = polled.fd := by
      simpa using List.find?_some hfound
    rw [hid]
    exact hfound
  · cases hturn

theorem Dealt.complete [Os W] {turn : Option (Client × Answers)}
    {handed : Option (Int × Str)} {listener : Option ServerConfig}
    {blocks : List ServerBlock} {process process' : Process W} {fd : Int}
    {client : Client} {answers : Answers} {before after : Option Client}
    {sent sent' : Str}
    (h : Dealt turn handed listener blocks process process' fd before sent
      after sent')
    (hturn : turn = some (client, answers)) (hbefore : before = some client)
    (hafter : after = none) (hfine : ¬FailedSend client answers) :
    client.allRecv = true ∧ sent' = sent ++ (clientWrite client answers).1 ∧
      ∃ client', (clientWrite client answers).2 = some client' ∧
        client'.unsent = [] := by
  cases h with
  | same =>
      rw [hbefore] at hafter
      cases hafter
  | connected => cases hbefore
  | received => cases hafter
  | wrote => cases hafter
  | closed hnot =>
      obtain rfl := Option.some.inj hbefore
      exact absurd hturn (hnot answers)
  | @left found offered sent bytes hsame hall hbytes hdone =>
      obtain ⟨rfl, rfl⟩ := Prod.mk.inj
        (Option.some.inj (hturn.symm.trans hsame))
      rw [← hbytes]
      refine ⟨hall, rfl, ?_⟩
      cases hwritten : (clientWrite client answers).2 with
      | none => exact absurd (clientWrite_eq_none_iff.mp hwritten) hfine
      | some client' =>
          exact ⟨client', rfl, unsent_of_finished hwritten
            (hdone client' hwritten)⟩

section Steps

variable [Os W]

theorem Visited.dealt {index : Nat} {answers : Answers}
    {turn : Option (Client × Answers)} {listener : Option ServerConfig}
    {next : Server W}
    (h : Visited server index answers next) (haligned : Aligned server)
    (hopen : ∀ clientIndex polled client,
      Slot server index clientIndex polled client →
        (polled.revents.pollIn = true → client.allRecv = false) ∧
        (polled.revents.pollOut = true → client.allRecv = true))
    (hturn : ∀ clientIndex polled client,
      Slot server index clientIndex polled client →
        turn = if polled.revents = { pollOut := true } then
          some (client, answers) else none)
    (hlistener : ∀ polled, server.pollfds[index]? = some polled →
      listener = server.findConfig polled.fd)
    (hfresh : ∀ fd, answers.accepted = some fd →
      fd ∉ server.clients.map Client.clientId) (fd : Int) :
    Dealt turn (server.handedAt index answers) listener
      server.serverBlockObj server.process next.process fd
      (server.record fd) (server.sentTo fd) (next.record fd)
      (next.sentTo fd) := by
  have hnot : ∀ polled : PollFd, server.pollfds[index]? = some polled →
      fd ≠ polled.fd → ∀ bytes,
        server.handedAt index answers ≠ some (fd, bytes) :=
    fun polled hpolled hne bytes hsome => hne (handedAt_fd hpolled hsome)
  cases h with
  | idle hnone => exact .same fun bytes hsome => by simp [hnone] at hsome
  | gaveUp hnone _ =>
      exact .same fun bytes hsome => by simp [hnone] at hsome
  | @accepted polled config block new hpolled hconfig _ hblock haccepted
      hnone _ =>
      have hnew := hfresh new haccepted
      have hrecord : (server.addClient new block).record fd =
          (server.record fd).or
            (if new = fd then some (Client.connect new block) else none) := by
        unfold record addClient
        rw [List.find?_append]
        congr 1
        by_cases hsame : new = fd
        · simp [Client.connect, hsame]
        · simp [Client.connect, hsame]
      have hsent : (server.addClient new block).sentTo fd =
          server.sentTo fd := rfl
      rw [hrecord, hsent]
      by_cases hsame : new = fd
      · subst hsame
        rw [record_eq_none hnew, if_pos rfl]
        exact .connected ((hlistener polled hpolled).trans hconfig) hblock
      · rw [if_neg hsame, Option.or_none]
        exact .same fun bytes hsome => by simp [hnone] at hsome
  | @received clientIndex polled client client' process hslot hin _ hat
      hchecked =>
      have hafter : (server.takeRead index clientIndex process
          client').clients = server.clients.set clientIndex client' := by
        rw [takeRead_eq]
      have hsent : (server.takeRead index clientIndex process
          client').sentTo fd = server.sentTo fd := by
        rw [takeRead_eq]
        rfl
      have hprocess : (server.takeRead index clientIndex process
          client').process = process := by
        rw [takeRead_eq]
      have hopen := (hopen _ _ _ hslot).1 hin
      have hreceive : receive server.process client answers.received =
          .ok (process, client') := by
        unfold receive
        rw [if_neg (by simp [hopen])]
        exact hchecked
      rw [record_set haligned hslot.record
        (checkRequest_kept hchecked).clientId hafter fd, hsent, hslot.sameFd]
      by_cases hfd : fd = polled.fd
      · rw [if_pos hfd, hfd, record_of_slot haligned hslot, hprocess]
        exact .received hat hopen hreceive
      · rw [if_neg hfd]
        exact .same (hnot polled hslot.entry hfd)
  | @ended clientIndex polled client hslot hevents =>
      have hnone := hturn _ _ _ hslot
      rw [if_neg hevents] at hnone
      have hsent : (server.eraseClient index clientIndex
          polled.fd).sentTo fd = server.sentTo fd := rfl
      rw [record_eraseClient haligned hslot fd, hsent]
      by_cases hfd : fd = polled.fd
      · rw [if_pos hfd, hfd, record_of_slot haligned hslot]
        exact .closed fun answers hsome => by rw [hnone] at hsome; cases hsome
      · rw [if_neg hfd]
        exact .same (hnot polled hslot.entry hfd)
  | @wrote clientIndex polled client client' bytes hslot hout hwritten _ =>
      have hwrites := hturn _ _ _ hslot
      rw [if_pos hout] at hwrites
      have hall := (hopen _ _ _ hslot).2 (congrArg Revents.pollOut hout)
      obtain ⟨fileStream, hclient'⟩ := clientWrite_some
        (congrArg Prod.snd hwritten)
      have hafter : ((server.logSent polled.fd bytes).setClient clientIndex
          client').clients = server.clients.set clientIndex client' := rfl
      have hsent : ((server.logSent polled.fd bytes).setClient clientIndex
          client').sentTo fd = (server.logSent polled.fd bytes).sentTo fd :=
        rfl
      rw [record_set haligned hslot.record (by rw [hclient']) hafter fd, hsent,
        hslot.sameFd]
      by_cases hfd : fd = polled.fd
      · rw [if_pos hfd, hfd, record_of_slot haligned hslot, sentTo_logSent]
        exact .wrote hwrites hall hwritten
      · rw [if_neg hfd, sentTo_logSent_ne _ hfd]
        exact .same (hnot polled hslot.entry hfd)
  | @left clientIndex polled client bytes hslot hout hwritten hdone =>
      have hwrites := hturn _ _ _ hslot
      rw [if_pos hout] at hwrites
      have hall := (hopen _ _ _ hslot).2 (congrArg Revents.pollOut hout)
      have hsent : ((server.logSent polled.fd bytes).eraseClient index
          clientIndex polled.fd).sentTo fd =
            (server.logSent polled.fd bytes).sentTo fd := rfl
      have hrecord : (server.logSent polled.fd bytes).record fd =
          server.record fd := rfl
      rw [record_eraseClient (haligned.logSent polled.fd bytes)
        (hslot.logSent ..) fd, hsent, hrecord]
      by_cases hfd : fd = polled.fd
      · rw [if_pos hfd, hfd, record_of_slot haligned hslot, sentTo_logSent]
        exact .left hwrites hall hwritten
          hdone
      · rw [if_neg hfd, sentTo_logSent_ne _ hfd]
        exact .same (hnot polled hslot.entry hfd)
  | @leftBoth clientIndex polled other client neighbour bytes hslot hout
      hwritten hother =>
      have hwrites := hturn _ _ _ hslot
      rw [if_pos hout] at hwrites
      have hall := (hopen _ _ _ hslot).2 (congrArg Revents.pollOut hout)
      have hlogged := haligned.logSent polled.fd bytes
      have herased := hlogged.eraseClient (hslot.logSent ..)
      have hfirst : ∀ fd, ((server.logSent polled.fd bytes).eraseClient index
          clientIndex polled.fd).record fd =
            if fd = polled.fd then none else server.record fd :=
        record_eraseClient hlogged (hslot.logSent ..)
      have hsent : (((server.logSent polled.fd bytes).eraseClient index
          clientIndex polled.fd).eraseClient index clientIndex
            other.fd).sentTo fd =
              (server.logSent polled.fd bytes).sentTo fd := rfl
      have hneighbour := record_of_slot herased hother
      rw [hfirst] at hneighbour
      have hne : other.fd ≠ polled.fd := by
        intro hsame
        rw [if_pos hsame] at hneighbour
        cases hneighbour
      rw [if_neg hne] at hneighbour
      rw [record_eraseClient herased hother fd, hfirst, hsent]
      by_cases hfd : fd = polled.fd
      · rw [if_pos hfd, ite_self, hfd, record_of_slot haligned hslot,
          sentTo_logSent]
        exact .left hwrites hall
          (congrArg Prod.fst hwritten) (by simp [hwritten])
      rw [if_neg hfd, sentTo_logSent_ne _ hfd]
      by_cases hboth : fd = other.fd
      · rw [if_pos hboth, hboth, hneighbour]
        refine .closed fun answers hsome => hne ?_
        rw [hwrites] at hsome
        obtain ⟨rfl, -⟩ := Prod.mk.inj (Option.some.inj hsome)
        rw [← hother.sameFd, hslot.sameFd]
      · rw [if_neg hboth]
        exact .same (hnot polled hslot.entry hfd)

theorem step_dealt {event : Event} {next : Server W} (hkept : Kept server)
    (hpermitted : Permitted server event)
    (hnext : server.step event = .ok next) (fd : Int) :
    Dealt (server.turn event) (server.handed event) (server.listener event)
      server.serverBlockObj server.process next.process fd
      (server.record fd) (server.sentTo fd) (next.record fd)
      (next.sentTo fd) := by
  cases step_stepped hkept.aligned hnext with
  | still hnone => exact .same fun bytes hsome => by simp [hnone] at hsome
  | polled => exact .same fun bytes hsome => by cases hsome
  | @visited index answers next hcursor hvisited =>
      have hmoved := hkept.aligned.atSlot index
      have hpolling := hkept.polling.atSlot hcursor
      have hhanded : server.handed (.visit answers) =
          server.handedAt index answers := by
        rw [handed, hcursor]
      rw [hhanded]
      refine hvisited.dealt hmoved (fun clientIndex polled client hslot => ?_)
        (fun clientIndex polled client hslot => ?_)
        (fun polled hpolled => ?_) (fun new haccepted hmem => ?_) fd
      · have hready := hkept.polling.ready_at hcursor hslot.entry
        exact ⟨hpolling.open_of_pollIn hslot hready.1,
          hpolling.received_of_pollOut hslot hready.2⟩
      · have hentry : server.pollfds[index]? = some polled := hslot.entry
        have hrecord : server.record polled.fd = some client :=
          record_of_slot hmoved hslot
        rw [turn, hcursor]
        simp only [hentry, hrecord, Option.bind_some, Option.map_some]
      · have hpolled : server.pollfds[index]? = some polled := hpolled
        rw [listener, nextSlot, hcursor]
        simp only [hpolled, Option.bind_some]
        rfl
      · refine (hpermitted new haccepted).2 ?_
        rw [hkept.aligned.fds]
        exact List.mem_append_right _ hmem

theorem step_process {event : Event} {next : Server W} (hkept : Kept server)
    (hnext : server.step event = .ok next) :
    next.process = server.process ∨
      ∃ fd bytes client client', server.handed event = some (fd, bytes) ∧
        server.record fd = some client ∧ client.allRecv = false ∧
        receive server.process client bytes =
          .ok (next.process, client') := by
  cases step_stepped hkept.aligned hnext with
  | still => exact .inl rfl
  | polled => exact .inl rfl
  | @visited index answers next hcursor hvisited =>
      cases hvisited with
      | @received clientIndex polled client client' process hslot hin _ hat
          hchecked =>
          have hready := hkept.polling.ready_at hcursor hslot.entry
          have hopen := (hkept.polling.atSlot hcursor).open_of_pollIn hslot
            hready.1 hin
          refine .inr ⟨polled.fd, answers.received, client, client', ?_,
            record_of_slot (hkept.aligned.atSlot index) hslot, hopen, ?_⟩
          · rw [handed, hcursor]
            exact hat
          · unfold receive
            rw [if_neg (by simp [hopen]), takeRead_eq]
            exact hchecked
      | _ => exact .inl rfl

end Steps

end Server

/-! A run in which the files that are sent stay as they are. -/

namespace Server

variable {W : Type} [Os W]

def Unchanged (server : Server W) : Prop :=
  ∀ client ∈ server.clients,
    client.response.fileStream.AsOpened server.process.world

instance (server : Server W) : Decidable server.Unchanged :=
  inferInstanceAs (Decidable (∀ _ ∈ _, _))

def Steady (server : Server W) (event : Event) : Prop :=
  server.Permitted event ∧ server.Unchanged

instance (server : Server W) (event : Event) :
    Decidable (server.Steady event) :=
  inferInstanceAs (Decidable (_ ∧ _))

end Server

/-! The event loop beside what each connection has been promised. -/

structure Wired (W : Type) where
  server : Server W
  /-- How much had been sent on a descriptor when its connection was accepted. -/
  start : Int → Nat := fun _ => 0
  /-- What its client had to be sent when the request had been received. -/
  answer : Int → Str := fun _ => []
  /-- The buffers that its client has been heard with. -/
  heard : Int → List Str := fun _ => []

namespace Wired

variable {W : Type}

/-- What has been sent over the last connection of a descriptor. -/
def since (wired : Wired W) (fd : Int) : Str :=
  (wired.server.sentTo fd).drop (wired.start fd)

def opened (before after : Option Client) (sent : Str) (start : Nat) : Nat :=
  if before.isNone && after.isSome then sent.length else start

def promise (before after : Option Client) (answer : Str) : Str :=
  match after with
  | none => answer
  | some client =>
      if client.allRecv = false then []
      else if before.any Client.allRecv then answer
      else client.unsent

def listened (handed : Option (Int × Str)) (fd : Int)
    (before after : Option Client) (heard : List Str) : List Str :=
  if before.isNone && after.isSome then []
  else if before.any (!·.allRecv) then
    heard ++ (handed.toList.filter (·.1 = fd)).map Prod.snd
  else heard

variable [Os W]

def step (wired : Wired W) (event : Server.Event) :
    Except Fault (Wired W) := do
  let next ← wired.server.step event
  return {
    server := next
    start := fun fd =>
      opened (wired.server.record fd) (next.record fd) (next.sentTo fd)
        (wired.start fd)
    answer := fun fd =>
      promise (wired.server.record fd) (next.record fd) (wired.answer fd)
    heard := fun fd =>
      listened (wired.server.handed event) fd (wired.server.record fd)
        (next.record fd) (wired.heard fd) }

omit [Os W] in
/-- What has been sent over a connection and what is still to be sent, beside
what it has been promised. -/
structure Accounts (rel : Str → Str → Prop) (since answer : Str)
    (record : Option Client) : Prop where
  sent : ∃ rest, rel (since ++ rest) answer
  waiting : ∀ client, record = some client → client.allRecv = false →
    since = []
  answering : ∀ client, record = some client → client.allRecv = true →
    rel (since ++ client.unsent) answer

structure Invariant (rel : Str → Str → Prop) (wired : Wired W) : Prop where
  kept : wired.server.Kept
  start : ∀ fd, wired.start fd ≤ (wired.server.sentTo fd).length
  accounts : ∀ fd, Accounts rel (wired.since fd) (wired.answer fd)
    (wired.server.record fd)

omit [Os W] in
theorem Accounts.fresh {rel : Str → Str → Prop} (hrel : Passing rel)
    {record : Option Client} {answer : Str}
    (hanswer : ∀ client, record = some client →
      answer = if client.allRecv then client.unsent else []) :
    Accounts rel [] answer record := by
  refine ⟨⟨answer, hrel.refl _⟩, fun _ _ _ => rfl, ?_⟩
  intro client hclient hall
  rw [hanswer client hclient, if_pos hall]
  exact hrel.refl _

omit [Os W] in
theorem Accounts.ended {rel : Str → Str → Prop} {since answer : Str}
    (h : ∃ rest, rel (since ++ rest) answer) :
    Accounts rel since answer none :=
  ⟨h, fun _ hnone => (by cases hnone), fun _ hnone => (by cases hnone)⟩

theorem Accounts.dealt {rel : Str → Str → Prop} (hrel : Passing rel)
    {turn : Option (Client × Answers)} {handed : Option (Int × Str)}
    {listener : Option ServerConfig} {blocks : List ServerBlock}
    {process process' : Process W} {fd : Int}
    {before after : Option Client} {sent sent' answer : Str} {start : Nat}
    (hdealt : Server.Dealt turn handed listener blocks process process' fd
      before sent after sent')
    (hpasses : ∀ client answers, turn = some (client, answers) →
      PassesOn rel client answers)
    (hstart : start ≤ sent.length)
    (h : Accounts rel (sent.drop start) answer before) :
    opened before after sent' start ≤ sent'.length ∧
      Accounts rel (sent'.drop (opened before after sent' start))
        (promise before after answer) after := by
  have hmore : ∀ bytes, (sent ++ bytes).drop start = sent.drop start ++ bytes :=
    fun bytes => List.drop_append_of_le_length hstart
  -- what has been sent of an answer, and what is left of it after one event
  have hwritten : ∀ (client : Client) (answers : Answers),
      turn = some (client, answers) → before = some client →
        client.allRecv = true → ∃ rest,
          rel ((sent ++ (clientWrite client answers).1).drop start ++ rest)
            answer ∧ ∀ client', (clientWrite client answers).2 =
              some client' → client'.unsent = rest := by
    intro client answers hturn hbefore hall
    obtain ⟨rest, hrest, hnext⟩ := hpasses client answers hturn
    refine ⟨rest, ?_, hnext⟩
    rw [hmore, List.append_assoc]
    exact hrel.trans (hrel.append _ hrest) (h.answering client hbefore hall)
  cases hdealt with
  | same =>
      have hkeep : opened before before sent start = start := by
        cases before <;> rfl
      rw [hkeep]
      refine ⟨hstart, ?_⟩
      cases before with
      | none => exact .ended h.sent
      | some client =>
          cases hall : client.allRecv with
          | false =>
              rw [h.waiting client rfl hall]
              refine .fresh hrel fun other hother => ?_
              obtain rfl := Option.some.inj hother
              simp [promise, hall]
          | true =>
              have hpromise : promise (some client) (some client) answer =
                  answer := by
                simp [promise, hall]
              rw [hpromise]
              exact h
  | connected _ _ =>
      change sent.length ≤ sent.length ∧ Accounts rel (sent.drop sent.length)
        _ _
      rw [List.drop_length]
      refine ⟨Nat.le_refl _, .fresh hrel fun other hother => ?_⟩
      obtain rfl := Option.some.inj hother
      rfl
  | @received client client' _ _ _ hopen _ =>
      change start ≤ _ ∧ Accounts rel (List.drop start _) _ _
      rw [h.waiting client rfl hopen]
      refine ⟨hstart, .fresh hrel fun other hother => ?_⟩
      obtain rfl := Option.some.inj hother
      cases hall : client'.allRecv <;> simp [promise, hopen, hall]
  | @wrote client client' answers sent bytes hturn hall hsome =>
      change start ≤ _ ∧ Accounts rel (List.drop start _) _ _
      obtain ⟨fileStream, hclient'⟩ := clientWrite_some
        (congrArg Prod.snd hsome)
      have hall' : client'.allRecv = true := by rw [hclient', hall]
      have hpromise : promise (some client) (some client') answer =
          answer := by
        simp [promise, hall, hall']
      obtain ⟨rest, hrest, hnext⟩ := hwritten client answers hturn rfl hall
      rw [hsome] at hrest hnext
      have hunsent := hnext client' rfl
      rw [hpromise]
      refine ⟨by rw [List.length_append]; omega, ⟨rest, hrest⟩, ?_, ?_⟩
      · intro other hother hopen
        obtain rfl := Option.some.inj hother
        rw [hall'] at hopen
        cases hopen
      · intro other hother _
        obtain rfl := Option.some.inj hother
        rw [hunsent]
        exact hrest
  | closed _ => exact ⟨hstart, .ended h.sent⟩
  | @left client answers sent bytes hturn hall hbytes _ =>
      obtain ⟨rest, hrest, -⟩ := hwritten client answers hturn rfl hall
      rw [hbytes] at hrest
      have hlonger : start ≤ (sent ++ bytes).length := by
        rw [List.length_append]
        omega
      exact ⟨hlonger, .ended ⟨rest, hrest⟩⟩

theorem step_invariant {rel : Str → Str → Prop} (hrel : Passing rel)
    {wired next : Wired W} {event : Server.Event} (h : Invariant rel wired)
    (hpermitted : wired.server.Permitted event)
    (hpasses : ∀ client answers, wired.server.turn event =
      some (client, answers) → PassesOn rel client answers)
    (hnext : wired.step event = .ok next) : Invariant rel next := by
  obtain ⟨server, hstep, hnext⟩ := bind_ok hnext
  obtain rfl := Except.ok.inj hnext
  have hdealt := fun fd => Accounts.dealt hrel
    (Server.step_dealt h.kept hpermitted hstep fd) hpasses (h.start fd)
    (h.accounts fd)
  exact ⟨h.kept.step hpermitted hstep, fun fd => (hdealt fd).1,
    fun fd => (hdealt fd).2⟩

def initial (world : W) (blocks : List ServerBlock)
    (created : List ServerConfig) : Wired W :=
  { server := Server.initializeServers world blocks created }

omit [Os W] in
theorem initial_invariant {rel : Str → Str → Prop} (hrel : Passing rel)
    (world : W) (blocks : List ServerBlock) {created : List ServerConfig}
    (hnodup : ((created.filter (0 ≤ ·.fd)).map ServerConfig.fd).Nodup) :
    Invariant rel (initial world blocks created) :=
  ⟨Server.kept_initializeServers world blocks hnodup, fun _ => Nat.le_refl _,
    fun _ => .fresh hrel fun _ hnone => (by cases hnone)⟩

def Permitted (wired : Wired W) (event : Server.Event) : Prop :=
  wired.server.Permitted event

instance (wired : Wired W) (event : Server.Event) :
    Decidable (wired.Permitted event) :=
  inferInstanceAs (Decidable (wired.server.Permitted event))

/-- The condition on one event: no file has changed that is being sent. -/
def Steady (wired : Wired W) (event : Server.Event) : Prop :=
  wired.server.Steady event

instance (wired : Wired W) (event : Server.Event) :
    Decidable (wired.Steady event) :=
  inferInstanceAs (Decidable (wired.server.Steady event))

/-- Whatever the clients send, and whatever `send` accepts of the answers: a
connection carries a part of its own answer, in the order of the answer, and
nothing before its request has been received. -/
theorem carried_sublist {world : W} {blocks : List ServerBlock}
    {created : List ServerConfig}
    (hnodup : ((created.filter (0 ≤ ·.fd)).map ServerConfig.fd).Nodup)
    {wired : Wired W}
    (h : Machine.Reachable step Steady (initial world blocks created)
      wired) (fd : Int) :
    (wired.since fd).Sublist (wired.answer fd) ∧
      ∀ client, wired.server.record fd = some client →
        (client.allRecv = false → wired.since fd = []) ∧
        (client.allRecv = true →
          (wired.since fd ++ client.unsent).Sublist (wired.answer fd)) := by
  have hinvariant : Invariant List.Sublist wired := h.invariant
    (fun _ _ _ hinvariant hsteady hnext =>
      step_invariant passing_sublist hinvariant hsteady.1
        (fun client answers _ => passes_sublist client answers) hnext)
    (initial_invariant passing_sublist world blocks hnodup)
  have haccounts := hinvariant.accounts fd
  obtain ⟨rest, hrest⟩ := haccounts.sent
  exact ⟨(List.sublist_append_left _ rest).trans hrest, fun client hclient =>
    ⟨haccounts.waiting client hclient, haccounts.answering client hclient⟩⟩

def listening : Wired Disk :=
  initial Server.fileDisk [{}] [{ serverBlockIndex := 0, fd := 3 }]

theorem listening_nodup :
    ((List.filter (0 ≤ ·.fd) [({ serverBlockIndex := 0, fd := 3 } :
      ServerConfig)]).map ServerConfig.fd).Nodup := by
  decide

/-- The first of two answers is cut short: four bytes of its head are accepted,
and the file. -/
theorem carried_sublist_short :
    ∃ wired, Machine.replay step Steady listening (Server.twoClients ++
        [.visit { sentHead := 4, sentChunk := 1 }]) = some wired ∧
      wired.since 5 = "HTTPx".toList ∧
      (wired.since 5).Sublist (wired.answer 5) := by
  have hstate : (Machine.replay step Steady listening (Server.twoClients ++
      [.visit { sentHead := 4, sentChunk := 1 }])).map (·.since 5) =
        some "HTTPx".toList := by decide +kernel
  obtain ⟨wired, hwired, hsince⟩ := Option.map_eq_some_iff.mp hstate
  exact ⟨wired, hwired, hsince, (carried_sublist listening_nodup
    (Machine.reachable_of_replay .start hwired) 5).1⟩

/-- The condition on one event: each `send` that it makes fails, or accepts all
that it is offered. -/
def WholeSends (wired : Wired W) (event : Server.Event) : Prop :=
  wired.Permitted event ∧
    ∀ writes ∈ wired.server.turn event,
      ∀ offer ∈ writes.1.offers.head?, offer.Whole writes.2

instance (wired : Wired W) (event : Server.Event) :
    Decidable (wired.WholeSends event) :=
  inferInstanceAs (Decidable (_ ∧ _))

theorem step_whole {wired next : Wired W} {event : Server.Event}
    (h : Invariant Eq wired) (hwhole : wired.WholeSends event)
    (hnext : wired.step event = .ok next) : Invariant Eq next :=
  step_invariant passing_eq h hwhole.1
    (fun client answers hturn =>
      passes_whole (hwhole.2 (client, answers) hturn)) hnext

/-- Besides, no file has changed that is being sent. -/
def SteadySends (wired : Wired W) (event : Server.Event) : Prop :=
  wired.WholeSends event ∧ wired.server.Unchanged

instance (wired : Wired W) (event : Server.Event) :
    Decidable (wired.SteadySends event) :=
  inferInstanceAs (Decidable (_ ∧ _))

theorem reachable_whole {root wired : Wired W}
    (h : Machine.Reachable step SteadySends root wired) :
    Machine.Reachable step WholeSends root wired :=
  h.mono fun _ _ hsends => hsends.1

/-- A `send` that accepts all or fails loses nothing on the way: a connection
carries a beginning of its own answer, and the rest of it is what its record
still has to send. -/
theorem carried_beginning {world : W} {blocks : List ServerBlock}
    {created : List ServerConfig}
    (hnodup : ((created.filter (0 ≤ ·.fd)).map ServerConfig.fd).Nodup)
    {wired : Wired W}
    (h : Machine.Reachable step SteadySends (initial world blocks created)
      wired) (fd : Int) :
    wired.since fd <+: wired.answer fd ∧
      ∀ client, wired.server.record fd = some client →
        client.allRecv = true →
          wired.since fd ++ client.unsent = wired.answer fd := by
  have hinvariant : Invariant Eq wired := (reachable_whole h).invariant
    (fun _ _ _ hinvariant hwhole hnext => step_whole hinvariant hwhole hnext)
    (initial_invariant passing_eq world blocks hnodup)
  have haccounts := hinvariant.accounts fd
  obtain ⟨rest, hrest⟩ := haccounts.sent
  exact ⟨⟨rest, hrest⟩, haccounts.answering⟩

/-- The `send` of the file fails, and its client is gone after the head. -/
theorem carried_beginning_failed :
    ∃ wired, Machine.replay step SteadySends listening (Server.twoClients ++
        [.visit { sentHead := 95, sentChunk := -1 }]) = some wired ∧
      (wired.server.fds, (wired.since 5).length, (wired.answer 5).length) =
        ([3, 6], 95, 96) ∧
      wired.since 5 <+: wired.answer 5 := by
  have hstate : (Machine.replay step SteadySends listening (Server.twoClients ++
      [.visit { sentHead := 95, sentChunk := -1 }])).map (fun wired =>
        (wired.server.fds, (wired.since 5).length,
          (wired.answer 5).length)) = some ([3, 6], 95, 96) := by
    decide +kernel
  obtain ⟨wired, hwired, hsent⟩ := Option.map_eq_some_iff.mp hstate
  exact ⟨wired, hwired, hsent, (carried_beginning listening_nodup
    (Machine.reachable_of_replay .start hwired) 5).1⟩

/-- A write that ends its connection without a failed `send` brings what has
been carried up to the whole answer. -/
theorem Invariant.complete {wired next : Wired W} {event : Server.Event}
    {client : Client} {answers : Answers} (h : Invariant Eq wired)
    (hwhole : wired.WholeSends event)
    (hturn : wired.server.turn event = some (client, answers))
    (hfine : ¬FailedSend client answers)
    (hnext : wired.step event = .ok next)
    (hended : next.server.record client.clientId = none) :
    client.allRecv = true ∧
      next.since client.clientId = wired.answer client.clientId := by
  obtain ⟨server, hstep, hnext⟩ := bind_ok hnext
  obtain rfl := Except.ok.inj hnext
  have hrecord := Server.record_of_turn hturn
  have hdealt := Server.step_dealt h.kept hwhole.1 hstep client.clientId
  obtain ⟨hall, hsent, client', hsome, hunsent⟩ :=
    hdealt.complete hturn hrecord hended hfine
  obtain ⟨rest, hrest, hafter⟩ :=
    passes_whole (hwhole.2 (client, answers) hturn)
  rw [← hafter client' hsome, hunsent, List.append_nil] at hrest
  have hwritten := (h.accounts client.clientId).answering client hrecord hall
  refine ⟨hall, ?_⟩
  change List.drop (opened (wired.server.record client.clientId)
    (server.record client.clientId) (server.sentTo client.clientId)
      (wired.start client.clientId)) (server.sentTo client.clientId) = _
  have hended : server.record client.clientId = none := hended
  rw [hended, hrecord, hsent]
  change List.drop (wired.start client.clientId) _ = _
  rw [List.drop_append_of_le_length (h.start client.clientId), hrest]
  exact hwritten

/-- The connection that a write ends, no `send` of it having failed, has
carried its answer from the first byte to the last. -/
theorem carried_whole {world : W} {blocks : List ServerBlock}
    {created : List ServerConfig}
    (hnodup : ((created.filter (0 ≤ ·.fd)).map ServerConfig.fd).Nodup)
    {wired next : Wired W} {event : Server.Event} {client : Client}
    {answers : Answers}
    (h : Machine.Reachable step SteadySends (initial world blocks created)
      wired) (hsends : wired.SteadySends event)
    (hturn : wired.server.turn event = some (client, answers))
    (hfine : ¬FailedSend client answers)
    (hnext : wired.step event = .ok next)
    (hended : next.server.record client.clientId = none) :
    next.since client.clientId = wired.answer client.clientId := by
  have hinvariant : Invariant Eq wired := (reachable_whole h).invariant
    (fun _ _ _ hinvariant hwhole hnext => step_whole hinvariant hwhole hnext)
    (initial_invariant passing_eq world blocks hnodup)
  exact (hinvariant.complete hsends.1 hturn hfine hnext hended).2

def lastWrite : Server.Event := .visit { sentHead := 95, sentChunk := 1 }

/-- The descriptor that a write is made to, and whether no `send` fails. -/
def lastTurn (wired : Wired Disk) (event : Server.Event) :
    Option (Int × Bool) :=
  (wired.server.turn event).map fun writes =>
    (writes.1.clientId, (clientWrite writes.1 writes.2).2.isSome)

structure LastWrite (wired next : Wired Disk) (event : Server.Event)
    (fd : Int) (client : Client) (answers : Answers) : Prop where
  turn : wired.server.turn event = some (client, answers)
  clientId : client.clientId = fd
  fine : ¬FailedSend client answers
  step : wired.step event = .ok next
  ended : next.server.record client.clientId = none

theorem lastWrite_of_replay {condition : Wired Disk → Server.Event → Prop}
    [∀ wired event, Decidable (condition wired event)] {wired : Wired Disk}
    {event : Server.Event} {fd : Int} {fds : List Int}
    (h : (lastTurn wired event,
      (Machine.replay step condition wired [event]).map fun next =>
        (next.server.fds, (next.server.record fd).isNone)) =
      (some (fd, true), some (fds, true))) :
    ∃ next client answers, LastWrite wired next event fd client answers ∧
      next.server.fds = fds ∧ condition wired event := by
  obtain ⟨hturn, hreplay⟩ := Prod.mk.inj h
  obtain ⟨next, hlast, hended⟩ := Option.map_eq_some_iff.mp hreplay
  obtain ⟨hfds, hnone⟩ := Prod.mk.inj hended
  obtain ⟨⟨client, answers⟩, hwrites, hsame⟩ :=
    Option.map_eq_some_iff.mp hturn
  obtain ⟨hid, hsome⟩ := Prod.mk.inj hsame
  have hid : client.clientId = fd := hid
  obtain ⟨hrun, hmeets⟩ := Machine.run_of_replay hlast
  obtain ⟨after, hnext, hdone⟩ := Machine.run_cons_ok hrun
  obtain rfl := Except.ok.inj hdone
  refine ⟨after, client, answers, ⟨hwrites, hid, fun hfailed => ?_, hnext,
    ?_⟩, hfds, hmeets.1⟩
  · rw [clientWrite_eq_none_iff.mpr hfailed] at hsome
    cases hsome
  · rw [hid]
    simpa using hnone

/-- The first of two clients gets all of its answer. -/
theorem carried_whole_two :
    ∃ wired next, Machine.replay step SteadySends listening
        Server.twoClients = some wired ∧
      wired.step lastWrite = .ok next ∧ next.server.fds = [3, 6] ∧
      next.since 5 = wired.answer 5 := by
  have hstate : (Machine.replay step SteadySends listening
      Server.twoClients).map (fun wired => (lastTurn wired lastWrite,
        (Machine.replay step SteadySends wired [lastWrite]).map fun next =>
          (next.server.fds, (next.server.record 5).isNone))) =
        some (some (5, true), some ([3, 6], true)) := by
    decide +kernel
  obtain ⟨wired, hwired, hfields⟩ := Option.map_eq_some_iff.mp hstate
  obtain ⟨next, client, answers, hlast, hfds, hwhole⟩ :=
    lastWrite_of_replay hfields
  refine ⟨wired, next, hwired, hlast.step, hfds, ?_⟩
  rw [← hlast.clientId]
  exact carried_whole listening_nodup
    (Machine.reachable_of_replay .start hwired) hwhole hlast.turn hlast.fine
    hlast.step hlast.ended

end Wired

end Webserv
