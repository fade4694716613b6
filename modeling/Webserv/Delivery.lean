import Webserv.SendIsolation
import Mathlib.Algebra.Order.Group.Nat

namespace Webserv

open Cxx

/-! The bytes of one response that reach the socket of its client. -/

section Pieces

variable {size : Nat}

/-- A file in the order in which it is read: full pieces, and a last one that
is shorter and may be empty. -/
def pieces (size : Nat) (content : Str) : List Str :=
  (List.range (content.length / size + 1)).map fun i =>
    (content.drop (i * size)).take size

theorem pieces_of_short {content : Str} (h : content.length < size) :
    pieces size content = [content] := by
  have hcount : content.length / size = 0 := Nat.div_eq_of_lt h
  simp [pieces, hcount, List.take_of_length_le (Nat.le_of_lt h)]

theorem pieces_of_long {content : Str} (hsize : 0 < size)
    (h : size ≤ content.length) :
    pieces size content =
      content.take size :: pieces size (content.drop size) := by
  have hcount : content.length / size =
      (content.drop size).length / size + 1 := by
    rw [List.length_drop]
    exact Nat.div_eq_sub_div hsize h
  unfold pieces
  rw [hcount, List.range_succ_eq_map, List.map_cons, List.map_map]
  congr 1
  · simp
  · apply List.map_congr_left
    intro i _
    simp only [Function.comp_apply, List.drop_drop]
    rw [Nat.succ_mul, Nat.add_comm]

theorem pieces_cons (hsize : 0 < size) (content : Str) :
    ∃ rest, pieces size content = content.take size :: rest ∧
      (content.length < size → rest = []) ∧
      (size ≤ content.length → rest = pieces size (content.drop size)) := by
  by_cases h : content.length < size
  · refine ⟨[], ?_, fun _ => rfl, fun hlong => absurd h (by omega)⟩
    rw [pieces_of_short h, List.take_of_length_le (by omega)]
  · exact ⟨_, pieces_of_long hsize (by omega), fun hshort => absurd hshort h,
      fun _ => rfl⟩

theorem flatten_pieces (hsize : 0 < size) (content : Str) :
    (pieces size content).flatten = content := by
  induction hlength : content.length using Nat.strong_induction_on
    generalizing content with
  | h length ih =>
      by_cases h : content.length < size
      · simp [pieces_of_short h]
      · have hlong := Nat.le_of_not_lt h
        rw [pieces_of_long hsize hlong, List.flatten_cons,
          ih _ (by rw [List.length_drop]; omega) _ rfl,
          List.take_append_drop]

end Pieces

/-! What is offered to `send` over the events of a response, and what of it is
accepted. -/

/-- What one event offers: the response string before it has been sent, and a
piece of the file. -/
structure Offer where
  head : Option Str := none
  chunk : Str := []
  deriving DecidableEq, Repr

/-- The `send` calls of an event accept at least one byte, and at most those
offered.  An empty piece is not sent. -/
structure Offer.Positive (offer : Offer) (answers : Answers) : Prop where
  head : ∀ head, offer.head = some head →
    1 ≤ answers.sentHead ∧ answers.sentHead ≤ head.length
  chunk : offer.chunk ≠ [] →
    1 ≤ answers.sentChunk ∧ answers.sentChunk ≤ offer.chunk.length

/-- The `send` calls of an event accept all that is offered. -/
structure Offer.Full (offer : Offer) (answers : Answers) : Prop where
  head : ∀ head, offer.head = some head → answers.sentHead = head.length
  chunk : offer.chunk ≠ [] → answers.sentChunk = offer.chunk.length

def Offer.bytes (offer : Offer) : Str :=
  offer.head.getD [] ++ offer.chunk

def Offer.accepted (offer : Offer) (answers : Answers) : Str :=
  (offer.head.getD []).take answers.sentHead.toNat ++
    offer.chunk.take answers.sentChunk.toNat

/-- What is left to read of a stream, one piece for each event.  Of a
directory there is nothing to read. -/
def remaining (fileStream : IFStream) : List Str :=
  match fileStream.content with
  | none => [[]]
  | some content =>
      if fileStream.eof || fileStream.directory.isSome then [[]]
      else pieces chunkSize (content.drop fileStream.position)

/-- One offer for each event up to the last of the response. -/
def Client.offers (client : Client) : List Offer :=
  match remaining client.response.fileStream with
  | [] => []
  | first :: rest =>
      { head :=
          if client.request.isStringReqSend then none
          else some client.response.response
        chunk := first } :: rest.map fun chunk => { chunk := chunk }

theorem length_accepted_le (offer : Offer) (answers : Answers) :
    (offer.accepted answers).length ≤ offer.bytes.length := by
  simp only [Offer.accepted, Offer.bytes, List.length_append,
    List.length_take]
  omega

theorem Offer.Positive.accepted_eq_iff {offer : Offer} {answers : Answers}
    (h : offer.Positive answers) :
    offer.accepted answers = offer.bytes ↔ offer.Full answers := by
  obtain ⟨head, chunk⟩ := offer
  constructor
  · intro heq
    have hlength := congrArg List.length heq
    simp only [Offer.accepted, Offer.bytes, List.length_append,
      List.length_take] at hlength
    refine ⟨fun text htext => ?_, fun hchunk => ?_⟩
    · have hbounds := h.head text htext
      simp only at htext
      subst htext
      simp only [Option.getD_some] at hlength
      omega
    · have hbounds := h.chunk hchunk
      simp only at hbounds ⊢
      omega
  · intro hfull
    have hhead : (head.getD []).take answers.sentHead.toNat =
        head.getD [] := by
      cases head with
      | none => simp
      | some text => simp [hfull.head text rfl]
    have hchunk : chunk.take answers.sentChunk.toNat = chunk := by
      by_cases hempty : chunk = []
      · simp [hempty]
      · have hall : answers.sentChunk = chunk.length := hfull.chunk hempty
        simp [hall]
    simp only [Offer.accepted, Offer.bytes, hhead, hchunk]

theorem accepted_eq_iff {offers : List Offer} {answers : List Answers}
    (h : List.Forall₂ Offer.Positive offers answers) :
    (List.zipWith Offer.accepted offers answers).flatten =
        (offers.map Offer.bytes).flatten ↔
      List.Forall₂ Offer.Full offers answers := by
  have hle : ∀ offers answers,
      (List.zipWith Offer.accepted offers answers).flatten.length ≤
        (offers.map Offer.bytes).flatten.length := by
    intro offers
    induction offers with
    | nil => simp
    | cons offer offers ih =>
        intro answers
        cases answers with
        | nil => simp
        | cons answer answers =>
            have hfirst := length_accepted_le offer answer
            have hrest := ih answers
            simp only [List.zipWith_cons_cons, List.map_cons,
              List.flatten_cons, List.length_append]
            omega
  induction h with
  | nil => simp
  | @cons offer answer offers answers hfirst hrest ih =>
      have hall := and_congr hfirst.accepted_eq_iff ih
      rw [List.forall₂_cons, ← hall]
      simp only [List.zipWith_cons_cons, List.map_cons, List.flatten_cons]
      constructor
      · intro heq
        have hlength := congrArg List.length heq
        simp only [List.length_append] at hlength
        have hone := length_accepted_le offer answer
        have hmany := hle offers answers
        exact List.append_inj heq (by omega)
      · rintro ⟨hone, hmany⟩
        rw [hone, hmany]

theorem remaining_ne_nil (fileStream : IFStream) :
    remaining fileStream ≠ [] := by
  unfold remaining
  split
  · simp
  · rename_i content _
    split
    · simp
    · obtain ⟨rest, hrest, -⟩ := @pieces_cons chunkSize (by decide)
        (content.drop fileStream.position)
      simp [hrest]

theorem flatten_offers (client : Client) :
    (client.offers.map Offer.bytes).flatten =
      (if client.request.isStringReqSend then []
        else client.response.response) ++
        (remaining client.response.fileStream).flatten := by
  unfold Client.offers
  split
  · exact absurd ‹_› (remaining_ne_nil _)
  · rename_i first rest hremaining
    rw [hremaining]
    have hmap : (rest.map fun chunk => ({ chunk := chunk } : Offer)).map
        Offer.bytes = rest := by
      simp [Function.comp_def, Offer.bytes]
    rw [List.map_cons, hmap]
    split <;> simp [Offer.bytes]

theorem flatten_offers_fresh {client : Client}
    (hunsent : client.request.isStringReqSend = false)
    (hstream : client.response.fileStream.Fresh) :
    (client.offers.map Offer.bytes).flatten =
      client.response.response ++
        client.response.fileStream.content.getD [] := by
  rw [flatten_offers, hunsent]
  unfold remaining
  cases hcontent : client.response.fileStream.content with
  | none => simp
  | some content =>
      cases hdirectory : client.response.fileStream.directory with
      | none =>
          have hall := @flatten_pieces chunkSize (by decide) content
          simp [hstream.eof, hstream.position, hall]
      | some size =>
          have hempty := hstream.directory (by rw [hdirectory]; simp)
          rw [hcontent] at hempty
          have hnone : content = [] := hempty
          simp [hnone]

theorem writeChunk_remaining {client : Client} {part : Str}
    {later : List Str} {result : Int}
    (hfile : client.response.fileStream.directory = none)
    (hremaining : remaining client.response.fileStream = part :: later)
    (hpositive : part ≠ [] → 1 ≤ result) :
    ∃ fileStream, writeChunk client result =
        some (client.setFileStream fileStream, part.take result.toNat) ∧
      fileStream.directory = none ∧
      (later = [] →
        (!fileStream.isOpen || fileStream.eof) = true) ∧
      (later ≠ [] → (!fileStream.isOpen || fileStream.eof) = false ∧
        remaining fileStream = later) := by
  have hsame : client.setFileStream client.response.fileStream = client := rfl
  unfold writeChunk
  rcases hstream : client.response.fileStream with
    ⟨content, position, eof, path, directory⟩
  rw [hstream] at hremaining hsame hfile
  obtain rfl : directory = none := hfile
  simp only
  cases content with
  | none =>
      obtain ⟨rfl, rfl⟩ := List.cons.inj hremaining
      exact ⟨_, by rw [if_neg (by simp [IFStream.isOpen]), hsame]; simp,
        rfl, fun _ => rfl, fun h => absurd rfl h⟩
  | some content =>
      cases eof with
      | true =>
          obtain ⟨rfl, rfl⟩ := List.cons.inj hremaining
          exact ⟨_, by rw [if_neg (by simp), hsame]; simp,
            rfl, fun _ => by simp, fun h => absurd rfl h⟩
      | false =>
          have hparts : pieces chunkSize (content.drop position) =
              part :: later := hremaining
          obtain ⟨rest, hrest, hshort, hlong⟩ :=
            @pieces_cons chunkSize (by decide) (content.drop position)
          obtain ⟨rfl, rfl⟩ := List.cons.inj (hparts.symm.trans hrest)
          have hsend : ∀ after : Client,
              (if (content.drop position).take chunkSize = [] then
                some (after, [])
              else if result ≤ 0 then none
              else some (after, ((content.drop position).take
                chunkSize).take result.toNat)) =
                some (after, ((content.drop position).take chunkSize).take
                  result.toNat) := by
            intro after
            split
            · rename_i hempty
              simp [hempty]
            · rename_i hfull
              have hbound := hpositive hfull
              rw [if_neg (by omega)]
          rw [if_pos (by simp [IFStream.isOpen])]
          refine ⟨_, hsend _, ?_, ?_, ?_⟩
          · split <;> rfl
          · intro hlast
            have hend : (content.drop position).length < chunkSize := by
              by_contra hmore
              have hnext := hlong (by omega)
              rw [hlast] at hnext
              obtain ⟨tail, htail, -⟩ := @pieces_cons chunkSize (by decide)
                ((content.drop position).drop chunkSize)
              rw [htail] at hnext
              cases hnext
            have heof : ((content.drop position).take chunkSize).length <
                chunkSize := by
              rw [List.length_take]
              omega
            have hread : (IFStream.read ⟨some content, position, false, path,
                none⟩ chunkSize).1.eof = true := decide_eq_true heof
            rw [if_pos hread]
            rfl
          · intro hmore
            have hend : chunkSize ≤ (content.drop position).length := by
              by_contra hlast
              exact hmore (hshort (by omega))
            have hlength : ((content.drop position).take chunkSize).length =
                chunkSize := by
              rw [List.length_take]
              omega
            have hread : IFStream.read ⟨some content, position, false, path,
                none⟩ chunkSize =
                (⟨some content, position + chunkSize, false, path, none⟩,
                  (content.drop position).take chunkSize) := by
              unfold IFStream.read
              simp [hlength]
            rw [hread]
            refine ⟨rfl, ?_⟩
            change pieces chunkSize (content.drop (position + chunkSize)) = _
            rw [hlong hend, List.drop_drop]

theorem clientWrite_offer {client : Client} {offer : Offer}
    {rest : List Offer} {answers : Answers}
    (hfile : client.response.fileStream.directory = none)
    (hoffers : client.offers = offer :: rest)
    (hpositive : offer.Positive answers) :
    ∃ client', clientWrite client answers =
        (offer.accepted answers, some client') ∧
      client'.response.fileStream.directory = none ∧
      client'.finished = decide (rest = []) ∧
      (rest ≠ [] → client'.offers = rest) := by
  unfold Client.offers at hoffers
  split at hoffers
  · cases hoffers
  rename_i part later hremaining
  obtain ⟨rfl, rfl⟩ := List.cons.inj hoffers
  have hhead : writeHead client answers.sentHead = some (client.setStringReqSend,
      (Option.getD (if client.request.isStringReqSend then none
        else some client.response.response) []).take
          answers.sentHead.toNat) := by
    unfold writeHead
    cases hsent : client.request.isStringReqSend with
    | true => simp [Client.setStringReqSend, ← hsent]
    | false =>
        have hbounds := hpositive.head client.response.response
          (by simp [hsent])
        have hsome : ¬answers.sentHead ≤ 0 := by omega
        simp [hsome]
  obtain ⟨fileStream, hchunk, hplain, hlast, hmore⟩ := writeChunk_remaining
    (show client.setStringReqSend.response.fileStream.directory = none from
      hfile)
    (show remaining client.setStringReqSend.response.fileStream = _ from
      hremaining) fun hne => (hpositive.chunk hne).1
  refine ⟨client.setStringReqSend.setFileStream fileStream, ?_, hplain, ?_,
    ?_⟩
  · unfold clientWrite
    rw [hhead]
    simp only [hchunk]
    rfl
  · cases later with
    | nil => exact (hlast rfl).trans (by simp)
    | cons next later => exact (hmore (by simp)).1.trans (by simp)
  · intro hne
    cases later with
    | nil => exact absurd rfl hne
    | cons next later =>
        have hremaining' : remaining (client.setStringReqSend.setFileStream
            fileStream).response.fileStream = next :: later :=
          (hmore (by simp)).2
        unfold Client.offers
        rw [hremaining']
        rfl

namespace Server

variable {W : Type}

def sentTo (server : Server W) (fd : Int) : Str :=
  ((server.sent.filter (·.1 = fd)).map Prod.snd).flatten

theorem sentTo_logSent (server : Server W) (fd : Int) (bytes : Str) :
    (server.logSent fd bytes).sentTo fd = server.sentTo fd ++ bytes := by
  simp [sentTo, logSent]

variable [Os W]

/-- The `POLLOUT` events of one client, until its connection is closed. -/
def deliver (server : Server W) (index : Nat) (fd : Int) :
    List Answers → Except Fault (Server W)
  | [] => .ok server
  | answers :: rest =>
      if fd ∈ server.clients.map Client.clientId then
        match server.visit index answers with
        | .error fault => .error fault
        | .ok next => next.deliver index fd rest
      else .ok server

theorem Slot.visit_write {server : Server W} (h : Aligned server)
    {index clientIndex : Nat} {polled : PollFd} {client : Client}
    (hslot : Slot server index clientIndex polled client)
    (hrevents : polled.revents = { pollOut := true })
    {offer : Offer} {rest : List Offer} {answers : Answers}
    (hfile : client.response.fileStream.directory = none)
    (hoffers : client.offers = offer :: rest)
    (hpositive : offer.Positive answers) :
    ∃ written client', Aligned written ∧
      Slot written index clientIndex polled client' ∧
      server.visit index answers = finishWrite written index clientIndex ∧
      client'.response.fileStream.directory = none ∧
      client'.finished = decide (rest = []) ∧
      (rest ≠ [] → client'.offers = rest) ∧
      written.sentTo polled.fd =
        server.sentTo polled.fd ++ offer.accepted answers := by
  obtain ⟨client', hwritten, hplain, hfinished, hmore⟩ :=
    clientWrite_offer hfile hoffers hpositive
  have hkeepAlive := h.keepAlive client (List.mem_of_getElem? hslot.record)
  have hlt := (List.getElem?_eq_some_iff.mp hslot.record).1
  obtain ⟨fileStream, hclient'⟩ := clientWrite_some
    (congrArg Prod.snd hwritten)
  have hid : client'.clientId = client.clientId := by rw [hclient']
  have halive : client'.keepAlive = false := by rw [hclient', hkeepAlive]
  have haligned : Aligned ((server.logSent polled.fd
      (offer.accepted answers)).setClient clientIndex client') :=
    (h.logSent ..).setClient hslot.record hid halive
  refine ⟨_, client', haligned, haligned.slot_of_fd hslot.entry ?_
    (hid.trans hslot.sameFd), ?_, hplain, hfinished, hmore,
    sentTo_logSent ..⟩
  · simp [Server.setClient, Server.logSent, hlt]
  · rw [visit_pollOut hslot.entry hrevents, hslot.visitWrite_eq,
      hslot.handleClientWrite_eq h, hwritten]

omit [Os W] in
theorem Slot.not_mem_eraseIdx {server : Server W} (h : Aligned server)
    {index clientIndex : Nat} {polled : PollFd} {client : Client}
    (hslot : Slot server index clientIndex polled client) :
    polled.fd ∉ (server.clients.eraseIdx clientIndex).map
      Client.clientId := by
  obtain ⟨hlt, hrecord⟩ := List.getElem?_eq_some_iff.mp hslot.record
  have hinside : clientIndex <
      (server.clients.map Client.clientId).length := by simpa
  have hkey : (server.clients.map Client.clientId)[clientIndex] =
      polled.fd := by
    rw [List.getElem_map, hrecord, hslot.sameFd]
  rw [← List.eraseIdx_map, ← List.Nodup.erase_getElem h.clients_nodup
    clientIndex hinside, hkey]
  exact h.clients_nodup.not_mem_erase

theorem deliver_eq {server : Server W} (h : Aligned server)
    {index clientIndex : Nat} {polled : PollFd} {client : Client}
    (hslot : Slot server index clientIndex polled client)
    (hrevents : polled.revents = { pollOut := true })
    (hfile : client.response.fileStream.directory = none)
    {offers : List Offer} {answers : List Answers}
    (hoffers : client.offers = offers) (hsome : offers ≠ [])
    (hpositive : List.Forall₂ Offer.Positive offers answers) :
    ∃ final, server.deliver index polled.fd answers = .ok final ∧
      polled.fd ∉ final.clients.map Client.clientId ∧
      final.sentTo polled.fd = server.sentTo polled.fd ++
        (List.zipWith Offer.accepted offers answers).flatten := by
  induction hpositive generalizing server client with
  | nil => exact absurd rfl hsome
  | @cons offer answer rest answers hfirst hrest ih =>
      obtain ⟨written, client', haligned, hslot', hvisit, hplain, hfinished,
        hmore, hsent⟩ := hslot.visit_write h hrevents hfile hoffers hfirst
      have hmem : polled.fd ∈ server.clients.map Client.clientId := by
        rw [← hslot.sameFd]
        exact List.mem_map_of_mem (List.mem_of_getElem? hslot.record)
      rw [deliver, if_pos hmem, hvisit]
      simp only [List.zipWith_cons_cons, List.flatten_cons]
      rcases finishWrite_cases haligned hslot'.offset with
        ⟨hnone, -⟩ | ⟨found, hfound, hcases⟩
      · rw [hslot'.record] at hnone
        cases hnone
      rw [hslot'.record] at hfound
      obtain rfl := Option.some.inj hfound
      rcases hcases with ⟨hopen, hok⟩ | ⟨hdone, after, hok, hclients, hlast⟩
      · have hne : rest ≠ [] := by
          rw [hfinished] at hopen
          exact of_decide_eq_false hopen
        obtain ⟨final, hfinal, hgone, hall⟩ :=
          ih haligned hslot' hplain (hmore hne) hne
        refine ⟨final, by rw [hok]; exact hfinal, hgone, ?_⟩
        rw [hall, hsent, List.append_assoc]
      · rw [hfinished] at hdone
        obtain rfl := of_decide_eq_true hdone
        cases hrest
        have hgone : polled.fd ∉ after.clients.map Client.clientId := by
          rw [hclients]
          exact hslot'.not_mem_eraseIdx haligned
        refine ⟨after, by rw [hok]; rfl, hgone, ?_⟩
        have hkept : after.sentTo polled.fd = written.sentTo polled.fd := by
          unfold sentTo
          rw [hlast]
        simp [hkept, hsent]

/-- The events of a response end with the connection closed, and with exactly
the response string and the file on the socket. -/
def Delivered (server : Server W) (index : Nat) (fd : Int)
    (response content : Str) (answers : List Answers) : Prop :=
  ∃ final, server.deliver index fd answers = .ok final ∧
    fd ∉ final.clients.map Client.clientId ∧
    final.sentTo fd = server.sentTo fd ++ response ++ content

/-- In every aligned state, a response is delivered exactly when each `send`
accepts all the bytes that it is offered. -/
theorem delivered_iff {server : Server W} (haligned : Aligned server)
    {index clientIndex : Nat} {polled : PollFd} {client : Client}
    (hpolled : server.pollfds[index]? = some polled)
    (hclient : server.clients[clientIndex]? = some client)
    (hfd : client.clientId = polled.fd)
    (hrevents : polled.revents = { pollOut := true })
    {content : Option Str} {path : Str}
    (hunsent : client.request.isStringReqSend = false)
    (hstream : client.response.fileStream =
      { content := content, path := path })
    {answers : List Answers}
    (hpositive : List.Forall₂ Offer.Positive client.offers answers) :
    Delivered server index polled.fd client.response.response
        (content.getD []) answers ↔
      List.Forall₂ Offer.Full client.offers answers := by
  have hslot := haligned.slot_of_fd hpolled hclient hfd
  have hsome : client.offers ≠ [] := by
    intro hnone
    have hremaining : remaining client.response.fileStream = [] := by
      unfold Client.offers at hnone
      split at hnone
      · assumption
      · cases hnone
    exact remaining_ne_nil _ hremaining
  have hfresh : client.response.fileStream.Fresh := by
    rw [hstream]
    exact ⟨rfl, rfl, fun h => absurd rfl h⟩
  have hcontent : client.response.fileStream.content = content := by
    rw [hstream]
  obtain ⟨final, hfinal, hgone, hsent⟩ :=
    deliver_eq haligned hslot hrevents (by rw [hstream]) rfl hsome hpositive
  rw [← accepted_eq_iff hpositive, flatten_offers_fresh hunsent hfresh,
    hcontent]
  constructor
  · rintro ⟨other, hother, -, hall⟩
    obtain rfl := Except.ok.inj (hfinal.symm.trans hother)
    rw [hsent, List.append_assoc] at hall
    exact List.append_cancel_left hall
  · intro hall
    refine ⟨final, hfinal, hgone, ?_⟩
    rw [hsent, hall, List.append_assoc]

/-! One client that has asked for a file of one byte. -/

def fileHead : Str :=
  ("HTTP/1.1 200 ok \r\nContent-Type:\r\nContent-Length: 1\r\n" ++
    "Accept-Ranges: bytes\r\nConnection: close\r\n\r\n").toList

def fileSent : IFStream :=
  { content := some ['x'], path := "./html/a".toList }

/-- What the statements read of the client that is served in slot 1. -/
def servedClient (server : Server Disk) :
    Option (Int × Bool × IFStream × Str) :=
  server.clients[0]?.map fun client =>
    (client.clientId, client.request.isStringReqSend,
      client.response.fileStream, client.response.response)

theorem oneClient_ready :
    ∃ server polled client,
      Machine.replay step Permitted listening oneClient = some server ∧
      server.pollfds[1]? = some polled ∧ server.clients[0]? = some client ∧
      polled.fd = 5 ∧ client.clientId = polled.fd ∧
      polled.revents = { pollOut := true } ∧
      client.request.isStringReqSend = false ∧
      client.response.fileStream = fileSent ∧
      client.response.response = fileHead ∧
      client.offers = [{ head := some fileHead, chunk := ['x'] }] := by
  have hstate : (Machine.replay step Permitted listening oneClient).map
      (·.pollfds[1]?) = some (some ⟨5, .pollOut, { pollOut := true }⟩) := by
    decide +kernel
  have hserved : (Machine.replay step Permitted listening oneClient).map
      servedClient = some (some (5, false, fileSent, fileHead)) := by
    decide +kernel
  obtain ⟨server, hreplay, hpolled⟩ := Option.map_eq_some_iff.mp hstate
  rw [hreplay] at hserved
  have hrecord := Option.some.inj hserved
  obtain ⟨client, hclient, hfields⟩ := Option.map_eq_some_iff.mp hrecord
  simp only [Prod.mk.injEq] at hfields
  obtain ⟨hid, hunsent, hstream, hresponse⟩ := hfields
  have hparts : remaining fileSent = [['x']] := by decide
  exact ⟨server, _, client, hreplay, hpolled, hclient, rfl, hid, rfl, hunsent,
    hstream, hresponse,
    by simp [Client.offers, hunsent, hstream, hresponse, hparts]⟩

theorem delivered_iff_oneClient :
    ∃ server, Machine.replay step Permitted listening oneClient =
        some server ∧
      Delivered server 1 5 fileHead ['x']
        [{ sentHead := fileHead.length, sentChunk := 1 }] := by
  obtain ⟨server, polled, client, hreplay, hpolled, hclient, hfive, hfd,
    hrevents, hunsent, hstream, hresponse, hoffers⟩ := oneClient_ready
  have hpositive : List.Forall₂ Offer.Positive client.offers
      [{ sentHead := fileHead.length, sentChunk := 1 }] := by
    rw [hoffers]
    refine .cons ⟨?_, by simp⟩ .nil
    intro head hhead
    obtain rfl := Option.some.inj hhead
    exact ⟨by decide, Int.le_refl _⟩
  have hfull : List.Forall₂ Offer.Full client.offers
      [{ sentHead := fileHead.length, sentChunk := 1 }] := by
    rw [hoffers]
    refine .cons ⟨?_, by simp⟩ .nil
    intro head hhead
    obtain rfl := Option.some.inj hhead
    rfl
  have hdelivered := (delivered_iff (reached_of_replay hreplay).aligned
    hpolled hclient hfd hrevents hunsent hstream hpositive).mpr hfull
  rw [hfive, hresponse] at hdelivered
  exact ⟨server, hreplay, hdelivered⟩

/-- `send` takes one byte of the response string: the rest of it is lost. -/
theorem delivered_fails_shortSend :
    ∃ server polled client,
      Machine.replay step Permitted listening oneClient = some server ∧
      server.pollfds[1]? = some polled ∧ server.clients[0]? = some client ∧
      client.clientId = polled.fd ∧
      polled.revents = { pollOut := true } ∧
      client.request.isStringReqSend = false ∧
      client.response.fileStream = fileSent ∧
      List.Forall₂ Offer.Positive client.offers
        [{ sentHead := 1, sentChunk := 1 }] ∧
      ¬Delivered server 1 polled.fd client.response.response ['x']
        [{ sentHead := 1, sentChunk := 1 }] := by
  obtain ⟨server, polled, client, hreplay, hpolled, hclient, hfive, hfd,
    hrevents, hunsent, hstream, hresponse, hoffers⟩ := oneClient_ready
  have hpositive : List.Forall₂ Offer.Positive client.offers
      [{ sentHead := 1, sentChunk := 1 }] := by
    rw [hoffers]
    refine .cons ⟨?_, by simp⟩ .nil
    intro head hhead
    obtain rfl := Option.some.inj hhead
    exact ⟨by decide, by decide⟩
  have hslot := (reached_of_replay hreplay).aligned.slot_of_fd hpolled hclient
    hfd
  obtain ⟨final, hfinal, -, hsent⟩ := deliver_eq
    (reached_of_replay hreplay).aligned hslot hrevents (by rw [hstream]; rfl)
    rfl
    (by rw [hoffers]; simp) hpositive
  refine ⟨server, polled, client, hreplay, hpolled, hclient, hfd, hrevents,
    hunsent, hstream, hpositive, ?_⟩
  rintro ⟨other, hother, -, hall⟩
  obtain rfl := Except.ok.inj (hfinal.symm.trans hother)
  rw [hsent, List.append_assoc, hoffers, hresponse] at hall
  have hlength := congrArg List.length (List.append_cancel_left hall)
  revert hlength
  decide

end Server

end Webserv
