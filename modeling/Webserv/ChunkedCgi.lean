import Webserv.Cgi
import Webserv.Coding.Chunks

namespace Webserv

open Cxx Coding

/-! `chunked_for_cgi` on the calls that deliver a chunked body. -/

theorem foldl_hexToInt {digits : Str}
    (h : ∀ c ∈ digits, (hexDigit c).isSome = true) (value : Nat) :
    digits.foldl (fun (result : BitVec 32) c =>
      if '0' ≤ c ∧ c ≤ '9' then
        result * 16 + BitVec.ofNat 32 (c.toNat - '0'.toNat)
      else if 'a' ≤ c ∧ c ≤ 'f' then
        result * 16 + BitVec.ofNat 32 (c.toNat - 'a'.toNat + 10)
      else if 'A' ≤ c ∧ c ≤ 'F' then
        result * 16 + BitVec.ofNat 32 (c.toNat - 'A'.toNat + 10)
      else result) (BitVec.ofNat 32 value) =
      BitVec.ofNat 32 (digits.foldl
        (fun value c => value * 16 + (hexDigit c).getD 0) value) := by
  induction digits generalizing value with
  | nil => rfl
  | cons c digits ih =>
      have hstep : ∀ digit : Nat,
          BitVec.ofNat 32 value * 16 + BitVec.ofNat 32 digit =
            BitVec.ofNat 32 (value * 16 + digit) := by
        intro digit
        apply BitVec.eq_of_toNat_eq
        simp
      have hdigit := h c List.mem_cons_self
      have hrest := ih fun other hother => h other (List.mem_cons_of_mem _ hother)
      rw [List.foldl_cons, List.foldl_cons, ← hrest]
      congr 1
      unfold hexDigit at hdigit ⊢
      split
      · exact hstep _
      split
      · exact hstep _
      split
      · exact hstep _
      · rename_i h₁ h₂ h₃
        rw [if_neg h₁, if_neg h₂, if_neg h₃] at hdigit
        cases hdigit

theorem hexToInt_head {chunk : Chunk} (h : chunk.Sized) :
    hexToInt chunk.head = BitVec.ofNat 32 chunk.data.length := by
  have hdigits := foldl_hexToInt h.digits 0
  unfold hexToInt
  rw [Chunk.head, List.foldl_append]
  change List.foldl _ (List.foldl _ (BitVec.ofNat 32 0) _) _ = _
  rw [hdigits, ← h.value]
  simp [crlf, hexValue]

theorem sizeT_hexToInt {chunk : Chunk} (h : chunk.Sized)
    (hlength : chunk.data.length < 2 ^ 31) :
    sizeT (hexToInt chunk.head).toInt = chunk.data.length := by
  rw [hexToInt_head h, BitVec.toInt_eq_toNat_of_lt]
  · rw [BitVec.toNat_ofNat, Nat.mod_eq_of_lt (by omega),
      sizeT_natCast (by omega)]
  · rw [BitVec.toNat_ofNat, Nat.mod_eq_of_lt (by omega)]
    omega

theorem search_head {chunk : Chunk} (h : chunk.Sized) (rest : Str) :
    search? "\r\n".toList (chunk.head ++ rest) = some chunk.size.length :=
  search?_cons_first h.noReturn

theorem take_head (chunk : Chunk) (rest : Str) :
    (chunk.head ++ rest).take (chunk.size.length + 2) = chunk.head := by
  have hlength : chunk.head.length = chunk.size.length + 2 := by
    simp [Chunk.head, crlf]
  rw [← hlength, List.take_left]

theorem drop_head (chunk : Chunk) (rest : Str) :
    (chunk.head ++ rest).drop (chunk.size.length + 2) = rest := by
  have hlength : chunk.head.length = chunk.size.length + 2 := by
    simp [Chunk.head, crlf]
  rw [← hlength, List.drop_left]

theorem substrFrom_head (chunk : Chunk) (rest : Str) :
    substrFrom (chunk.head ++ rest) (chunk.size.length + 2) = .ok rest := by
  rw [substrFrom_ok (by simp [Chunk.head, crlf]), drop_head]

/-- A chunk of a body, as the code can read it. -/
structure ReadableChunk (chunk : Chunk) : Prop extends chunk.Sized where
  ne_nil : chunk.data ≠ []
  length : chunk.data.length < 2 ^ 31

theorem ReadableChunk.pos {chunk : Chunk} (h : ReadableChunk chunk) :
    0 < chunk.data.length :=
  List.length_pos_iff.mpr h.ne_nil

theorem sized_last : Chunk.last.Sized := ⟨by decide, by decide⟩

section Loop

variable {W : Type}

theorem chunkedForCgiLoop_chunk {process : Process W} (client : Client)
    {chunk : Chunk} (h : ReadableChunk chunk) {rest : Str}
    (hrequest : process.cgiChunk.request = chunk.text ++ rest) (fuel : Nat) :
    chunkedForCgiLoop (fuel + 1) process client =
      chunkedForCgiLoop fuel { process with
        cgiChunk :=
          { request := rest
            result := process.cgiChunk.result ++ chunk.data } } client := by
  have hpos := h.pos
  have hlength := h.length
  have hsplit : chunk.text ++ rest =
      chunk.head ++ (chunk.data ++ (crlf ++ rest)) := by
    simp [Chunk.text]
  have hskip : sizeT ((chunk.data.length : Int) + 2) =
      chunk.data.length + 2 := by
    unfold sizeT
    omega
  have hbreak : (chunk.data ++ crlf).length = chunk.data.length + 2 := by
    simp [crlf]
  have hrest : substrFrom (chunk.data ++ (crlf ++ rest))
      (chunk.data.length + 2) = .ok rest := by
    rw [← List.append_assoc, ← hbreak, substrFrom_ok (by simp),
      List.drop_left]
  rw [chunkedForCgiLoop, hrequest, hsplit, search_head h.toSized]
  simp only [substr_zero, take_head, substrFrom_head, bind, Except.bind,
    sizeT_hexToInt h.toSized hlength]
  rw [if_neg (by omega), if_neg (by simp)]
  simp only [List.take_left, hskip, hrest]

theorem chunkedForCgiLoop_last {process : Process W} (client : Client)
    {rest : Str}
    (hrequest : process.cgiChunk.request = Chunk.last.head ++ rest)
    (fuel : Nat) :
    chunkedForCgiLoop (fuel + 1) process client =
      .ok ({ process with cgiChunk := {} },
        (client.setAllRecv true).setSRequest process.cgiChunk.result,
        process.cgiChunk.result) := by
  have hsize := sizeT_hexToInt sized_last (by decide)
  rw [chunkedForCgiLoop, hrequest, search_head sized_last]
  simp only [substr_zero, take_head, bind, Except.bind, hsize]
  rw [if_pos (by rfl)]
  rfl

theorem chunkedForCgiLoop_short {process : Process W} (client : Client)
    {chunk : Chunk} (hsized : chunk.Sized)
    (hlength : chunk.data.length < 2 ^ 31) {rest : Str}
    (hshort : Short chunk rest)
    (hrequest : process.cgiChunk.request = rest) (fuel : Nat) :
    chunkedForCgiLoop (fuel + 1) process client =
      .ok (process, client, []) := by
  rw [chunkedForCgiLoop, hrequest]
  cases hshort.cases with
  | inl hline =>
      have hbreak : '\n' ∉ rest := by
        intro hmem
        have hinside := hline.subset hmem
        simp [hsized.noBreak] at hinside
      have habsent : search? "\r\n".toList rest = none := by
        apply search?_eq_none_iff.mpr
        intro hoccurs
        exact hbreak (hoccurs.subset (by simp))
      rw [habsent]
  | inr hdata =>
      obtain ⟨data, rfl, hless⟩ := hdata
      rw [search_head hsized]
      simp only [substr_zero, take_head, substrFrom_head, bind, Except.bind,
        sizeT_hexToInt hsized hlength]
      rw [if_neg (by omega), if_pos hless]
      rfl

/-- Behind the data of a chunk two more characters are skipped, also when they
are not there yet. -/
theorem chunkedForCgiLoop_halfway {process : Process W} (client : Client)
    {chunk : Chunk} (h : ReadableChunk chunk) {rest : Str}
    (hlength : rest.length < 2)
    (hrequest : process.cgiChunk.request =
      chunk.head ++ chunk.data ++ rest) (fuel : Nat) :
    chunkedForCgiLoop (fuel + 1) process client = .error .outOfRange := by
  have hpos := h.pos
  have hbound := h.length
  have hskip : sizeT ((chunk.data.length : Int) + 2) =
      chunk.data.length + 2 := by
    unfold sizeT
    omega
  have hbeyond : substrFrom (chunk.data ++ rest) (chunk.data.length + 2) =
      .error .outOfRange := by
    unfold substrFrom
    rw [if_neg (by simp; omega)]
  rw [chunkedForCgiLoop, hrequest, List.append_assoc, search_head h.toSized]
  simp only [substr_zero, take_head, substrFrom_head, bind, Except.bind,
    sizeT_hexToInt h.toSized hbound]
  rw [if_neg (by omega), if_neg (by simp)]
  simp only [hskip, hbeyond]

theorem chunkedForCgiLoop_done {process : Process W} (client : Client)
    {done : List Chunk} (h : ∀ chunk ∈ done, ReadableChunk chunk)
    {rest : Str} (hrequest : process.cgiChunk.request = texts done ++ rest)
    {fuel : Nat} (hfuel : done.length ≤ fuel) :
    chunkedForCgiLoop fuel process client =
      chunkedForCgiLoop (fuel - done.length) { process with
        cgiChunk :=
          { request := rest
            result := process.cgiChunk.result ++ content done } } client := by
  induction done generalizing process fuel with
  | nil =>
      have hsame : process.cgiChunk =
          { request := rest, result := process.cgiChunk.result } := by
        simp only [texts_nil, List.nil_append] at hrequest
        rw [← hrequest]
      simp [← hsame]
  | cons chunk done ih =>
      obtain ⟨fuel, rfl⟩ : ∃ less, fuel = less + 1 :=
        ⟨fuel - 1, by simp at hfuel; omega⟩
      rw [texts_cons, List.append_assoc] at hrequest
      rw [chunkedForCgiLoop_chunk client (h chunk List.mem_cons_self)
        hrequest]
      rw [ih (fun other hother => h other (List.mem_cons_of_mem _ hother))
        rfl (by simpa using hfuel)]
      simp

end Loop

/-! The calls one after the other. -/

section Calls

variable {W : Type}

/-- The calls return nothing and leave `all_recv` unset. -/
def quietCalls :
    Process W → Client → List Str → Option (Process W × Client)
  | process, client, [] => some (process, client)
  | process, client, bytes :: rest =>
      match chunkedForCgi process (client.setSRequest bytes) with
      | .ok (process, client, []) =>
          if client.allRecv then none else quietCalls process client rest
      | _ => none

def Delivers (process : Process W) (client : Client) (body : Str)
    (earlier : List Str) (last : Str) : Prop :=
  ∃ waiting open_, quietCalls process client earlier =
      some (waiting, open_) ∧
    ∃ done closed, chunkedForCgi waiting (open_.setSRequest last) =
        .ok (done, closed, body) ∧
      closed.allRecv = true ∧ done.cgiChunk = {}

variable {process : Process W} {client : Client}
  {received result bytes : Str}

theorem chunkedForCgi_eq
    (hstatic : process.cgiChunk = { request := received, result := result })
    {done : List Chunk} (h : ∀ chunk ∈ done, ReadableChunk chunk)
    {rest : Str} (hrequest : received ++ bytes = texts done ++ rest) :
    ∃ fuel, chunkedForCgi process (client.setSRequest bytes) =
      chunkedForCgiLoop (fuel + 1) { process with
        cgiChunk :=
          { request := rest
            result := result ++ content done } }
        (client.setSRequest bytes) := by
  have hlength := length_le_texts done
  have htotal := congrArg List.length hrequest
  simp only [List.length_append] at htotal
  refine ⟨(received ++ bytes).length - done.length, ?_⟩
  unfold chunkedForCgi
  simp only [hstatic]
  rw [show (client.setSRequest bytes).request.sRequest = bytes from rfl,
    @chunkedForCgiLoop_done W { process with
      cgiChunk := { request := received ++ bytes, result := result } }
      _ done h rest hrequest _ (by simp; omega)]
  congr 1
  simp
  omega

theorem readable_append {chunks front left : List Chunk}
    (h : ∀ chunk ∈ chunks, ReadableChunk chunk)
    (hchunks : chunks = front ++ left) :
    (∀ chunk ∈ front, ReadableChunk chunk) ∧
      ∀ chunk ∈ left, ReadableChunk chunk := by
  subst hchunks
  exact ⟨fun chunk hchunk => h chunk (List.mem_append_left _ hchunk),
    fun chunk hchunk => h chunk (List.mem_append_right _ hchunk)⟩

theorem sized_of_append_last {chunks back : List Chunk} {chunk : Chunk}
    (h : ∀ chunk ∈ chunks, ReadableChunk chunk)
    (hchunks : chunks ++ [.last] = chunk :: back) :
    chunk.Sized ∧ chunk.data.length < 2 ^ 31 := by
  cases chunks with
  | nil =>
      obtain ⟨rfl, -⟩ := List.cons.inj hchunks
      exact ⟨sized_last, by decide⟩
  | cons first rest =>
      obtain ⟨rfl, -⟩ := List.cons.inj hchunks
      have hfirst := h first List.mem_cons_self
      exact ⟨hfirst.toSized, hfirst.length⟩

theorem chunkedForCgi_short
    (hstatic : process.cgiChunk = { request := received, result := result })
    {done : List Chunk} (h : ∀ chunk ∈ done, ReadableChunk chunk)
    {chunk : Chunk} (hsized : chunk.Sized)
    (hlength : chunk.data.length < 2 ^ 31) {rest : Str}
    (hshort : Short chunk rest)
    (hrequest : received ++ bytes = texts done ++ rest) :
    chunkedForCgi process (client.setSRequest bytes) =
      .ok ({ process with
        cgiChunk :=
          { request := rest
            result := result ++ content done } },
        client.setSRequest bytes, []) := by
  obtain ⟨fuel, hcall⟩ := @chunkedForCgi_eq W process client received result
    bytes hstatic done h rest hrequest
  rw [hcall]
  exact chunkedForCgiLoop_short _ hsized hlength hshort rfl fuel

theorem chunkedForCgi_last
    (hstatic : process.cgiChunk = { request := received, result := result })
    {done : List Chunk} (h : ∀ chunk ∈ done, ReadableChunk chunk)
    {rest : Str}
    (hrequest : received ++ bytes =
      texts done ++ (Chunk.last.head ++ rest)) :
    ∃ process', chunkedForCgi process (client.setSRequest bytes) =
        .ok (process',
          ((client.setSRequest bytes).setAllRecv true).setSRequest
            (result ++ content done),
          result ++ content done) ∧
      process'.cgiChunk = {} := by
  obtain ⟨fuel, hcall⟩ := @chunkedForCgi_eq W process client received result
    bytes hstatic done h _ hrequest
  rw [hcall, chunkedForCgiLoop_last _ rfl]
  exact ⟨_, rfl, rfl⟩

theorem chunkedForCgi_halfway
    (hstatic : process.cgiChunk = { request := received, result := result })
    {done : List Chunk} (h : ∀ chunk ∈ done, ReadableChunk chunk)
    {chunk : Chunk} (hchunk : ReadableChunk chunk) {rest : Str}
    (hlength : rest.length < 2)
    (hrequest : received ++ bytes =
      texts done ++ (chunk.head ++ chunk.data ++ rest)) :
    chunkedForCgi process (client.setSRequest bytes) =
      .error .outOfRange := by
  obtain ⟨fuel, hcall⟩ := @chunkedForCgi_eq W process client received result
    bytes hstatic done h _ hrequest
  rw [hcall]
  exact chunkedForCgiLoop_halfway _ hchunk hlength rfl fuel

theorem not_delivers_of_halfway {chunks : List Chunk}
    (hstatic : process.cgiChunk = { request := received, result := result })
    (h : ∀ chunk ∈ chunks, ReadableChunk chunk)
    (hhalf : Halfway (chunks ++ [.last]) (received ++ bytes)) {body : Str}
    {earlier : List Str} {last : Str} :
    ¬Delivers process client body (bytes :: earlier) last := by
  obtain ⟨front, chunk, later, rest, hsplit, hstarts, hne, htext⟩ := hhalf
  obtain ⟨left, rfl, hleft⟩ := exists_of_append_last hsplit
  obtain ⟨hfront, hback⟩ := readable_append h rfl
  rintro ⟨waiting, open_, hquiet, -⟩
  cases left with
  | nil =>
      obtain ⟨rfl, -⟩ := List.cons.inj hleft
      obtain ⟨done, hcall, -⟩ := @chunkedForCgi_last W process client
        received result bytes hstatic front hfront rest htext
      rw [quietCalls, hcall] at hquiet
      cases hresult : result ++ content front with
      | nil =>
          rw [hresult] at hquiet
          cases hquiet
      | cons c text =>
          rw [hresult] at hquiet
          cases hquiet
  | cons first left =>
      obtain ⟨rfl, -⟩ := List.cons.inj hleft
      have hshorter : rest.length < crlf.length :=
        lt_of_le_of_ne hstarts.length_le fun heq =>
          hne (hstarts.eq_of_length heq)
      have hcall := @chunkedForCgi_halfway W process client received result
        bytes hstatic front hfront first (hback first List.mem_cons_self)
        rest hshorter htext
      rw [quietCalls, hcall] at hquiet
      cases hquiet

/-- With part of a chunk in its static, `chunked_for_cgi` delivers the body
unless a call ends halfway behind the data of a chunk. -/
theorem delivers_iff_of_short {chunks back : List Chunk} {first : Chunk}
    (hstatic : process.cgiChunk = { request := received, result := result })
    (h : ∀ chunk ∈ chunks, ReadableChunk chunk)
    (hchunks : chunks ++ [.last] = first :: back)
    (hshort : Short first received) (hopen : client.allRecv = false)
    {earlier : List Str} {last : Str} (hlast : last ≠ [])
    (hbody : received ++ (earlier.flatten ++ last) = encodeChunks chunks) :
    Delivers process client (result ++ content chunks) earlier last ↔
      ∀ front, front <+: earlier →
        ¬Halfway (chunks ++ [.last]) (received ++ front.flatten) := by
  induction earlier generalizing process client received result chunks back
    first with
  | nil =>
      have hquiet : ∀ front : List Str, front <+: [] →
          ¬Halfway (chunks ++ [.last]) (received ++ front.flatten) := by
        intro front hfront
        rw [List.prefix_nil.mp hfront, List.flatten_nil, List.append_nil,
          hchunks]
        exact hshort.not_halfway
      refine iff_of_true ?_ hquiet
      have hrequest : received ++ last =
          texts chunks ++ (Chunk.last.head ++ crlf) := by
        rw [List.flatten_nil, List.nil_append] at hbody
        rw [hbody, encodeChunks, texts_append]
        simp [Chunk.text, Chunk.last]
      obtain ⟨done, hcall, hidle⟩ := @chunkedForCgi_last W process client
        received result last hstatic chunks h crlf hrequest
      exact ⟨process, client, rfl, done, _, hcall, rfl, hidle⟩
  | cons bytes earlier ih =>
      have hrest : (received ++ bytes) ++ (earlier.flatten ++ last) =
          texts (chunks ++ [.last]) := by
        rw [← encodeChunks, ← hbody]
        simp
      rcases texts_prefix_cases ⟨_, hrest⟩ with
        hwhole | hhalf | ⟨front, chunk, later, rest, hsplit, hnext, htext⟩
      · -- the last call would deliver nothing
        rw [hwhole] at hrest
        have hnone := List.append_cancel_left
          (hrest.trans (List.append_nil _).symm)
        exact absurd (List.append_eq_nil_iff.mp hnone).2 hlast
      · refine iff_of_false ?_ fun hall => ?_
        · exact not_delivers_of_halfway hstatic h hhalf
        · refine hall [bytes] ?_ ?_
          · exact ⟨earlier, rfl⟩
          · simpa using hhalf
      · obtain ⟨left, rfl, hleft⟩ := exists_of_append_last hsplit
        obtain ⟨hfront, hback⟩ := readable_append h rfl
        obtain ⟨hsized, hlength⟩ := sized_of_append_last hback hleft
        have hcall := @chunkedForCgi_short W process client received result
          bytes hstatic front hfront chunk hsized hlength rest hnext htext
        have hdelivers : ∀ body, Delivers process client body
            (bytes :: earlier) last ↔ Delivers { process with
              cgiChunk :=
                { request := rest
                  result := result ++ content front } }
              (client.setSRequest bytes) body earlier last := by
          intro body
          have hopen' : (client.setSRequest bytes).allRecv = false := hopen
          unfold Delivers
          rw [quietCalls, hcall]
          simp [hopen']
        rw [htext, texts_append, texts_append, List.append_assoc,
          List.append_assoc] at hrest
        have hbody' : rest ++ (earlier.flatten ++ last) =
            encodeChunks left := by
          rw [encodeChunks, texts_append]
          exact List.append_cancel_left hrest
        have hnew : Delivers { process with
            cgiChunk :=
              { request := rest
                result := result ++ content front } }
            (client.setSRequest bytes)
            (result ++ content front ++ content left) earlier last ↔
          ∀ further, further <+: earlier →
            ¬Halfway (left ++ [.last]) (rest ++ further.flatten) :=
          ih rfl hback hleft hnext hopen hbody'
        have hshift : ∀ further : List Str,
            Halfway (front ++ left ++ [.last])
              (received ++ (bytes :: further).flatten) ↔
            Halfway (left ++ [.last]) (rest ++ further.flatten) := by
          intro further
          rw [List.flatten_cons, ← List.append_assoc, htext,
            List.append_assoc, List.append_assoc, hleft]
          exact halfway_append_iff
        rw [hdelivers, content_append, ← List.append_assoc, hnew]
        constructor
        · intro hall further hfurther
          cases further with
          | nil =>
              rw [List.flatten_nil, List.append_nil, hchunks]
              exact hshort.not_halfway
          | cons next further =>
              obtain ⟨rfl, hmore⟩ := List.cons_prefix_cons.mp hfurther
              rw [hshift]
              exact hall further hmore
        · intro hall further hmore
          rw [← hshift]
          exact hall _ (List.cons_prefix_cons.mpr ⟨rfl, hmore⟩)

/-- From empty statics: a chunked body is delivered, by the call that completes
it, unless some call ends with the data of a chunk, or with the size line of
the last one, whose line break is still to come. -/
theorem chunkedForCgi_delivers_iff (hidle : process.cgiChunk = {})
    (hopen : client.allRecv = false) {chunks : List Chunk}
    (h : ∀ chunk ∈ chunks, ReadableChunk chunk) {earlier : List Str}
    {last : Str} (hlast : last ≠ [])
    (hbody : earlier.flatten ++ last = encodeChunks chunks) :
    Delivers process client (content chunks) earlier last ↔
      ∀ front, front <+: earlier →
        ¬Halfway (chunks ++ [.last]) front.flatten := by
  obtain ⟨first, back, hchunks⟩ :=
    List.exists_cons_of_ne_nil (show chunks ++ [.last] ≠ [] by simp)
  have hshort : Short first [] := by
    refine ⟨List.nil_prefix, ?_⟩
    simp [Chunk.head, crlf]
  exact delivers_iff_of_short hidle h hchunks hshort hopen hlast hbody

end Calls

/-! A body of one chunk, cut in the size line of the last chunk, and cut right
behind the data. -/

def oneChunk : Chunk := ⟨"1".toList, "x".toList⟩

def emptyProcess : Process Unit := { world := () }

theorem readable_oneChunk : ∀ chunk ∈ [oneChunk], ReadableChunk chunk := by
  intro chunk hchunk
  rw [List.mem_singleton.mp hchunk]
  exact ⟨⟨by decide, by decide⟩, by decide, by decide⟩

theorem chunkedForCgi_delivers_oneChunk :
    Delivers emptyProcess (.connect 5 {}) "x".toList
      ["1\r\nx\r\n0".toList] "\r\n\r\n".toList := by
  refine (chunkedForCgi_delivers_iff rfl rfl readable_oneChunk (by decide)
    (by decide)).mpr ?_
  have hbefore : ¬Halfway [oneChunk, .last] [] :=
    Short.not_halfway ⟨by decide, by decide⟩
  have hinside : ¬Halfway [oneChunk, .last] "1\r\nx\r\n0".toList := by
    have hsize : ¬Halfway [.last] "0".toList :=
      Short.not_halfway ⟨by decide, by decide⟩
    rw [← @halfway_append_iff [oneChunk]] at hsize
    exact hsize
  intro front hfront
  cases List.prefix_cons_iff.mp hfront with
  | inl hnone =>
      rw [hnone]
      exact hbefore
  | inr hone =>
      obtain ⟨more, rfl, hmore⟩ := hone
      rw [List.prefix_nil.mp hmore]
      exact hinside

theorem chunkedForCgi_fails_behindData :
    (∀ chunk ∈ [oneChunk], ReadableChunk chunk) ∧
    ["1\r\nx".toList].flatten ++ "\r\n0\r\n\r\n".toList =
      encodeChunks [oneChunk] ∧
    chunkedForCgi emptyProcess
      ((Client.connect 5 {}).setSRequest "1\r\nx".toList) =
        .error .outOfRange ∧
    ¬Delivers emptyProcess (.connect 5 {}) "x".toList ["1\r\nx".toList]
      "\r\n0\r\n\r\n".toList := by
  have hfault : chunkedForCgi emptyProcess
      ((Client.connect 5 {}).setSRequest "1\r\nx".toList) =
        .error .outOfRange :=
    @chunkedForCgi_halfway Unit emptyProcess _ [] [] _ rfl [] (by simp)
      oneChunk (readable_oneChunk oneChunk List.mem_cons_self) []
      (by decide) (by decide)
  refine ⟨readable_oneChunk, by decide, hfault, ?_⟩
  rintro ⟨waiting, open_, hquiet, -⟩
  rw [quietCalls, hfault] at hquiet
  cases hquiet

end Webserv
