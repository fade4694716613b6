import Webserv.BodyParts
import Webserv.BodyLimit

namespace Webserv

open Cxx

/-! The rounds of `boundary` over a body that comes in buffers: which parts
have been seen, and what of the body is still ahead. -/

section Text

variable {boundary : Str}

/-- Text in front of a delimiter, in which none begins. -/
def Clear (boundary tail : Str) : Prop :=
  ∀ rest position, OccursAt (delimiter boundary)
    (tail ++ delimiter boundary ++ rest) position → tail.length ≤ position

theorem Clear.search? {tail : Str} (h : Clear boundary tail) (rest : Str) :
    search? (delimiter boundary) (tail ++ delimiter boundary ++ rest) =
      some tail.length := by
  refine search?_eq_some_iff.mpr ⟨by simp, ?_, ?_⟩
  · rw [OccursAt, List.append_assoc, List.drop_left]
    exact List.prefix_append _ _
  · intro earlier hearlier hoccurs
    exact absurd (h rest earlier hoccurs) (by omega)

theorem Clear.of_append {front tail : Str}
    (h : Clear boundary (front ++ tail)) : Clear boundary tail := by
  intro rest position hoccurs
  have hlater := h rest (front.length + position) (by
    rw [OccursAt, List.append_assoc, List.append_assoc, ← List.drop_drop,
      List.drop_left, ← List.append_assoc]
    exact hoccurs)
  rw [List.length_append] at hlater
  omega

theorem Clear.not_infix {tail buffer : Str} (h : Clear boundary tail)
    (hbuffer : buffer <+: tail ++ delimiter boundary)
    (hlength : buffer.length < tail.length + (delimiter boundary).length) :
    ¬delimiter boundary <:+: buffer := by
  rintro ⟨left, right, rfl⟩
  obtain ⟨rest, hrest⟩ := hbuffer
  have hlater := h [] left.length (by
    rw [OccursAt, List.append_nil, ← hrest]
    simp only [List.append_assoc, List.drop_left]
    exact List.prefix_append _ _)
  simp only [List.length_append] at hlength
  omega

theorem clear_text {text : Str} (hboundary : PlainBoundary boundary)
    (habsent : ¬delimiter boundary <:+: text) :
    Clear boundary (text ++ endOfLine) := by
  intro rest position hoccurs
  have hfound := @search?_after_separator _ _ (delimiter boundary) text endOfLine
    rest (delimiter_ne_nil boundary) (by decide) hboundary.disjoint habsent
  by_contra hearlier
  refine (search?_eq_some_iff.mp hfound).2.2 position ?_ hoccurs
  rw [List.length_append] at hearlier
  omega

/-- The rest of a delimiter whose beginning is gone does not make up another
one with the text behind its line. -/
theorem clear_missed {text : Str} (hboundary : PlainBoundary boundary)
    (habsent : ¬delimiter boundary <:+: text) :
    Clear boundary
      ((delimiter boundary).tail ++ endOfLine ++ text ++ endOfLine) := by
  refine clear_text hboundary ?_
  rw [infix_append_separator_iff (delimiter_ne_nil boundary) (by decide)
    hboundary.disjoint]
  rintro (hfront | htext)
  · have hlength := hfront.length_le
    have hpos := List.length_pos_iff.mpr (delimiter_ne_nil boundary)
    rw [List.length_tail] at hlength
    omega
  · exact habsent htext

def closing (boundary : Str) : Str := delimiter boundary ++ "--".toList

theorem not_closing_missed (hboundary : PlainBoundary boundary) :
    ¬closing boundary <:+:
      (delimiter boundary).tail ++ following boundary [] := by
  have hpos := List.length_pos_iff.mpr (delimiter_ne_nil boundary)
  have hdisjoint : ∀ c ∈ endOfLine, c ∉ closing boundary := by
    intro c hc hmem
    rcases List.mem_append.mp hmem with hdelimiter | hhyphen
    · exact hboundary.disjoint c hc hdelimiter
    · have hfixed : ∀ c ∈ endOfLine, c ∉ "--".toList := by decide
      exact hfixed c hc hhyphen
  have hne : closing boundary ≠ [] := by simp [closing]
  rw [following, ← List.append_assoc,
    ← List.append_nil ((delimiter boundary).tail ++ "--".toList ++ endOfLine),
    infix_append_separator_iff hne (by decide) hdisjoint]
  rintro (hfront | hback)
  · have hlength := hfront.length_le
    simp only [closing, List.length_append, List.length_tail] at hlength
    omega
  · exact hne (List.infix_nil.mp hback)

theorem ClearFrom.unnamed {more : List BodyPart} {left : Nat}
    (h : ClearFrom boundary more left)
    (hinside : left < (delimiter boundary ++ following boundary more).length)
    (hshort : (following boundary more).length < left + opening)
    {part : BodyPart} (hpart : part ∈ more.head?) : ¬part.Named := by
  intro hnamed
  rcases h more (List.suffix_refl more) part hpart hnamed with hbefore | hbehind
  · omega
  · omega

/-- What of a body is still ahead, by the parts that have been seen: a part and
what follows it, or text in which the closing delimiter has been missed. -/
inductive Ahead (boundary : Str) (parts : List BodyPart) :
    List BodyPart → Str → Prop
  | inside {seen more : List BodyPart} {tail : Str} :
      parts = seen ++ more → Clear boundary tail →
      Ahead boundary parts seen
        (tail ++ (delimiter boundary ++ following boundary more))
  | lost {rest : Str} : ¬closing boundary <:+: rest →
      Ahead boundary parts parts rest

/-- A delimiter that a buffer ends in, or right behind, is passed over together
with the part behind it. -/
theorem ahead_missed {parts seen more : List BodyPart} {rest : Str}
    (hboundary : PlainBoundary boundary)
    (hplain : ∀ part ∈ parts, part.Plain boundary)
    (hparts : parts = seen ++ more)
    (hrest : rest <:+ (delimiter boundary).tail ++ following boundary more)
    (hlong : (following boundary more).length ≤
      rest.length + endOfLine.length) :
    ∃ passed, (∀ part ∈ passed, part ∈ more.head?) ∧
      Ahead boundary parts (seen ++ passed) rest := by
  cases more with
  | nil =>
      refine ⟨[], by simp, ?_⟩
      rw [List.append_nil] at hparts ⊢
      rw [← hparts]
      refine .lost fun hoccurs => not_closing_missed hboundary ?_
      exact hoccurs.trans hrest.isInfix
  | cons part more =>
      refine ⟨[part], by simp, ?_⟩
      have hpart : part.Plain boundary := hplain part (by simp [hparts])
      have htext : part.text ++ endOfLine ++ delimiter boundary ++
          following boundary more <:+ rest := by
        refine List.suffix_of_suffix_length_le ?_ hrest ?_
        · exact ⟨(delimiter boundary).tail ++ endOfLine, by simp [following]⟩
        · rw [following, List.length_append] at hlong
          omega
      obtain ⟨front, rfl⟩ := htext
      have hclear := clear_missed hboundary hpart.noDelimiter
      obtain ⟨gone, hgone⟩ := hrest
      have hsplit : gone ++ (front ++ part.text ++ endOfLine) =
          (delimiter boundary).tail ++ endOfLine ++ part.text ++ endOfLine := by
        have hwhole : gone ++ (front ++ part.text ++ endOfLine) ++
            (delimiter boundary ++ following boundary more) =
          (delimiter boundary).tail ++ endOfLine ++ part.text ++ endOfLine ++
            (delimiter boundary ++ following boundary more) := by
          simpa [following, List.append_assoc] using hgone
        exact List.append_cancel_right hwhole
      rw [← hsplit] at hclear
      have hsame : front ++ (part.text ++ endOfLine ++ delimiter boundary ++
          following boundary more) = front ++ part.text ++ endOfLine ++
            (delimiter boundary ++ following boundary more) := by
        simp
      rw [hsame]
      exact .inside (by simp [hparts]) hclear.of_append

theorem ahead_cut {parts seen more : List BodyPart} {tail buffer rest : Str}
    (hboundary : PlainBoundary boundary)
    (hplain : ∀ part ∈ parts, part.Plain boundary)
    (hparts : parts = seen ++ more) (hclear : Clear boundary tail)
    (hsplit : buffer ++ rest =
      tail ++ (delimiter boundary ++ following boundary more))
    (hlength : buffer.length < tail.length + (delimiter boundary).length)
    (hends : ClearFrom boundary more rest.length) :
    ∃ passed : List BodyPart, (∀ part ∈ passed, ¬part.Named) ∧
      Ahead boundary parts (seen ++ passed) rest := by
  rcases List.append_eq_append_iff.mp hsplit with
    ⟨left, htail, hrest⟩ | ⟨begun, hbuffer, hdelimiter⟩
  · refine ⟨[], by simp, ?_⟩
    rw [htail] at hclear
    rw [hrest, List.append_nil]
    exact .inside hparts hclear.of_append
  · -- the part behind the delimiter is not seen any more
    cases begun with
    | nil =>
        refine ⟨[], by simp, ?_⟩
        rw [List.nil_append] at hdelimiter
        rw [← hdelimiter, List.append_nil]
        rw [← List.append_nil tail] at hclear
        exact @Ahead.inside boundary _ _ _ [] hparts hclear.of_append
    | cons c begun =>
        have hbegun : (c :: begun).length < (delimiter boundary).length := by
          rw [hbuffer, List.length_append] at hlength
          omega
        have hlengths := congrArg List.length hdelimiter
        simp only [List.length_append] at hlengths
        have hrest : rest <:+
            (delimiter boundary).tail ++ following boundary more := by
          refine ⟨begun, ?_⟩
          have htail := congrArg List.tail hdelimiter
          rw [List.tail_append_of_ne_nil (delimiter_ne_nil boundary)] at htail
          exact htail.symm
        obtain ⟨passed, hpassed, hahead⟩ := ahead_missed hboundary hplain
          hparts hrest (by omega)
        refine ⟨passed, fun part hpart => ?_, hahead⟩
        refine hends.unnamed ?_ ?_ (hpassed part hpart)
        · rw [List.length_append]
          rw [List.length_cons] at hlengths
          omega
        · have hopening : 0 < opening := by decide
          omega

end Text

section Rounds

variable {W : Type} [Os W] {process process' : Process W}
  {client client' : Client} {boundary : Str}

/-! One round of the loop, in a part or between two. -/

omit [Os W] in
theorem skipSize_behind (boundary rest : Str) :
    skipSize (delimiter boundary ++ rest) boundary =
      (delimiter boundary).length +
        (if rest[0]? = some '\r' then
          if rest[1]? = some '\n' then 2 else 1
        else if rest[0]? = some '\n' then 1 else 0) := by
  have hbehind : ∀ i, (delimiter boundary ++ rest)[
      (delimiter boundary).length + i]? = rest[i]? := by
    intro i
    rw [List.getElem?_append_right (by simp), Nat.add_sub_cancel_left]
  have hfirst := hbehind 0
  rw [Nat.add_zero] at hfirst
  unfold skipSize
  simp only [show "--".toList ++ boundary = delimiter boundary from rfl]
  rw [hfirst]
  by_cases hreturn : rest[0]? = some '\r'
  · rw [if_pos hreturn, if_pos hreturn, hbehind 1]
    split <;> rfl
  · rw [if_neg hreturn, if_neg hreturn, hfirst]
    split <;> rfl

theorem boundaryLoop_line_eq (client : Client) {rest : Str}
    (hboundary : process.part.boundaryStr = boundary)
    (hbuffer : process.part.buffer = delimiter boundary ++ rest)
    (fuel : Nat) :
    ∃ left : Process W, boundaryLoop (fuel + 1) process client =
        boundaryLoop fuel (left.setBuffer
          ((delimiter boundary ++ rest).drop
            (skipSize (delimiter boundary ++ rest) boundary)))
          (client.closedBy rest) ∧
      left.part.boundaryStr = boundary ∧
      left.part.processingFile = false ∧ left.effects = process.effects := by
  cases hprocessing : process.part.processingFile with
  | false => exact ⟨process, boundaryLoop_front client hboundary hprocessing
      hbuffer fuel, hboundary, hprocessing, rfl⟩
  | true =>
      have hfound : checkIfHaveNewBoundary (delimiter boundary ++ rest)
          boundary 0 = (0, closes rest) :=
        @checkIfHaveNewBoundary_found boundary [] rest
          (search?_eq_some_iff.mpr ⟨by simp, by simp [OccursAt],
            fun _ h => absurd h (by simp)⟩) (by simp)
      have hbound := skipSize_le boundary rest
      have hclosed : closeProcessed process (client.closedBy rest) = .ok
          (process.leavePart process.part.buffer, client.closedBy rest) := by
        unfold closeProcessed
        rw [if_pos hprocessing]
        rfl
      refine ⟨process.leavePart process.part.buffer, ?_, hboundary, rfl, rfl⟩
      rw [boundaryLoop, hboundary, hbuffer, hfound]
      change (closeProcessed process (client.closedBy rest) >>= _) = _
      rw [hclosed]
      change (substrFrom (delimiter boundary ++ rest)
        (skipSize (delimiter boundary ++ rest) process.part.boundaryStr) >>=
          _) = _
      rw [hboundary, substrFrom_ok hbound]
      rfl

theorem boundaryLoop_found (client : Client) {front rest : Str}
    (hboundary : process.part.boundaryStr = boundary)
    (hbuffer : process.part.buffer = front ++ delimiter boundary ++ rest)
    (hclear : Clear boundary front) (hne : front ≠ [])
    (hlength : process.part.buffer.length < 2 ^ 31) (fuel : Nat) :
    boundaryLoop (fuel + 1) process client = (do
      let (process, client) ← createFile process (client.closedBy rest)
        (stripFinalCrlf front) (if process.part.processingFile then 1 else 0)
      boundaryLoop fuel (process.leavePart (delimiter boundary ++ rest))
        client) := by
  have hpos := List.length_pos_iff.mpr hne
  rw [hbuffer, List.append_assoc, List.length_append] at hlength
  have hfound := checkIfHaveNewBoundary_found (hclear.search? rest)
    (by omega)
  have hsize : sizeT (front.length : Int) = front.length :=
    sizeT_natCast (by omega)
  have hinside : front.length ≤
      (front ++ delimiter boundary ++ rest).length := by
    rw [List.append_assoc, List.length_append]
    omega
  rw [boundaryLoop, hboundary, hbuffer, hfound]
  simp only
  rw [if_neg (by omega), if_neg (by omega), hsize, substrFrom_ok hinside,
    List.append_assoc, List.drop_left]
  simp only [takeChunk, hbuffer, substr_zero, List.append_assoc,
    List.take_left, bind, Except.bind, dropFinalCrlf_eq, Client.closedBy]
  cases createFile process (if closes rest then client.setAllRecv true
    else client) (stripFinalCrlf front)
      (if process.part.processingFile then 1 else 0) with
  | error fault => rfl
  | ok created => rfl

/-! The parts that have been seen. -/

/-- A file was opened under a name, in one of the directories. -/
def Opened (directories : List Str) (process : Process W) (fd : Int)
    (name : Str) : Prop :=
  ∃ directory ∈ directories,
    .openPart (partPath directory name) true ∈ process.actsOf fd

/-- Without an error, every file name seen has been opened. -/
def Told (directories : List Str) (process : Process W) (client : Client)
    (seen : List BodyPart) : Prop :=
  client.response.readyToSend = false → ∀ part ∈ seen, ∀ name,
    part.Carries name → Opened directories process client.clientId name

variable {directories : List Str} {parts : List BodyPart}

omit [Os W] in
theorem Opened.mono {fd : Int} {name : Str}
    (h : Opened directories process fd name)
    (heffects : process.effects <+: process'.effects) :
    Opened directories process' fd name := by
  obtain ⟨directory, hdirectory, hopened⟩ := h
  refine ⟨directory, hdirectory, ?_⟩
  have hsub := (heffects.sublist.filter (·.client = fd)).map Effect.act
  exact hsub.subset hopened

omit [Os W] in
theorem Told.mono {seen : List BodyPart}
    (h : Told directories process client seen)
    (hserved : Served process client process' client') :
    Told directories process' client' seen := by
  intro hready part hpart name hcarries
  have hbefore : client.response.readyToSend = false := by
    by_contra hanswered
    have hafter := hserved.ready (by simpa using hanswered)
    rw [hready] at hafter
    cases hafter
  obtain ⟨acts, heffects, -⟩ := hserved.effects
  rw [hserved.clientId]
  exact (h hbefore part hpart name hcarries).mono ⟨_, heffects.symm⟩

omit [Os W] in
theorem Told.passed {seen passed : List BodyPart}
    (h : Told directories process client seen)
    (hpassed : ∀ part ∈ passed, ¬part.Named) :
    Told directories process client (seen ++ passed) := by
  intro hready part hpart name hcarries
  rcases List.mem_append.mp hpart with hseen | hmore
  · exact h hready part hseen name hcarries
  · exact absurd ⟨name, hcarries⟩ (hpassed part hmore)

theorem getFileName_cases (world : W) (client : Client) :
    (getFileName world client).1.response.readyToSend = true ∨
      getFileName world client =
        (client, uploadDirectory client.serverClientObj) ∧
      (Os.stat world (uploadDirectory client.serverClientObj)).isSome := by
  unfold getFileName
  simp only
  split
  · exact .inl (setResponseError_readyToSend ..)
  rename_i statbuf hstat
  split
  · exact .inl (setResponseError_readyToSend ..)
  split
  · exact .inl (setResponseError_readyToSend ..)
  · exact .inr ⟨rfl, by rw [hstat]; rfl⟩

theorem openPart_effects {path : Str}
    (h : (openPart process client path).part.file.isOpen = true) :
    (openPart process client path).effects =
      process.effects ++ [⟨client.clientId, .openPart path true⟩] := by
  have hfile : (openPart process client path).part.file =
      (process.part.file.close.openFile process.world path).1 := rfl
  have hlogged : (openPart process client path).effects = process.effects ++
      [⟨client.clientId, .openPart path
        (!(process.part.file.close.openFile process.world path).1.failed)⟩] :=
    rfl
  rw [hlogged]
  rw [hfile] at h
  unfold OFStream.openFile at h ⊢
  simp only [OFStream.close_isOpen, Bool.false_eq_true, if_false] at h ⊢
  cases hopen : Os.openWrite process.world path with
  | none =>
      rw [hopen] at h
      cases h
  | some next => rfl

theorem createPart_told (hempty : ∀ world : W, Os.stat world [] = none)
    (hdirectory : uploadDirectory client.serverClientObj ∈ directories)
    (name content : Str) :
    (createPart process client (.named name) content).2.response.readyToSend =
        true ∨
      (createPart process client (.named name) content).2 = client ∧
        Opened directories (createPart process client (.named name) content).1
          client.clientId name := by
  unfold createPart
  rcases getFileName_cases process.world client with
    hrefused | ⟨hfound, hstat⟩
  · left
    generalize getFileName process.world client = found at hrefused
    obtain ⟨client₁, dirname⟩ := found
    simp only at hrefused ⊢
    split
    · exact hrefused
    split
    · exact setResponseError_readyToSend ..
    split <;> exact hrefused
  · rw [hfound]
    simp only
    have hne : uploadDirectory client.serverClientObj ≠ [] := by
      intro hnil
      rw [hnil, hempty] at hstat
      cases hstat
    rw [if_neg (by simp [hne])]
    split
    · exact .inl (setResponseError_readyToSend ..)
    · rename_i hopen
      right
      have heffects := openPart_effects ((Bool.not_eq_false _).mp hopen)
      have hopened : Opened directories (openPart process client
          (partPath (uploadDirectory client.serverClientObj) name))
            client.clientId name := by
        have hacts := @Process.actsOf_of_effects W process _
          [.openPart _ true] _ heffects client.clientId
        refine ⟨_, hdirectory, ?_⟩
        unfold partPath
        rw [hacts]
        simp
      split
      · exact ⟨rfl, hopened.mono (List.prefix_refl _)⟩
      · exact ⟨rfl, hopened.mono ⟨_, rfl⟩⟩

theorem createFile_told (hempty : ∀ world : W, Os.stat world [] = none)
    (hdirectory : uploadDirectory client.serverClientObj ∈ directories)
    {part : BodyPart} {seen : List BodyPart} {buffer more : Str}
    (hplain : part.Plain boundary) (hfirst : part.NamesFirst)
    (hbuffer : buffer <+: part.text ++ more)
    (hstart : part.Named → dispositionField.length ≤ buffer.length)
    (htold : Told directories process client seen)
    (h : createFile process client buffer 0 = .ok (process', client')) :
    Told directories process' client' (seen ++ [part]) := by
  have hserved := createFile_served h
  intro hready other hother name hcarries
  rcases List.mem_append.mp hother with hseen | hlast
  · exact htold.mono hserved hready other hseen name hcarries
  obtain rfl := List.mem_singleton.mp hlast
  obtain ⟨line, hhead, hnames⟩ := hfirst name hcarries
  obtain ⟨others, hheaders⟩ : ∃ others, other.headers = line :: others := by
    cases hlist : other.headers with
    | nil =>
        rw [hlist] at hhead
        cases hhead
    | cons head others =>
        rw [hlist] at hhead
        obtain rfl := Option.some.inj hhead
        exact ⟨others, rfl⟩
  have hline : '\n' ∉ line :=
    hplain.noBreak line (by rw [hheaders]; exact List.mem_cons_self)
  have hbegin : other.text ++ more = line ++ '\r' :: '\n' ::
      ((others.map (· ++ endOfLine)).flatten ++ endOfLine ++ other.content ++
        more) := by
    rw [BodyPart.text, hheaders]
    simp [endOfLine]
  rw [hbegin] at hbuffer
  rw [createFile, if_neg (by decide), if_neg (by decide)] at h
  obtain ⟨head, hread, h⟩ := bind_ok h
  have hcreated : createPart process client head (partContent buffer) =
      (process', client') := Except.ok.inj h
  have herror : ∀ status, createPart process client head
      (partContent buffer) = (process, setResponseError process.world client
        status) → Opened directories process' client'.clientId name := by
    intro status hanswer
    rw [hcreated] at hanswer
    rw [(Prod.mk.inj hanswer).2, setResponseError_readyToSend] at hready
    cases hready
  rcases partHead_cut hline hnames hbuffer (hstart ⟨name, hcarries⟩) with
    hnamed | hunnamed | hunterminated
  · rw [hnamed] at hread
    obtain rfl := Except.ok.inj hread
    have htells := @createPart_told W _ process client directories hempty
      hdirectory name (partContent buffer)
    rw [hcreated] at htells
    rcases htells with hanswered | ⟨-, hopened⟩
    · rw [hready] at hanswered
      cases hanswered
    · rw [hserved.clientId]
      exact hopened
  · rw [hunnamed] at hread
    obtain rfl := Except.ok.inj hread
    exact herror 415 rfl
  · rw [hunterminated] at hread
    obtain rfl := Except.ok.inj hread
    exact herror 400 rfl

/-- Everything counts as received only with an answer. -/
def Client.EndsAnswered (client : Client) : Prop :=
  client.allRecv = true → client.response.readyToSend = true

theorem createFile_answered (hempty : ∀ world : W, Os.stat world [] = none)
    {buffer : Str} {flag : Nat} (hanswered : client.EndsAnswered)
    (h : createFile process client buffer flag = .ok (process', client')) :
    client'.EndsAnswered := by
  have herror : ∀ status,
      (setResponseError process.world client status).EndsAnswered :=
    fun status _ => setResponseError_readyToSend ..
  unfold createFile at h
  split at h
  · obtain ⟨-, rfl⟩ := Prod.mk.inj (Except.ok.inj h)
    exact hanswered
  split at h
  · split at h
    · obtain ⟨-, rfl⟩ := Prod.mk.inj (Except.ok.inj h)
      exact hanswered
    · obtain ⟨-, rfl⟩ := Prod.mk.inj (Except.ok.inj h)
      exact hanswered
  · obtain ⟨head, -, h⟩ := bind_ok h
    have hclient : _ = client' := congrArg Prod.snd (Except.ok.inj h)
    rw [← hclient]
    cases head with
    | other => exact hanswered
    | unnamed => exact herror 415
    | unterminated => exact herror 400
    | named name =>
        have htells := @createPart_told W _ process client
          [uploadDirectory client.serverClientObj] hempty
          (List.mem_singleton_self _) name (partContent buffer)
        rcases htells with hready | ⟨hsame, -⟩
        · exact fun _ => hready
        · rw [hsame]
          exact hanswered

theorem takeBuffer_ok
    (h : takeBuffer process client = .ok (process', client')) :
    (∃ created, createFile process client process.part.buffer
        (if process.part.processingFile then 1 else 0) =
          .ok (created, client') ∧
      process'.effects = created.effects) ∧
    process'.part.boundaryStr = process.part.boundaryStr ∧
    process'.part.buffer = [] := by
  unfold takeBuffer at h
  split at h
  · rename_i hprocessing
    obtain ⟨⟨created, client₁⟩, hcreate, h⟩ := bind_ok h
    obtain ⟨rfl, rfl⟩ := Prod.mk.inj (Except.ok.inj h)
    rw [hprocessing]
    have hboundary := createFile_boundaryStr hcreate
    exact ⟨⟨created, hcreate, rfl⟩, hboundary, rfl⟩
  · rename_i hprocessing
    obtain ⟨⟨created, client₁⟩, hcreate, h⟩ := bind_ok h
    obtain ⟨rfl, rfl⟩ := Prod.mk.inj (Except.ok.inj h)
    rw [(Bool.not_eq_false _).mp hprocessing]
    have hboundary := createFile_boundaryStr hcreate
    exact ⟨⟨created, hcreate, rfl⟩, hboundary, rfl⟩

/-- The parts of a body, and where its files may go. -/
structure Body (W : Type) [Os W] (boundary : Str) (parts : List BodyPart)
    (directories : List Str) : Prop where
  delimits : PlainBoundary boundary
  plain : ∀ part ∈ parts, part.Plain boundary
  first : ∀ part ∈ parts, part.NamesFirst
  empty : ∀ world : W, Os.stat world [] = none

/-- How a call of `boundary` leaves a body of which so much is still ahead:
closed, with all parts seen, or waiting for more. -/
inductive Left (boundary : Str) (parts : List BodyPart)
    (directories : List Str) (rest : Str) (process : Process W)
    (client : Client) : Prop
  | closed : client.allRecv = true → Told directories process client parts →
      Left boundary parts directories rest process client
  | waits {seen : List BodyPart} : seen ≠ [] →
      Ahead boundary parts seen rest →
      process.part.boundaryStr = boundary → process.part.buffer = [] →
      client.EndsAnswered → Told directories process client seen →
      Left boundary parts directories rest process client

/-- The decoder stands in front of text that belongs to a part seen. -/
structure Inside (boundary : Str) (parts seen more : List BodyPart)
    (directories : List Str) (rest : Str) (process : Process W)
    (client : Client) : Prop where
  split : parts = seen ++ more
  boundaryStr : process.part.boundaryStr = boundary
  answered : client.EndsAnswered
  told : Told directories process client seen
  directory : uploadDirectory client.serverClientObj ∈ directories

theorem takeBuffer_left (body : Body W boundary parts directories)
    {seen : List BodyPart} {rest : Str} (hbegun : seen ≠ [])
    (hahead : Ahead boundary parts seen rest)
    (hboundary : process.part.boundaryStr = boundary)
    (hanswered : client.EndsAnswered)
    (htold : ∀ created, createFile process client process.part.buffer
        (if process.part.processingFile then 1 else 0) =
          .ok (created, client') → Told directories created client' seen)
    (h : takeBuffer process client = .ok (process', client')) :
    Left boundary parts directories rest process' client' := by
  obtain ⟨⟨created, hcreate, heffects⟩, hsame, hbuffer⟩ := takeBuffer_ok h
  refine .waits hbegun hahead (hsame.trans hboundary) hbuffer
    (createFile_answered body.empty hanswered hcreate) ?_
  exact (htold created hcreate).mono (.of_effects client' heffects)

theorem left_of_closed {fuel : Nat} {rest : Str}
    (hall : client.allRecv = true)
    (htold : Told directories process client parts)
    (hloop : boundaryLoop fuel process client = .ok (process', client')) :
    Left boundary parts directories rest process' client' :=
  .closed ((boundaryLoop_served hloop).allRecv hall)
    (htold.mono (boundaryLoop_served hloop))

omit [Os W] in
theorem Client.closedBy_allRecv {rest : Str} (client : Client)
    (hcloses : closes rest = true) :
    (client.closedBy rest).allRecv = true := by
  rw [closedBy, if_pos hcloses]
  rfl

omit [Os W] in
theorem eq_nil_of_closes {more : List BodyPart} {behind rest : Str}
    (hsplit : behind ++ rest = following boundary more)
    (hcloses : closes behind = true) : more = [] := by
  cases more with
  | nil => rfl
  | cons part more =>
      have hfront : behind.take 2 = "--".toList := of_decide_eq_true hcloses
      have hlength : 2 ≤ behind.length := by
        have htaken := congrArg List.length hfront
        rw [List.length_take] at htaken
        have hhyphens : ("--".toList).length = 2 := rfl
        omega
      have htake := congrArg (List.take 2) hsplit
      rw [List.take_append_of_le_length hlength, hfront, following] at htake
      cases htake

omit [Os W] in
theorem Inside.behind {seen more : List BodyPart} {rest : Str}
    (h : Inside boundary parts seen more directories rest process client)
    {left : Process W} (hboundary : left.part.boundaryStr = boundary)
    (heffects : left.effects = process.effects) (buffer : Str) :
    Inside boundary parts seen more directories rest (left.setBuffer buffer)
      client :=
  ⟨h.split, hboundary, h.answered,
    h.told.mono (.of_effects client heffects), h.directory⟩

theorem Inside.takeBuffer_cut (body : Body W boundary parts directories)
    {seen more : List BodyPart} {rest : Str}
    (h : Inside boundary parts seen more directories rest process client)
    (hbegun : seen ≠ [])
    (hahead : ∃ passed : List BodyPart, (∀ part ∈ passed, ¬part.Named) ∧
      Ahead boundary parts (seen ++ passed) rest)
    (htake : takeBuffer process client = .ok (process', client')) :
    Left boundary parts directories rest process' client' := by
  obtain ⟨passed, hpassed, hahead⟩ := hahead
  refine takeBuffer_left body (List.append_ne_nil_of_left_ne_nil hbegun _)
    hahead h.boundaryStr h.answered ?_ htake
  intro created hcreate
  exact (h.told.mono (createFile_served hcreate)).passed hpassed

theorem stripFinalCrlf_endOfLine (data : Str) :
    stripFinalCrlf (data ++ endOfLine) = data := by
  unfold stripFinalCrlf
  rw [dropFinalCrlf_endOfLine]

theorem Inside.boundaryLoop_part (body : Body W boundary parts directories)
    {seen more : List BodyPart} {part : BodyPart} {rest : Str}
    (h : Inside boundary parts seen (part :: more) directories rest process
      client)
    (hends : ClearFrom boundary more rest.length)
    (hprocessing : process.part.processingFile = false)
    (hsplit : process.part.buffer ++ rest = part.text ++ endOfLine ++
      (delimiter boundary ++ following boundary more))
    (hstart : part.Named →
      dispositionField.length ≤ process.part.buffer.length)
    (hlength : process.part.buffer.length < 2 ^ 31)
    (hnext : ∀ {process : Process W} {client : Client} {behind : Str}
      {fuel : Nat}, Inside boundary parts (seen ++ [part]) more directories
          rest process client →
        process.part.buffer = delimiter boundary ++ behind →
        behind ++ rest = following boundary more →
        process.part.buffer.length < 2 ^ 31 →
        boundaryLoop fuel process client = .ok (process', client') →
        Left boundary parts directories rest process' client')
    {fuel : Nat}
    (hloop : boundaryLoop fuel process client = .ok (process', client')) :
    Left boundary parts directories rest process' client' := by
  have hmem : part ∈ parts := by simp [h.split]
  have hplain := body.plain part hmem
  have hclear := clear_text body.delimits hplain.noDelimiter
  have hparts : parts = (seen ++ [part]) ++ more := by simp [h.split]
  have htold : ∀ {buffer more' : Str} {client : Client} {created},
      uploadDirectory client.serverClientObj ∈ directories →
      Told directories process client seen →
      buffer <+: part.text ++ more' →
      (part.Named → dispositionField.length ≤ buffer.length) →
      createFile process client buffer 0 = .ok created →
      Told directories created.1 created.2 (seen ++ [part]) :=
    fun hdirectory hseen hbuffer hlong hcreate =>
      createFile_told body.empty hdirectory hplain (body.first part hmem)
        hbuffer hlong hseen hcreate
  cases fuel with
  | zero => cases hloop
  | succ fuel =>
      by_cases hcut : process.part.buffer.length <
          (part.text ++ endOfLine).length + (delimiter boundary).length
      · -- the delimiter behind the part is not in the buffer
        have hbuffer : process.part.buffer <+:
            part.text ++ endOfLine ++ delimiter boundary := by
          refine List.prefix_of_prefix_length_le ⟨rest, hsplit⟩ ?_ ?_
          · rw [← List.append_assoc]
            exact List.prefix_append _ _
          · rw [List.length_append]
            omega
        rw [boundaryLoop_absent client (by
          rw [h.boundaryStr]
          exact hclear.not_infix hbuffer hcut)] at hloop
        obtain ⟨passed, hpassed, hahead⟩ := ahead_cut body.delimits body.plain
          hparts hclear hsplit hcut hends
        refine takeBuffer_left body (by simp) hahead h.boundaryStr h.answered
          ?_ hloop
        intro created hcreate
        rw [hprocessing] at hcreate
        rw [List.append_assoc] at hbuffer
        exact (htold h.directory h.told hbuffer hstart hcreate).passed hpassed
      · obtain ⟨behind, hbehind⟩ : part.text ++ endOfLine ++
            delimiter boundary <+: process.part.buffer := by
          refine List.prefix_of_prefix_length_le
            ⟨following boundary more, ?_⟩ (List.prefix_append _ rest) ?_
          · rw [hsplit, List.append_assoc _ (delimiter boundary)]
          · rw [List.length_append]
            omega
        have hrest : behind ++ rest = following boundary more := by
          rw [← hbehind] at hsplit
          simpa [List.append_assoc] using hsplit
        rw [boundaryLoop_found client h.boundaryStr hbehind.symm hclear
          (by simp [endOfLine]) hlength, stripFinalCrlf_endOfLine,
          hprocessing] at hloop
        obtain ⟨⟨created, client₁⟩, hcreate, hloop⟩ := bind_ok hloop
        have hmarks :=
          ifClosing_served process client (closes behind)
        have hserved := createFile_served hcreate
        have hafter := htold
          ((client.closedBy_block behind).symm ▸ h.directory)
          (h.told.mono hmarks) (List.prefix_append part.text [])
          (body.first part hmem).length_le hcreate
        have hleft : Served created client₁
            (created.leavePart (delimiter boundary ++ behind)) client₁ :=
          .of_effects client₁ rfl
        by_cases hcloses : closes behind = true
        · obtain rfl := eq_nil_of_closes hrest hcloses
          rw [List.append_nil] at hparts
          rw [← hparts] at hafter
          exact left_of_closed
            (hserved.allRecv (client.closedBy_allRecv hcloses))
            (hafter.mono hleft) hloop
        · have hopen : client.closedBy behind = client := if_neg hcloses
          rw [hopen] at hcreate
          have hblock : client₁.serverClientObj = client.serverClientObj :=
            (createFile_served hcreate).block
          refine hnext ⟨hparts, ?_, ?_, hafter.mono hleft, ?_⟩
            rfl hrest ?_ hloop
          · exact (createFile_boundaryStr hcreate).trans h.boundaryStr
          · exact createFile_answered body.empty h.answered hcreate
          · rw [hblock]
            exact h.directory
          · change (delimiter boundary ++ behind).length < 2 ^ 31
            rw [← hbehind, List.append_assoc, List.length_append] at hlength
            omega

omit [Os W] in
theorem drop_skipSize_short {boundary behind : Str}
    (hshort : behind.length < endOfLine.length) :
    ((delimiter boundary ++ behind).drop
      (skipSize (delimiter boundary ++ behind) boundary)).length < 2 := by
  have hlines : endOfLine.length = 2 := rfl
  rw [skipSize_behind, List.length_drop, List.length_append]
  omega

omit [Os W] in
theorem drop_skipSize_endOfLine (boundary rest : Str) :
    (delimiter boundary ++ (endOfLine ++ rest)).drop
      (skipSize (delimiter boundary ++ (endOfLine ++ rest)) boundary) =
        rest := by
  rw [skipSize_endOfLine, ← List.append_assoc, List.drop_left]

omit [Os W] in
theorem not_closes_of_short {behind : Str}
    (hshort : behind.length < endOfLine.length) : closes behind = false := by
  refine decide_eq_false fun hfront => ?_
  have hlength := congrArg List.length hfront
  have hlines : endOfLine.length = 2 := rfl
  have hhyphens : ("--".toList).length = 2 := rfl
  rw [List.length_take] at hlength
  omega

theorem Inside.boundaryLoop_short (body : Body W boundary parts directories)
    {seen more : List BodyPart} {behind rest : Str}
    (h : Inside boundary parts seen more directories rest process client)
    (hbegun : seen ≠ []) (hends : ClearFrom boundary more rest.length)
    (hbuffer : process.part.buffer = delimiter boundary ++ behind)
    (hsplit : behind ++ rest = following boundary more)
    (hshort : behind.length < endOfLine.length) {fuel : Nat}
    (hloop : boundaryLoop fuel process client = .ok (process', client')) :
    Left boundary parts directories rest process' client' := by
  have hlines : endOfLine.length = 2 := rfl
  have hopening : endOfLine.length < opening := by decide
  have hwide : 2 ≤ (delimiter boundary).length := by
    rw [delimiter, List.length_append]
    exact Nat.le_add_right _ _
  have hlengths := congrArg List.length hsplit
  rw [List.length_append] at hlengths
  have hopen : client.closedBy behind = client := by
    rw [Client.closedBy, not_closes_of_short hshort]
    rfl
  cases fuel with
  | zero => cases hloop
  | succ fuel =>
      obtain ⟨left, hround, hboundary, hprocessing, heffects⟩ :=
        boundaryLoop_line_eq client h.boundaryStr hbuffer fuel
      rw [hround, hopen] at hloop
      have hdropped := @drop_skipSize_short boundary behind hshort
      have hbehind := h.behind hboundary heffects
      generalize (delimiter boundary ++ behind).drop
        (skipSize (delimiter boundary ++ behind) boundary) = dropped at *
      cases fuel with
      | zero => cases hloop
      | succ fuel =>
          rw [boundaryLoop_absent client (fun hoccurs => by
            have hfits := hoccurs.length_le
            rw [show (left.setBuffer dropped).part.boundaryStr = boundary from
              hboundary] at hfits
            change _ ≤ dropped.length at hfits
            omega)] at hloop
          refine (hbehind dropped).takeBuffer_cut body hbegun ?_ hloop
          obtain ⟨passed, hpassed, hahead⟩ := @ahead_missed boundary parts seen
            more rest body.delimits body.plain h.split
            ⟨(delimiter boundary).tail ++ behind, by
              rw [List.append_assoc, hsplit]⟩ (by omega)
          refine ⟨passed, fun part hpart => ?_, hahead⟩
          refine hends.unnamed ?_ (by omega) (hpassed part hpart)
          rw [List.length_append]
          omega

theorem Inside.boundaryLoop_delimiter
    (body : Body W boundary parts directories)
    {seen more : List BodyPart} {behind rest : Str}
    (h : Inside boundary parts seen more directories rest process client)
    (hbegun : seen ≠ []) (hends : ClearFrom boundary more rest.length)
    (hbuffer : process.part.buffer = delimiter boundary ++ behind)
    (hsplit : behind ++ rest = following boundary more)
    (hlength : process.part.buffer.length < 2 ^ 31) {fuel : Nat}
    (hloop : boundaryLoop fuel process client = .ok (process', client')) :
    Left boundary parts directories rest process' client' := by
  have hlines : endOfLine.length = 2 := rfl
  induction more generalizing seen process client behind fuel with
  | nil =>
      by_cases hshort : behind.length < endOfLine.length
      · exact h.boundaryLoop_short body hbegun hends hbuffer hsplit hshort
          hloop
      have hcloses : closes behind = true := by
        have htake := congrArg (List.take 2) hsplit
        rw [List.take_append_of_le_length (by omega)] at htake
        exact decide_eq_true htake
      cases fuel with
      | zero => cases hloop
      | succ fuel =>
          obtain ⟨left, hround, hboundary, hprocessing, heffects⟩ :=
            boundaryLoop_line_eq client h.boundaryStr hbuffer fuel
          rw [hround] at hloop
          have hsplits := h.split
          rw [List.append_nil] at hsplits
          have htold : Told directories process client parts :=
            hsplits ▸ h.told
          have hmarks := ifClosing_served process client (closes behind)
          refine left_of_closed (client.closedBy_allRecv hcloses) ?_ hloop
          exact (htold.mono hmarks).mono (.of_effects _ heffects)
  | cons part more ih =>
      by_cases hshort : behind.length < endOfLine.length
      · exact h.boundaryLoop_short body hbegun hends hbuffer hsplit hshort
          hloop
      have hopen : client.closedBy behind = client := by
        refine if_neg fun hcloses => ?_
        cases eq_nil_of_closes hsplit hcloses
      obtain ⟨front, rfl⟩ : endOfLine <+: behind := by
        refine List.prefix_of_prefix_length_le (List.prefix_append _ _)
          ⟨rest, hsplit⟩ (by omega)
      cases fuel with
      | zero => cases hloop
      | succ fuel =>
          obtain ⟨left, hround, hboundary, hprocessing, heffects⟩ :=
            boundaryLoop_line_eq client h.boundaryStr hbuffer fuel
          rw [hround, hopen, drop_skipSize_endOfLine] at hloop
          have hfront : front ++ rest = part.text ++ endOfLine ++
              (delimiter boundary ++ following boundary more) := by
            rw [following, List.append_assoc] at hsplit
            simpa [List.append_assoc] using List.append_cancel_left hsplit
          have hsmall : (left.setBuffer front).part.buffer.length <
              2 ^ 31 := by
            rw [hbuffer, List.length_append, List.length_append] at hlength
            change front.length < 2 ^ 31
            omega
          refine (h.behind hboundary heffects front).boundaryLoop_part body
            hends.tail hprocessing hfront ?_ hsmall
            (fun hinside hnext hrest hsize =>
              ih hinside (by simp) hends.tail hnext hrest hsize)
            hloop
          intro hnamed
          have hlengths := congrArg List.length hsplit
          rw [List.length_append, List.length_append] at hlengths
          rcases hends (part :: more) (List.suffix_refl _) part rfl hnamed
            with hbefore | hbehind
          · rw [List.length_append] at hbefore
            have hwide := List.length_pos_iff.mpr (delimiter_ne_nil boundary)
            omega
          · have hopening : opening =
                endOfLine.length + dispositionField.length := rfl
            change dispositionField.length ≤ front.length
            omega

theorem Inside.boundaryLoop_inside (body : Body W boundary parts directories)
    {seen more : List BodyPart} {tail rest : Str}
    (h : Inside boundary parts seen more directories rest process client)
    (hbegun : seen ≠ []) (hends : ClearFrom boundary more rest.length)
    (hclear : Clear boundary tail)
    (hsplit : process.part.buffer ++ rest =
      tail ++ (delimiter boundary ++ following boundary more))
    (hlength : process.part.buffer.length < 2 ^ 31) {fuel : Nat}
    (hloop : boundaryLoop fuel process client = .ok (process', client')) :
    Left boundary parts directories rest process' client' := by
  cases fuel with
  | zero => cases hloop
  | succ fuel =>
      by_cases hcut : process.part.buffer.length <
          tail.length + (delimiter boundary).length
      · have hbuffer : process.part.buffer <+: tail ++ delimiter boundary := by
          refine List.prefix_of_prefix_length_le ⟨rest, hsplit⟩ ?_ ?_
          · rw [← List.append_assoc]
            exact List.prefix_append _ _
          · rw [List.length_append]
            omega
        rw [boundaryLoop_absent client (by
          rw [h.boundaryStr]
          exact hclear.not_infix hbuffer hcut)] at hloop
        exact h.takeBuffer_cut body hbegun (ahead_cut body.delimits body.plain
          h.split hclear hsplit hcut hends) hloop
      obtain ⟨behind, hbehind⟩ : tail ++ delimiter boundary <+:
          process.part.buffer := by
        refine List.prefix_of_prefix_length_le
          ⟨following boundary more, ?_⟩ (List.prefix_append _ rest) ?_
        · rw [hsplit, List.append_assoc]
        · rw [List.length_append]
          omega
      have hrest : behind ++ rest = following boundary more := by
        rw [← hbehind] at hsplit
        simpa [List.append_assoc] using hsplit
      by_cases hne : tail = []
      · rw [hne, List.nil_append] at hbehind
        exact h.boundaryLoop_delimiter body hbegun hends hbehind.symm hrest
          hlength hloop
      rw [boundaryLoop_found client h.boundaryStr hbehind.symm hclear hne
        hlength] at hloop
      obtain ⟨⟨created, client₁⟩, hcreate, hloop⟩ := bind_ok hloop
      have hmarks := ifClosing_served process client (closes behind)
      have hserved := (createFile_served hcreate).after hmarks
      have hleft : Served created client₁
          (created.leavePart (delimiter boundary ++ behind)) client₁ :=
        .of_effects client₁ rfl
      by_cases hcloses : closes behind = true
      · obtain rfl := eq_nil_of_closes hrest hcloses
        have hsplits := h.split
        rw [List.append_nil] at hsplits
        have htold : Told directories process client parts :=
          hsplits ▸ h.told
        exact left_of_closed ((createFile_served hcreate).allRecv
          (client.closedBy_allRecv hcloses))
          ((htold.mono hserved).mono hleft) hloop
      · have hopen : client.closedBy behind = client := if_neg hcloses
        rw [hopen] at hcreate
        have hblock : client₁.serverClientObj = client.serverClientObj :=
          (createFile_served hcreate).block
        have hinside : Inside boundary parts seen more directories rest
            (created.leavePart (delimiter boundary ++ behind)) client₁ :=
          ⟨h.split,
            (createFile_boundaryStr hcreate).trans h.boundaryStr,
            createFile_answered body.empty h.answered hcreate,
            (h.told.mono hserved).mono hleft, hblock ▸ h.directory⟩
        refine hinside.boundaryLoop_delimiter body hbegun hends rfl hrest ?_ hloop
        change (delimiter boundary ++ behind).length < 2 ^ 31
        rw [← hbehind, List.append_assoc, List.length_append] at hlength
        omega

omit [Os W] in
theorem checkIfHaveNewBoundary_closing {buffer boundary : Str}
    (h : (checkIfHaveNewBoundary buffer boundary 0).2 = true) :
    closing boundary <:+: buffer := by
  unfold checkIfHaveNewBoundary at h
  simp only [show "--".toList ++ boundary = delimiter boundary from rfl] at h
  split at h
  · cases h
  rw [searchFrom?, if_pos (Nat.zero_le _), List.drop_zero] at h
  cases hfound : search? (delimiter boundary) buffer with
  | none =>
      rw [hfound] at h
      cases h
  | some pos =>
      rw [hfound] at h
      obtain ⟨-, hfirst, hsecond⟩ := of_decide_eq_true h
      simp only [Nat.add_zero] at hfirst hsecond
      have hsplit := search?_split hfound
      rw [← List.head?_drop] at hfirst
      obtain ⟨behind, hbehind⟩ := List.head?_eq_some_iff.mp hfirst
      rw [← List.head?_drop, ← List.drop_drop, hbehind] at hsecond
      obtain ⟨more, hmore⟩ := List.head?_eq_some_iff.mp hsecond
      rw [List.drop_succ_cons, List.drop_zero] at hmore
      rw [hbehind, hmore] at hsplit
      refine ⟨buffer.take pos, more, ?_⟩
      refine Eq.trans ?_ hsplit.symm
      simp [closing]

/-- Without the closing delimiter no body is closed. -/
theorem boundaryLoop_lost (hempty : ∀ world : W, Os.stat world [] = none)
    {fuel : Nat} (hboundary : process.part.boundaryStr = boundary)
    (hanswered : client.EndsAnswered)
    (hlost : ¬closing boundary <:+: process.part.buffer)
    (hloop : boundaryLoop fuel process client = .ok (process', client')) :
    process'.part.boundaryStr = boundary ∧ process'.part.buffer = [] ∧
      client'.EndsAnswered := by
  induction fuel generalizing process client with
  | zero => cases hloop
  | succ fuel ih =>
      have hopen : (checkIfHaveNewBoundary process.part.buffer
          process.part.boundaryStr 0).2 = false := by
        rw [hboundary]
        exact Bool.eq_false_iff.mpr fun hclosing =>
          hlost (checkIfHaveNewBoundary_closing hclosing)
      rw [boundaryLoop] at hloop
      simp only [hopen, Bool.false_eq_true, if_false] at hloop
      split at hloop
      · obtain ⟨⟨created, hcreate, -⟩, hsame, hbuffer⟩ := takeBuffer_ok hloop
        exact ⟨hsame.trans hboundary, hbuffer,
          createFile_answered hempty hanswered hcreate⟩
      split at hloop
      · obtain ⟨⟨closed, client₁⟩, hclose, hloop⟩ := bind_ok hloop
        obtain ⟨rest, hrest, hloop⟩ := bind_ok hloop
        obtain ⟨-, rfl⟩ := substrFrom_eq_ok hrest
        refine ih ?_ ?_ (fun hoccurs => hlost (hoccurs.trans
          (List.drop_suffix _ _).isInfix)) hloop
        · exact (closeProcessed_spends hclose).2.1.trans hboundary
        · unfold closeProcessed at hclose
          split at hclose
          · obtain ⟨⟨created, client₂⟩, hcreate, hclose⟩ := bind_ok hclose
            obtain ⟨-, rfl⟩ := Prod.mk.inj (Except.ok.inj hclose)
            exact createFile_answered hempty hanswered hcreate
          · obtain ⟨-, rfl⟩ := Prod.mk.inj (Except.ok.inj hclose)
            exact hanswered
      · obtain ⟨⟨taken, client₁⟩, htake, hloop⟩ := bind_ok hloop
        obtain ⟨rest, hrest, hloop⟩ := bind_ok hloop
        obtain ⟨-, rfl⟩ := substrFrom_eq_ok hrest
        refine ih ?_ ?_ (fun hoccurs => hlost (hoccurs.trans
          (List.drop_suffix _ _).isInfix)) hloop
        · exact (takeChunk_spends htake).2.1.trans hboundary
        · unfold takeChunk at htake
          obtain ⟨data, -, htake⟩ := bind_ok htake
          obtain ⟨dataChunk, -, htake⟩ := bind_ok htake
          obtain ⟨⟨created, client₂⟩, hcreate, htake⟩ := bind_ok htake
          obtain ⟨⟨closed, client₃⟩, hclose, htake⟩ := bind_ok htake
          obtain ⟨-, rfl⟩ := Prod.mk.inj (Except.ok.inj htake)
          exact createFile_answered hempty
            (createFile_answered hempty hanswered hcreate) hclose

end Rounds

end Webserv
