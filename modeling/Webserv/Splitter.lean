import Webserv.Coding.Runs
import Webserv.RequestPath

namespace Webserv

open Cxx Coding

/-! `ft_split` as it scans an array of characters with an `int` index, counts
the words, and fills the slots that it has allocated. -/

/-- `s[i]`. -/
def byteAt (s : Str) (i : Nat) : Except Fault Char :=
  match s[i]? with
  | some byte => .ok byte
  | none => .error .badSlot

/-- `i + n`; a sum that is no `int` is not defined, and counts as a bad slot. -/
def addInt (i n : Nat) : Except Fault Nat :=
  if i + n < 2 ^ 31 then .ok (i + n) else .error .badSlot

/-- The scan over a word, in `word_len` and inside of `word_size`. -/
def skipWord (s : Str) (c : Char) : Nat → Nat → Except Fault Nat
  | 0, _ => .error .diverges
  | fuel + 1, i => do
      let byte ← byteAt s i
      if byte ≠ c ∧ byte ≠ '\x00' then
        let i ← addInt i 1
        skipWord s c fuel i
      else return i

def wordLen (str : Str) (c : Char) : Except Fault Nat :=
  skipWord str c str.length 0

def wordSizeLoop (s : Str) (c : Char) : Nat → Nat → Nat → Except Fault Nat
  | 0, _, _ => .error .diverges
  | fuel + 1, i, size => do
      let byte ← byteAt s i
      if byte = '\x00' then return size
      let size ← addInt size (if byte ≠ c then 1 else 0)
      let i ← skipWord s c s.length i
      let byte ← byteAt s i
      let i ← addInt i (if byte ≠ '\x00' then 1 else 0)
      wordSizeLoop s c fuel i size

def wordSize (s : Str) (c : Char) : Except Fault Nat :=
  wordSizeLoop s c s.length 0 0

/-- A slot of the array of words. -/
inductive SplitSlot
  | unset
  | null
  | word (text : Str)
  deriving DecidableEq, Repr

/-- `p[index] = slot`. -/
def storeSlot (p : List SplitSlot) (index : Nat) (slot : SplitSlot) :
    Except Fault (List SplitSlot) :=
  if index < p.length then .ok (p.set index slot) else .error .badSlot

/-- The loop of `ft_split`; `none` stands for `NULL`. -/
def ftSplitSlotsLoop (mallocs : Nat → Bool) (s : Str) (c : Char) :
    Nat → Nat → Nat → List SplitSlot →
      Except Fault (Option (List SplitSlot))
  | 0, _, _, _ => .error .diverges
  | fuel + 1, i, index, p => do
      let byte ← byteAt s i
      if byte = '\x00' then
        -- `free_tab(p, index, 1)`
        let p ← storeSlot p index .null
        return some p
      else if byte ≠ c then
        let len ← wordLen (s.drop i) c
        if mallocs (index + 1) = false then
          let _ ← storeSlot p index .null
          return none
        else
          let p ← storeSlot p index (.word ((s.drop i).take len))
          let i ← addInt i (len - 1)
          let i ← addInt i 1
          let index ← addInt index 1
          ftSplitSlotsLoop mallocs s c fuel i index p
      else
        let i ← addInt i 1
        ftSplitSlotsLoop mallocs s c fuel i index p

/-- `mallocs` tells which of the calls of `malloc` succeed: the first one is for
the array, the others are for the words. -/
def ftSplitSlots (mallocs : Nat → Bool) (s : Str) (c : Char) :
    Except Fault (Option (List SplitSlot)) := do
  let size ← wordSize s c
  let j ← addInt size 1
  if mallocs 0 = false then return none
  ftSplitSlotsLoop mallocs s c s.length 0 0 (List.replicate j .unset)

theorem addInt_ok {i n : Nat} (h : i + n < 2 ^ 31) :
    addInt i n = .ok (i + n) := by
  rw [addInt, if_pos h]

theorem byteAt_behind {before rest : Str} {c : Char} :
    byteAt (before ++ c :: rest) before.length = .ok c := by
  rw [byteAt, List.getElem?_append_right (Nat.le_refl _), Nat.sub_self]
  rfl

theorem storeSlot_behind (done rest : List SplitSlot)
    (slot slot' : SplitSlot) :
    storeSlot (done ++ slot :: rest) done.length slot' =
      .ok (done ++ slot' :: rest) := by
  rw [storeSlot, if_pos (by simp), List.set_append_right _ _ (Nat.le_refl _),
    Nat.sub_self, List.set_cons_zero]

theorem skipWord_run {c stop : Char} {before run after : Str} {fuel : Nat}
    (hrun : ∀ x ∈ run, x ≠ c ∧ x ≠ '\x00') (hstop : stop = c ∨ stop = '\x00')
    (hlength : before.length + run.length < 2 ^ 31)
    (hfuel : run.length < fuel) :
    skipWord (before ++ (run ++ stop :: after)) c fuel before.length =
      .ok (before.length + run.length) := by
  induction run generalizing before fuel with
  | nil =>
      obtain ⟨fuel, rfl⟩ := Nat.exists_eq_add_one_of_ne_zero
        (Nat.ne_of_gt (Nat.zero_lt_of_lt hfuel))
      rw [List.nil_append, skipWord, byteAt_behind]
      have hends : ¬(stop ≠ c ∧ stop ≠ '\x00') := by
        rcases hstop with rfl | rfl <;> simp
      simp only [bind, Except.bind, if_neg hends]
      rfl
  | cons x run ih =>
      obtain ⟨fuel, rfl⟩ := Nat.exists_eq_add_one_of_ne_zero
        (Nat.ne_of_gt (Nat.zero_lt_of_lt hfuel))
      rw [List.length_cons] at hlength hfuel
      have hnext := @ih (before ++ [x]) fuel
        (fun y hy => hrun y (List.mem_cons_of_mem _ hy))
        (by rw [List.length_append, List.length_singleton]; omega) (by omega)
      rw [skipWord, List.cons_append, byteAt_behind]
      simp only [bind, Except.bind]
      rw [if_pos (hrun x List.mem_cons_self), addInt_ok (by omega)]
      rw [List.append_assoc, List.singleton_append, List.length_append,
        List.length_singleton] at hnext
      refine hnext.trans ?_
      rw [List.length_cons, Nat.add_assoc, Nat.add_comm 1]

/-! Both scans over a text behind others, with its runs. -/

section Scan

variable {c : Char} {before list rest : Str} {placed : List (Nat × Str)}

/-- One turn of `word_size`, over a run or a lone separator. -/
theorem wordSizeLoop_turn {run after : Str} {stop : Char} {fuel size : Nat}
    (hrun : ∀ x ∈ run, x ≠ c ∧ x ≠ '\x00')
    (hstop : (run ≠ [] ∧ stop = '\x00') ∨ (stop = c ∧ c ≠ '\x00'))
    (hlength : before.length + run.length +
      (if stop ≠ '\x00' then 1 else 0) < 2 ^ 31)
    (hsize : size + 1 < 2 ^ 31) :
    wordSizeLoop (before ++ (run ++ stop :: after)) c (fuel + 1)
        before.length size =
      wordSizeLoop (before ++ (run ++ stop :: after)) c fuel
        (before.length + run.length + if stop ≠ '\x00' then 1 else 0)
        (size + if run ≠ [] then 1 else 0) := by
  have hscan := @skipWord_run c stop before run after
    (before ++ (run ++ stop :: after)).length hrun
    (hstop.symm.imp (·.1) (·.2)) (by omega)
    (by simp only [List.length_append, List.length_cons]; omega)
  have hend : byteAt (before ++ (run ++ stop :: after))
      (before.length + run.length) = .ok stop := by
    rw [← List.append_assoc, ← List.length_append, byteAt_behind]
  obtain ⟨first, more, hsplit, hfirst, hcount⟩ : ∃ first more,
      run ++ stop :: after = first :: more ∧ first ≠ '\x00' ∧
        (if first ≠ c then 1 else 0) = if run ≠ [] then 1 else 0 := by
    cases run with
    | nil =>
        obtain ⟨rfl, hc⟩ := hstop.resolve_left fun hfirst => hfirst.1 rfl
        exact ⟨stop, after, rfl, hc, by simp⟩
    | cons x run =>
        obtain ⟨hx, hnul⟩ := hrun x List.mem_cons_self
        exact ⟨x, run ++ stop :: after, rfl, hnul, by simp [hx]⟩
  have hbyte : byteAt (before ++ (run ++ stop :: after)) before.length =
      .ok first := by
    rw [hsplit, byteAt_behind]
  rw [wordSizeLoop, hbyte]
  simp only [bind, Except.bind, if_neg hfirst, hcount]
  rw [addInt_ok (by split <;> omega)]
  simp only
  rw [hscan]
  simp only
  rw [hend]
  simp only
  rw [addInt_ok hlength]

theorem wordSizeLoop_runs {fuel size : Nat}
    (h : Runs c before.length list placed) (hnul : '\x00' ∉ list)
    (hlength : before.length + list.length < 2 ^ 31)
    (hsize : size + list.length < 2 ^ 31) (hfuel : list.length < fuel) :
    wordSizeLoop (before ++ (list ++ '\x00' :: rest)) c fuel before.length
      size = .ok (size + placed.length) := by
  induction fuel generalizing before list placed size with
  | zero => exact absurd hfuel (Nat.not_lt_zero _)
  | succ fuel ih =>
      generalize hstart : before.length = start at h
      cases h with
      | nil =>
          rw [List.nil_append, wordSizeLoop, ← hstart, byteAt_behind]
          simp only [bind, Except.bind, if_pos]
          rfl
      | @separator _ more _ hmore =>
          subst hstart
          have hc : c ≠ '\x00' := by
            rintro rfl
            exact hnul List.mem_cons_self
          rw [List.length_cons] at hlength hsize hfuel
          have hturn := @wordSizeLoop_turn c before []
            (more ++ '\x00' :: rest) c fuel size (by simp) (.inr ⟨rfl, hc⟩)
            (by rw [if_pos hc, List.length_nil]; omega) (by omega)
          have hnext := @ih (before ++ [c]) more placed size
            (by simpa using hmore)
            (fun hmem => hnul (List.mem_cons_of_mem _ hmem))
            (by rw [List.length_append, List.length_singleton]; omega)
            (by omega) (by omega)
          rw [List.append_assoc, List.length_append] at hnext
          rw [if_pos hc, if_neg (by simp)] at hturn
          exact hturn.trans hnext
      | @run _ run more placed hne hno hstop hmore =>
          subst hstart
          have hpositive := List.length_pos_iff.mpr hne
          have hrun : ∀ x ∈ run, x ≠ c ∧ x ≠ '\x00' := fun x hx =>
            ⟨ne_of_mem_of_not_mem hx hno,
              ne_of_mem_of_not_mem (List.mem_append_left _ hx) hnul⟩
          rw [List.length_append] at hlength hsize hfuel
          have hcount : size + 1 + placed.length =
              size + (placed.length + 1) := by omega
          rw [List.length_cons, ← hcount, List.append_assoc]
          cases more with
          | nil =>
              have hturn := @wordSizeLoop_turn c before run rest '\x00' fuel size
                hrun (.inl ⟨hne, rfl⟩)
                (by rw [if_neg (by simp)]; simpa using hlength) (by omega)
              have hnext := @ih (before ++ run) [] placed (size + 1)
                (by rw [List.length_append]; exact hmore) (by simp)
                (by rw [List.length_append]; simpa using hlength)
                (by rw [List.length_nil]; omega)
                (by rw [List.length_nil]; omega)
              rw [List.append_assoc, List.length_append] at hnext
              rw [if_neg (by simp), if_pos hne] at hturn
              exact hturn.trans hnext
          | cons d more =>
              obtain rfl := hstop d rfl
              have hd : d ≠ '\x00' := by
                rintro rfl
                exact hnul (by simp)
              rw [List.length_cons] at hlength hsize hfuel
              have hturn := @wordSizeLoop_turn d before run
                (more ++ '\x00' :: rest) d fuel size hrun (.inr ⟨rfl, hd⟩)
                (by rw [if_pos hd]; omega) (by omega)
              have hnext := @ih (before ++ run ++ [d]) more placed (size + 1)
                (by simpa [Nat.add_assoc] using hmore.of_separator)
                (fun hmem => hnul (by simp [hmem]))
                (by simp only [List.length_append, List.length_singleton]; omega)
                (by omega) (by omega)
              simp only [List.append_assoc, List.singleton_append,
                List.length_append, List.length_singleton,
                ← Nat.add_assoc] at hnext
              rw [if_pos hd, if_pos hne] at hturn
              exact hturn.trans hnext

theorem wordLen_run {run after : Str} {stop : Char}
    (hrun : ∀ x ∈ run, x ≠ c ∧ x ≠ '\x00') (hstop : stop = c ∨ stop = '\x00')
    (hlength : run.length < 2 ^ 31) :
    wordLen (run ++ stop :: after) c = .ok run.length := by
  have hscan := @skipWord_run c stop [] run after (run ++ stop :: after).length
    hrun hstop (by simpa using hlength) (by simp)
  rw [List.nil_append, List.length_nil, Nat.zero_add] at hscan
  exact hscan

/-- The words that `ft_split` has written, and the slots that are left. -/
def splitSlots (done : List SplitSlot) (left : Nat) : List SplitSlot :=
  done ++ List.replicate left .unset

theorem storeSlot_splitSlots (done : List SplitSlot) (left : Nat)
    (slot : SplitSlot) :
    storeSlot (splitSlots done (left + 1)) done.length slot =
      .ok (splitSlots (done ++ [slot]) left) := by
  unfold splitSlots
  rw [List.replicate_succ, storeSlot_behind, List.append_assoc,
    List.singleton_append]

theorem ftSplitSlotsLoop_runs {mallocs : Nat → Bool} {fuel : Nat}
    {done : List SplitSlot} (h : Runs c before.length list placed)
    (hnul : '\x00' ∉ list) (hlength : before.length + list.length < 2 ^ 31)
    (hdone : done.length + list.length < 2 ^ 31)
    (hfuel : list.length < fuel) :
    ∃ result, ftSplitSlotsLoop mallocs (before ++ (list ++ '\x00' :: rest)) c
        fuel before.length done.length
        (splitSlots done (placed.length + 1)) = .ok result ∧
      ((∀ k, mallocs k = true) →
        result = some (done ++ placed.map (fun entry => .word entry.2) ++
          [.null])) := by
  induction fuel generalizing before list placed done with
  | zero => exact absurd hfuel (Nat.not_lt_zero _)
  | succ fuel ih =>
      generalize hstart : before.length = start at h
      cases h with
      | nil =>
          refine ⟨some (done ++ [.null]), ?_, fun _ => by simp⟩
          rw [List.nil_append, ftSplitSlotsLoop, ← hstart, byteAt_behind]
          simp only [bind, Except.bind, if_pos]
          rw [List.length_nil, Nat.zero_add, storeSlot_splitSlots]
          simp [splitSlots, pure, Except.pure]
      | @separator _ more _ hmore =>
          subst hstart
          have hc : c ≠ '\x00' := by
            rintro rfl
            exact hnul List.mem_cons_self
          rw [List.length_cons] at hlength hdone hfuel
          have hnext := @ih (before ++ [c]) more placed done
            (by simpa using hmore)
            (fun hmem => hnul (List.mem_cons_of_mem _ hmem))
            (by rw [List.length_append, List.length_singleton]; omega)
            (by omega) (by omega)
          rw [List.append_assoc, List.length_append] at hnext
          rw [ftSplitSlotsLoop, List.cons_append, byteAt_behind]
          simp only [bind, Except.bind, if_neg hc, ne_eq, not_true_eq_false,
            if_false]
          rw [addInt_ok (by omega)]
          exact hnext
      | @run _ run more placed hne hno hstop hmore =>
          subst hstart
          have hpositive := List.length_pos_iff.mpr hne
          have hrun : ∀ x ∈ run, x ≠ c ∧ x ≠ '\x00' := fun x hx =>
            ⟨ne_of_mem_of_not_mem hx hno,
              ne_of_mem_of_not_mem (List.mem_append_left _ hx) hnul⟩
          rw [List.length_append] at hlength hdone hfuel
          obtain ⟨stop, after, hbehind, hends⟩ : ∃ stop after,
              more ++ '\x00' :: rest = stop :: after ∧
                (stop = c ∨ stop = '\x00') := by
            cases more with
            | nil => exact ⟨_, rest, rfl, .inr rfl⟩
            | cons d more => exact ⟨d, _, rfl, .inl (hstop d rfl)⟩
          obtain ⟨x, word, rfl⟩ := List.exists_cons_of_ne_nil hne
          obtain ⟨hx, hnulx⟩ := hrun x List.mem_cons_self
          have hbyte : byteAt (before ++ (x :: word ++ more ++ '\x00' :: rest))
              before.length = .ok x := by
            rw [List.append_assoc, List.cons_append, byteAt_behind]
          have hlen : wordLen ((before ++ (x :: word ++ more ++
              '\x00' :: rest)).drop before.length) c =
                .ok (x :: word).length := by
            rw [List.drop_left, List.append_assoc, hbehind]
            exact wordLen_run hrun hends (by omega)
          have htake : ((before ++ (x :: word ++ more ++
              '\x00' :: rest)).drop before.length).take (x :: word).length =
                x :: word := by
            rw [List.drop_left, List.append_assoc, List.take_left]
          rw [ftSplitSlotsLoop, hbyte]
          simp only [bind, Except.bind, if_neg hnulx, ne_eq, hx,
            not_false_eq_true, if_true]
          rw [hlen]
          simp only
          rw [htake, show ((before.length, x :: word) :: placed).length + 1 =
            placed.length + 1 + 1 from rfl, storeSlot_splitSlots,
            storeSlot_splitSlots]
          by_cases hmalloc : mallocs (done.length + 1) = false
          · rw [if_pos hmalloc]
            refine ⟨none, rfl, fun hall => ?_⟩
            rw [hall] at hmalloc
            cases hmalloc
          · have hword : before.length + ((x :: word).length - 1) + 1 =
                (before ++ x :: word).length := by
              rw [List.length_append]
              omega
            rw [if_neg hmalloc, addInt_ok (by omega)]
            simp only
            rw [addInt_ok (by omega)]
            simp only
            rw [addInt_ok (by omega), hword]
            obtain ⟨result, hnext, hall⟩ := @ih (before ++ x :: word) more placed
              (done ++ [.word (x :: word)])
              (by rw [List.length_append]; exact hmore)
              (fun hmem => hnul (List.mem_append_right _ hmem))
              (by rw [List.length_append]; omega)
              (by rw [List.length_append, List.length_singleton]; omega)
              (by omega)
            refine ⟨result, ?_, fun hsucceed => ?_⟩
            · have hcount : (done ++ [SplitSlot.word (x :: word)]).length =
                  done.length + 1 := List.length_append ..
              rw [List.append_assoc, ← List.append_assoc (x :: word),
                hcount] at hnext
              exact hnext
            · rw [hall hsucceed]
              simp

end Scan

theorem ftSplitLoop_runs {c : Char} {start : Nat} {list : Str}
    {placed : List (Nat × Str)} (h : Runs c start list placed) {fuel : Nat}
    (hfuel : list.length ≤ fuel) :
    ftSplitLoop c fuel list = placed.map Prod.snd := by
  induction h generalizing fuel with
  | nil =>
      cases fuel <;> rfl
  | separator _ ih =>
      obtain ⟨fuel, rfl⟩ := Nat.exists_eq_add_one_of_ne_zero
        (Nat.ne_of_gt (Nat.lt_of_lt_of_le (Nat.succ_pos _) hfuel))
      rw [ftSplitLoop, if_neg (by simp)]
      exact ih (Nat.le_of_succ_le_succ hfuel)
  | @run _ run rest placed hne hno hstop _ ih =>
      obtain ⟨x, word, rfl⟩ := List.exists_cons_of_ne_nil hne
      rw [List.length_append, List.length_cons] at hfuel
      obtain ⟨fuel, rfl⟩ := Nat.exists_eq_add_one_of_ne_zero
        (show fuel ≠ 0 by omega)
      have hword : ∀ y ∈ x :: word, decide (y ≠ c) = true := fun y hy =>
        decide_eq_true (ne_of_mem_of_not_mem hy hno)
      have htake : (x :: word ++ rest).takeWhile (· ≠ c) = x :: word := by
        rw [List.takeWhile_append_of_pos hword]
        cases rest with
        | nil => simp
        | cons y rest => simp [hstop y rfl]
      have hdrop : (x :: word ++ rest).dropWhile (· ≠ c) = rest := by
        rw [List.dropWhile_append_of_pos hword]
        cases rest with
        | nil => rfl
        | cons y rest => simp [hstop y rfl]
      rw [List.cons_append, ftSplitLoop, if_pos (by simpa using hword x),
        ← List.cons_append, htake, hdrop, ih (by omega)]
      rfl

/-- The two scans agree on a text behind which the array ends anywhere: the
words are its runs, in their order, `word_size` counts them, and `ft_split`
reads and writes in range, whichever calls of `malloc` succeed. -/
structure SplitAgrees (c : Char) (text rest : Str)
    (placed : List (Nat × Str)) : Prop where
  ordered : placed.Pairwise fun entry later => entry.1 < later.1
  runs : ∀ start run, (start, run) ∈ placed ↔ IsRun c text start run
  counted : wordSize (text ++ '\x00' :: rest) c = .ok placed.length
  filled : ∀ mallocs, ∃ result,
    ftSplitSlots mallocs (text ++ '\x00' :: rest) c = .ok result ∧
      ((∀ k, mallocs k = true) → result =
        some (placed.map (fun entry => .word entry.2) ++ [.null]))
  words : ftSplit text c = placed.map Prod.snd

theorem ftSplit_agrees (c : Char) {text : Str} (rest : Str)
    (hnul : '\x00' ∉ text) (hlength : text.length < 2 ^ 31) :
    ∃ placed, SplitAgrees c text rest placed := by
  obtain ⟨placed, hplaced⟩ := Runs.exists_runs c 0 text
  have hfuel : text.length < (text ++ '\x00' :: rest).length := by
    simp only [List.length_append, List.length_cons]
    omega
  have hfew := (Runs.length_le hplaced).1
  have hsize : wordSize (text ++ '\x00' :: rest) c = .ok placed.length := by
    have hcount := @wordSizeLoop_runs c [] text rest placed
      (text ++ '\x00' :: rest).length 0 hplaced hnul (by simpa using hlength)
      (by omega) hfuel
    rw [Nat.zero_add] at hcount
    exact hcount
  refine ⟨placed, hplaced.pairwise, fun start run => ?_, hsize,
    fun mallocs => ?_, ?_⟩
  · rw [@Runs.mem_iff _ _ _ _ _ hplaced [] rfl (.inl (by simp))]
    simp
  · unfold ftSplitSlots
    rw [hsize]
    simp only [bind, Except.bind]
    rw [addInt_ok (by omega)]
    simp only
    by_cases hmalloc : mallocs 0 = false
    · rw [if_pos hmalloc]
      refine ⟨none, rfl, fun hall => ?_⟩
      rw [hall] at hmalloc
      cases hmalloc
    · rw [if_neg hmalloc]
      exact @ftSplitSlotsLoop_runs c [] text rest placed mallocs
        (text ++ '\x00' :: rest).length [] hplaced hnul (by simpa using hlength)
        (by simpa using hlength) hfuel
  · rw [ftSplit, cStr_eq_self hnul]
    exact ftSplitLoop_runs hplaced (Nat.le_refl _)

theorem ftSplit_agrees_path : ∃ placed,
    SplitAgrees '/' "/a//b/".toList [] placed ∧
      placed.map Prod.snd = ["a".toList, "b".toList] := by
  obtain ⟨placed, hagrees⟩ := @ftSplit_agrees '/' "/a//b/".toList [] (by decide)
    (by decide)
  refine ⟨placed, hagrees, ?_⟩
  rw [← hagrees.words]
  decide

end Webserv
