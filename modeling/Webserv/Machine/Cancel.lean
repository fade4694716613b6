import Mathlib.Data.List.Infix
import Mathlib.Data.List.Count

namespace Webserv.Machine

/-! A stack on which some tokens take off what others have put there. -/

variable {α : Type} (closes : α → Bool)

/-- The stack after a sequence of tokens, unless an empty one is closed. -/
def cancel : List α → List α → Option (List α)
  | stack, [] => some stack
  | stack, token :: rest =>
      if closes token then
        if stack.isEmpty then none else cancel stack.dropLast rest
      else cancel (stack ++ [token]) rest

def opened (tokens : List α) : Nat := tokens.countP fun token => !closes token

def closed (tokens : List α) : Nat := tokens.countP closes

/-- Nothing is closed that has not been opened before. -/
def Covered (tokens : List α) : Prop :=
  ∀ front, front <+: tokens → closed closes front ≤ opened closes front

structure Balanced (tokens : List α) : Prop where
  covered : Covered closes tokens
  settled : opened closes tokens = closed closes tokens

variable {closes}

theorem cancel_close {token : α} (h : closes token = true) (stack : List α)
    (top : α) (rest : List α) :
    cancel closes (stack ++ [top]) (token :: rest) =
      cancel closes stack rest := by
  rw [cancel, if_pos h, if_neg (by simp), List.dropLast_concat]

theorem cancel_close_nil {token : α} (h : closes token = true)
    (rest : List α) : cancel closes [] (token :: rest) = none := by
  rw [cancel, if_pos h]
  rfl

theorem cancel_open {token : α} (h : closes token = false) (stack : List α)
    (rest : List α) :
    cancel closes stack (token :: rest) =
      cancel closes (stack ++ [token]) rest := by
  rw [cancel, if_neg (by simp [h])]

theorem cancel_append (stack front back : List α) :
    cancel closes stack (front ++ back) =
      (cancel closes stack front).bind fun next =>
        cancel closes next back := by
  induction front generalizing stack with
  | nil => rfl
  | cons token rest ih =>
      rw [List.cons_append, cancel, cancel]
      split
      · split
        · rfl
        · exact ih stack.dropLast
      · exact ih (stack ++ [token])

theorem cancel_length {stack tokens result : List α}
    (h : cancel closes stack tokens = some result) :
    result.length + closed closes tokens =
      stack.length + opened closes tokens := by
  induction tokens generalizing stack with
  | nil =>
      obtain rfl := Option.some.inj h
      rfl
  | cons token rest ih =>
      cases htoken : closes token with
      | true =>
          rcases List.eq_nil_or_concat stack with rfl | ⟨front, top, rfl⟩
          · rw [cancel_close_nil htoken] at h
            cases h
          · rw [List.concat_eq_append] at h ⊢
            rw [cancel_close htoken] at h
            have hrest := ih h
            simp only [closed, opened, List.countP_cons, htoken,
              List.length_append, List.length_singleton] at hrest ⊢
            simp only [Bool.not_true, Bool.false_eq_true, if_true, if_false]
            omega
      | false =>
          rw [cancel_open htoken] at h
          have hrest := ih h
          simp only [closed, opened, List.countP_cons, htoken,
            List.length_append, List.length_singleton] at hrest ⊢
          simp only [Bool.not_false, Bool.false_eq_true, if_true, if_false]
          omega

theorem cancel_isSome_iff {stack tokens : List α} :
    (cancel closes stack tokens).isSome ↔
      ∀ front, front <+: tokens →
        closed closes front ≤ stack.length + opened closes front := by
  induction tokens generalizing stack with
  | nil =>
      refine ⟨fun _ front hfront => ?_, fun _ => rfl⟩
      obtain rfl := List.prefix_nil.mp hfront
      exact Nat.zero_le _
  | cons token rest ih =>
      have hbegins : (∀ front, front <+: token :: rest →
            closed closes front ≤ stack.length + opened closes front) ↔
          ∀ front, front <+: rest →
            closed closes (token :: front) ≤
              stack.length + opened closes (token :: front) := by
        constructor
        · intro h front hfront
          exact h _ (List.cons_prefix_cons.mpr ⟨rfl, hfront⟩)
        · intro h front hfront
          rcases List.prefix_cons_iff.mp hfront with rfl | ⟨front, rfl, hrest⟩
          · exact Nat.zero_le _
          · exact h front hrest
      rw [hbegins]
      cases htoken : closes token with
      | true =>
          rcases List.eq_nil_or_concat stack with rfl | ⟨lower, top, rfl⟩
          · rw [cancel_close_nil htoken]
            refine ⟨nofun, fun h => ?_⟩
            have hone := h [] List.nil_prefix
            simp [closed, opened, htoken] at hone
          · rw [List.concat_eq_append, cancel_close htoken, ih]
            refine forall₂_congr fun front _ => ?_
            simp only [closed, opened, List.countP_cons, htoken,
              List.length_append, List.length_singleton, Bool.not_true,
              Bool.false_eq_true, if_true, if_false]
            omega
      | false =>
          rw [cancel_open htoken, ih]
          refine forall₂_congr fun front _ => ?_
          simp only [closed, opened, List.countP_cons, htoken,
            List.length_append, List.length_singleton, Bool.not_false,
            Bool.false_eq_true, if_true, if_false]
          omega

theorem covered_iff {tokens : List α} :
    Covered closes tokens ↔ (cancel closes [] tokens).isSome := by
  rw [cancel_isSome_iff]
  simp [Covered]

theorem balanced_iff {tokens : List α} :
    Balanced closes tokens ↔ cancel closes [] tokens = some [] := by
  constructor
  · rintro ⟨hcovered, hsettled⟩
    obtain ⟨result, hresult⟩ :=
      Option.isSome_iff_exists.mp (covered_iff.mp hcovered)
    have hlength := cancel_length hresult
    rw [hsettled, List.length_nil] at hlength
    have hempty : result.length = 0 := by omega
    rw [hresult, List.length_eq_zero_iff.mp hempty]
  · intro h
    refine ⟨covered_iff.mpr (by rw [h]; rfl), ?_⟩
    have hlength := cancel_length h
    simp only [List.length_nil] at hlength
    omega

theorem cancel_frame {stack tokens result : List α} (bottom : List α)
    (h : cancel closes stack tokens = some result) :
    cancel closes (bottom ++ stack) tokens = some (bottom ++ result) := by
  induction tokens generalizing stack with
  | nil =>
      obtain rfl := Option.some.inj h
      rfl
  | cons token rest ih =>
      cases htoken : closes token with
      | true =>
          rcases List.eq_nil_or_concat stack with rfl | ⟨front, top, rfl⟩
          · rw [cancel_close_nil htoken] at h
            cases h
          · rw [List.concat_eq_append] at h ⊢
            rw [cancel_close htoken] at h
            rw [← List.append_assoc, cancel_close htoken]
            exact ih h
      | false =>
          rw [cancel_open htoken] at h ⊢
          rw [List.append_assoc]
          exact ih h

theorem cancel_sublist {stack tokens result : List α}
    (h : cancel closes stack tokens = some result) :
    result.Sublist (stack ++ tokens) := by
  induction tokens generalizing stack with
  | nil =>
      obtain rfl := Option.some.inj h
      rw [List.append_nil]
  | cons token rest ih =>
      cases htoken : closes token with
      | true =>
          rcases List.eq_nil_or_concat stack with rfl | ⟨front, top, rfl⟩
          · rw [cancel_close_nil htoken] at h
            cases h
          · rw [List.concat_eq_append] at h ⊢
            rw [cancel_close htoken] at h
            refine (ih h).trans ?_
            rw [List.append_assoc]
            exact (List.Sublist.refl front).append
              (List.sublist_append_right [top, token] rest)
      | false =>
          rw [cancel_open htoken, ] at h
          rw [List.append_cons]
          exact ih h

theorem cancel_mem {stack tokens result : List α}
    (h : cancel closes stack tokens = some result) :
    ∀ token ∈ result, token ∈ stack ∨ closes token = false := by
  induction tokens generalizing stack with
  | nil =>
      obtain rfl := Option.some.inj h
      exact fun token htoken => .inl htoken
  | cons first rest ih =>
      intro token hmem
      cases hfirst : closes first with
      | true =>
          rcases List.eq_nil_or_concat stack with rfl | ⟨front, top, rfl⟩
          · rw [cancel_close_nil hfirst] at h
            cases h
          · rw [List.concat_eq_append] at h ⊢
            rw [cancel_close hfirst] at h
            exact (ih h token hmem).imp_left (List.mem_append_left _)
      | false =>
          rw [cancel_open hfirst] at h
          rcases ih h token hmem with hstack | hopen
          · rcases List.mem_append.mp hstack with hstack | hlast
            · exact .inl hstack
            · rw [List.mem_singleton.mp hlast]
              exact .inr hfirst
          · exact .inr hopen

theorem cancel_opens {stack tokens : List α}
    (h : ∀ token ∈ tokens, closes token = false) :
    cancel closes stack tokens = some (stack ++ tokens) := by
  induction tokens generalizing stack with
  | nil => simp [cancel]
  | cons token rest ih =>
      rw [cancel_open (h token List.mem_cons_self),
        ih fun other hother => h other (List.mem_cons_of_mem _ hother),
        List.append_assoc]
      rfl

theorem cancel_concat_close {tokens : List α} {token : α}
    (h : closes token = true) {result : List α}
    (hresult : cancel closes [] (tokens ++ [token]) = some result) :
    ∃ top, cancel closes [] tokens = some (result ++ [top]) := by
  rw [cancel_append] at hresult
  obtain ⟨stack, hstack, hlast⟩ := Option.bind_eq_some_iff.mp hresult
  rcases List.eq_nil_or_concat stack with rfl | ⟨front, top, rfl⟩
  · rw [cancel_close_nil h] at hlast
    cases hlast
  · rw [List.concat_eq_append] at hstack hlast
    rw [cancel_close h] at hlast
    obtain rfl := Option.some.inj hlast
    exact ⟨top, hstack⟩

theorem cancel_concat_open {tokens : List α} {token : α}
    (h : closes token = false) {result : List α}
    (hresult : cancel closes [] (tokens ++ [token]) = some result) :
    ∃ stack, cancel closes [] tokens = some stack ∧
      result = stack ++ [token] := by
  rw [cancel_append] at hresult
  obtain ⟨stack, hstack, hlast⟩ := Option.bind_eq_some_iff.mp hresult
  rw [cancel_open h] at hlast
  exact ⟨stack, hstack, (Option.some.inj hlast).symm⟩

theorem cancel_top {tokens lower : List α} {top : α}
    (h : cancel closes [] tokens = some (lower ++ [top])) :
    ∃ front middle, tokens = front ++ top :: middle ∧
      closes top = false ∧ cancel closes [] front = some lower ∧
        Balanced closes middle := by
  induction hlength : tokens.length using Nat.strong_induction_on
    generalizing tokens lower top with
  | _ n ih =>
      rcases List.eq_nil_or_concat tokens with rfl | ⟨before, last, rfl⟩
      · simp [cancel] at h
      rw [List.concat_eq_append] at h hlength ⊢
      rw [List.length_append, List.length_singleton] at hlength
      cases hlast : closes last with
      | false =>
          obtain ⟨stack, hstack, hresult⟩ := cancel_concat_open hlast h
          obtain ⟨rfl, hsame⟩ := List.append_inj' hresult rfl
          obtain rfl := (List.cons.inj hsame).1
          exact ⟨before, [], rfl, hlast, hstack,
            balanced_iff.mpr rfl⟩
      | true =>
          obtain ⟨next, hnext⟩ := cancel_concat_close hlast h
          -- what the last token closes, and below it what stays on top
          obtain ⟨front, middle, rfl, hopen, hfront, hmiddle⟩ :=
            ih before.length (by omega) hnext rfl
          rw [List.length_append, List.length_cons] at hlength
          obtain ⟨front', middle', rfl, hopen', hfront', hmiddle'⟩ :=
            ih front.length (by omega) hfront rfl
          refine ⟨front', middle' ++ next :: (middle ++ [last]), by simp,
            hopen', hfront', ?_⟩
          rw [balanced_iff] at hmiddle hmiddle' ⊢
          rw [cancel_append, hmiddle', Option.bind_some, cancel_open hopen,
            List.nil_append, cancel_append]
          have hframe := cancel_frame [next] hmiddle
          rw [List.append_nil] at hframe
          rw [hframe, Option.bind_some]
          exact cancel_close hlast [] next []

/-! Tokens that a second stack does without. -/

/-- No token closes one that is left out. -/
def ClosesKept (closes keeps : α → Bool) (tokens : List α) : Prop :=
  ∀ front token middle last back,
    tokens = front ++ token :: (middle ++ last :: back) →
      Balanced closes middle → closes token = false → closes last = true →
        keeps token = true

variable {keeps : α → Bool}

theorem cancel_filter (hkeeps : ∀ token, closes token = true →
      keeps token = true)
    {tokens result : List α} (h : cancel closes [] tokens = some result)
    (hclosed : ClosesKept closes keeps tokens) :
    cancel closes [] (tokens.filter keeps) = some (result.filter keeps) := by
  induction tokens using List.reverseRecOn generalizing result with
  | nil =>
      obtain rfl := Option.some.inj h
      rfl
  | append_singleton before last ih =>
      have hbefore : ClosesKept closes keeps before := by
        intro front token middle last' back hsplit
        exact hclosed front token middle last' (back ++ [last])
          (by rw [hsplit]; simp)
      rw [List.filter_append, cancel_append]
      cases hlast : closes last with
      | true =>
          obtain ⟨top, htop⟩ := cancel_concat_close hlast h
          obtain ⟨front, middle, hsplit, hopen, -, hmiddle⟩ := cancel_top htop
          have hkept : keeps top = true :=
            hclosed front top middle last [] (by rw [hsplit]; simp) hmiddle
              hopen hlast
          rw [ih htop hbefore, List.filter_append,
            List.filter_cons_of_pos hkept, List.filter_nil,
            List.filter_cons_of_pos (hkeeps last hlast), List.filter_nil,
            Option.bind_some, cancel_close hlast]
          rfl
      | false =>
          obtain ⟨stack, hstack, rfl⟩ := cancel_concat_open hlast h
          rw [ih hstack hbefore, Option.bind_some, List.filter_append]
          apply cancel_opens
          intro token htoken
          rw [List.mem_filter, List.mem_singleton] at htoken
          rw [htoken.1]
          exact hlast

def dropped (keeps : α → Bool) (tokens : List α) : Nat :=
  tokens.countP fun token => !keeps token

theorem length_filter_add_dropped (tokens : List α) :
    (tokens.filter keeps).length + dropped keeps tokens = tokens.length := by
  unfold dropped
  rw [← List.countP_eq_length_filter,
    List.length_eq_countP_add_countP keeps]
  simp

theorem dropped_append (front back : List α) :
    dropped keeps (front ++ back) = dropped keeps front + dropped keeps back :=
  List.countP_append

theorem cancel_pair {front middle back : List α} {token last : α}
    (hmiddle : Balanced closes middle) (hopen : closes token = false)
    (hlast : closes last = true) :
    cancel closes [] (front ++ token :: (middle ++ last :: back)) =
      cancel closes [] (front ++ back) := by
  rw [cancel_append, cancel_append _ front]
  cases cancel closes [] front with
  | none => rfl
  | some stack =>
      have hframe := cancel_frame (stack ++ [token]) (balanced_iff.mp hmiddle)
      rw [List.append_nil] at hframe
      rw [Option.bind_some, Option.bind_some, cancel_open hopen,
        cancel_append, hframe, Option.bind_some, cancel_close hlast]

theorem opened_filter (hkeeps : ∀ token, closes token = true →
      keeps token = true) (tokens : List α) :
    opened closes (tokens.filter keeps) + dropped keeps tokens =
      opened closes tokens := by
  induction tokens with
  | nil => rfl
  | cons token rest ih =>
      unfold opened dropped at ih ⊢
      cases hkept : keeps token with
      | true =>
          rw [List.filter_cons_of_pos hkept]
          simp only [List.countP_cons, hkept, Bool.not_true,
            Bool.false_eq_true, if_false]
          omega
      | false =>
          have hopen : closes token = false := by
            by_contra hcloses
            rw [hkeeps token (by simpa using hcloses)] at hkept
            cases hkept
          rw [List.filter_cons_of_neg (by simp [hkept])]
          simp only [List.countP_cons, hkept, hopen, Bool.not_false, if_true]
          omega

theorem closed_filter (hkeeps : ∀ token, closes token = true →
      keeps token = true) (tokens : List α) :
    closed closes (tokens.filter keeps) = closed closes tokens := by
  unfold closed
  rw [List.countP_filter]
  refine List.countP_congr fun token _ => ?_
  simp only [Bool.and_eq_true]
  exact ⟨fun h => h.1, fun h => ⟨h, hkeeps token h⟩⟩

theorem cancel_filter_ne (hkeeps : ∀ token, closes token = true →
      keeps token = true)
    {tokens result : List α} (h : cancel closes [] tokens = some result)
    (hclosed : ¬ClosesKept closes keeps tokens) :
    cancel closes [] (tokens.filter keeps) ≠
      some (result.filter keeps) := by
  intro hsame
  unfold ClosesKept at hclosed
  push Not at hclosed
  obtain ⟨front, token, middle, last, back, rfl, hmiddle, hopen, hlast,
    hout⟩ := hclosed
  -- all that is left out stays on the first stack, the pair included
  have hheight := cancel_length h
  have hheight' := cancel_length hsame
  rw [closed_filter hkeeps] at hheight'
  have hopened := opened_filter hkeeps
    (front ++ token :: (middle ++ last :: back))
  have hresult := @length_filter_add_dropped _ keeps result
  have hall : dropped keeps result =
      dropped keeps (front ++ token :: (middle ++ last :: back)) := by
    omega
  rw [cancel_pair hmiddle hopen hlast] at h
  have hless := (cancel_sublist h).countP_le (p := fun token => !keeps token)
  rw [List.nil_append] at hless
  change dropped keeps result ≤ dropped keeps (front ++ back) at hless
  rw [hall, dropped_append, dropped_append, ← List.singleton_append,
    dropped_append, dropped_append, ← List.singleton_append (l := back),
    dropped_append] at hless
  have hone : dropped keeps [token] = 1 := by
    simp [dropped, hout]
  omega

/-- Both stacks agree on what is kept, exactly when no token closes one that
is left out. -/
theorem cancel_filter_iff (hkeeps : ∀ token, closes token = true →
      keeps token = true)
    {tokens result : List α} (h : cancel closes [] tokens = some result) :
    cancel closes [] (tokens.filter keeps) = some (result.filter keeps) ↔
      ClosesKept closes keeps tokens := by
  constructor
  · intro hsame
    by_contra hclosed
    exact cancel_filter_ne hkeeps h hclosed hsame
  · exact cancel_filter hkeeps h

theorem cancel_filter_none (hkeeps : ∀ token, closes token = true →
      keeps token = true)
    {tokens : List α} (h : cancel closes [] tokens = none) :
    cancel closes [] (tokens.filter keeps) = none := by
  rw [← Option.not_isSome_iff_eq_none, ← covered_iff] at h ⊢
  intro hcovered
  apply h
  intro front hfront
  have hkept := hcovered (front.filter keeps) (hfront.filter keeps)
  rw [closed_filter hkeeps] at hkept
  have hopened := opened_filter hkeeps front
  omega

end Webserv.Machine
