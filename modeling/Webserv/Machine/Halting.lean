import Mathlib.Logic.Relation

namespace Webserv.Machine

/-! Machines with one move in each state, which may halt with a result. -/

inductive Move (State Result : Type)
  | step (next : State)
  | halt (result : Result)

variable {State Result : Type}

/-- Any number of moves, none of which halts. -/
def Steps (move : State → Move State Result) : State → State → Prop :=
  Relation.ReflTransGen fun state next => move state = .step next

inductive Halts (move : State → Move State Result) : State → Result → Prop
  | halt {state : State} {result : Result} :
      move state = .halt result → Halts move state result
  | step {state next : State} {result : Result} :
      move state = .step next → Halts move next result → Halts move state result

variable {move : State → Move State Result} {state next : State}
  {result result' : Result}

theorem Steps.refl (state : State) : Steps move state state :=
  Relation.ReflTransGen.refl

theorem Steps.single (h : move state = .step next) : Steps move state next :=
  Relation.ReflTransGen.single h

theorem Steps.trans {final : State} (h : Steps move state next)
    (hnext : Steps move next final) : Steps move state final :=
  Relation.ReflTransGen.trans h hnext

theorem Steps.head {final : State} (h : move state = .step next)
    (hnext : Steps move next final) : Steps move state final :=
  Relation.ReflTransGen.head h hnext

theorem Steps.halts (h : Steps move state next)
    (hnext : Halts move next result) : Halts move state result := by
  induction h using Relation.ReflTransGen.head_induction_on with
  | refl => exact hnext
  | head hmove _ ih => exact .step hmove ih

theorem Halts.unique (h : Halts move state result)
    (h' : Halts move state result') : result = result' := by
  induction h with
  | halt hmove =>
      cases h' with
      | halt hmove' =>
          rw [hmove] at hmove'
          cases hmove'
          rfl
      | step hmove' _ =>
          rw [hmove] at hmove'
          cases hmove'
  | step hmove _ ih =>
      cases h' with
      | halt hmove' =>
          rw [hmove] at hmove'
          cases hmove'
      | step hmove' hhalts =>
          rw [hmove] at hmove'
          cases hmove'
          exact ih hhalts

theorem Halts.of_steps (h : Halts move state result)
    (hsteps : Steps move state next) : Halts move next result := by
  induction hsteps with
  | refl => exact h
  | tail _ hmove ih =>
      cases ih with
      | halt hhalt =>
          rw [hmove] at hhalt
          cases hhalt
      | step hother hhalts =>
          rw [hmove] at hother
          cases hother
          exact hhalts

theorem Halts.last (h : Halts move state result) :
    ∃ last, Steps move state last ∧ move last = .halt result := by
  induction h with
  | halt hmove => exact ⟨_, .refl _, hmove⟩
  | step hmove _ ih =>
      obtain ⟨last, hsteps, hlast⟩ := ih
      exact ⟨last, hsteps.head hmove, hlast⟩

theorem halts_iff : Halts move state result ↔
    ∃ last, Steps move state last ∧ move last = .halt result := by
  constructor
  · exact Halts.last
  · rintro ⟨last, hsteps, hlast⟩
    exact hsteps.halts (.halt hlast)

theorem Steps.invariant {invariant : State → Prop}
    (hmove : ∀ state next, invariant state → move state = .step next →
      invariant next)
    (h : Steps move state next) (hstart : invariant state) :
    invariant next := by
  induction h with
  | refl => exact hstart
  | tail _ hnext ih => exact hmove _ _ ih hnext

section Measure

variable {measure : State → Nat}

theorem Steps.measure_le
    (hmove : ∀ state next, move state = .step next →
      measure next < measure state)
    (h : Steps move state next) : measure next ≤ measure state := by
  induction h with
  | refl => exact Nat.le_refl _
  | tail _ hnext ih => exact Nat.le_of_lt (Nat.lt_of_lt_of_le (hmove _ _ hnext) ih)

/-- A machine whose moves decrease a measure halts from every state. -/
theorem exists_halts
    (hmove : ∀ state next, move state = .step next →
      measure next < measure state)
    (state : State) : ∃ result, Halts move state result := by
  induction hsize : measure state using Nat.strongRecOn generalizing state with
  | ind size ih =>
      cases hnext : move state with
      | halt result => exact ⟨result, .halt hnext⟩
      | step next =>
          have hsmaller := hmove state next hnext
          obtain ⟨result, hhalts⟩ := ih (measure next) (hsize ▸ hsmaller) next
            rfl
          exact ⟨result, .step hnext hhalts⟩

end Measure

/-- How the moves of two related states are related. -/
inductive Move.Related {State' : Type} (related : State → State' → Prop) :
    Move State Result → Move State' Result → Prop
  | step {next : State} {next' : State'} : related next next' →
      Related related (.step next) (.step next')
  | halt (result : Result) : Related related (.halt result) (.halt result)

/-- Machines that keep their states related halt with the same results. -/
theorem Halts.related {State' : Type} {move' : State' → Move State' Result}
    {related : State → State' → Prop}
    (hmove : ∀ state state', related state state' →
      Move.Related related (move state) (move' state'))
    {state' : State'} (hstart : related state state')
    (h : Halts move state result) : Halts move' state' result := by
  induction h generalizing state' with
  | halt hhalt =>
      have hboth := hmove _ _ hstart
      rw [hhalt] at hboth
      cases hother : move' state' with
      | step next' =>
          rw [hother] at hboth
          cases hboth
      | halt result' =>
          rw [hother] at hboth
          cases hboth
          exact .halt hother
  | step hto _ ih =>
      have hboth := hmove _ _ hstart
      rw [hto] at hboth
      cases hother : move' state' with
      | step next' =>
          rw [hother] at hboth
          cases hboth with
          | step hnext => exact .step hother (ih hnext)
      | halt result' =>
          rw [hother] at hboth
          cases hboth

end Webserv.Machine
