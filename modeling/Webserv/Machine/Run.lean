import Mathlib.Init

namespace Webserv.Machine

/-! Runs of a machine whose steps may fail. -/

variable {State Event Fault : Type}

def run (step : State → Event → Except Fault State) :
    State → List Event → Except Fault State
  | state, [] => .ok state
  | state, event :: rest =>
      match step state event with
      | .error fault => .error fault
      | .ok next => run step next rest

/-- Every step of a run meets a condition on the state it starts from. -/
def Meets (step : State → Event → Except Fault State)
    (condition : State → Event → Prop) : State → List Event → Prop
  | _, [] => True
  | state, event :: rest =>
      condition state event ∧
        ∀ next, step state event = .ok next → Meets step condition next rest

variable {step : State → Event → Except Fault State}

theorem run_cons_ok {state final : State} {event : Event}
    {rest : List Event} (h : run step state (event :: rest) = .ok final) :
    ∃ next, step state event = .ok next ∧ run step next rest = .ok final := by
  rw [run] at h
  split at h
  · cases h
  · exact ⟨_, ‹_›, h⟩

theorem meets_true (step : State → Event → Except Fault State)
    (state : State) (events : List Event) :
    Meets step (fun _ _ => True) state events := by
  induction events generalizing state with
  | nil => trivial
  | cons event rest ih => exact ⟨trivial, fun next _ => ih next⟩

theorem Meets.and {condition other : State → Event → Prop} {state : State}
    {events : List Event} (h : Meets step condition state events)
    (hother : Meets step other state events) :
    Meets step (fun state event => condition state event ∧ other state event)
      state events := by
  induction events generalizing state with
  | nil => trivial
  | cons event rest ih =>
      exact ⟨⟨h.1, hother.1⟩,
        fun next hnext => ih (h.2 next hnext) (hother.2 next hnext)⟩

theorem run_invariant {condition : State → Event → Prop}
    {invariant : State → Prop}
    (hstep : ∀ state event next, invariant state → condition state event →
      step state event = .ok next → invariant next)
    {state final : State} {events : List Event}
    (hstart : invariant state) (hmeets : Meets step condition state events)
    (hrun : run step state events = .ok final) : invariant final := by
  induction events generalizing state with
  | nil =>
      obtain rfl := Except.ok.inj hrun
      exact hstart
  | cons event rest ih =>
      obtain ⟨next, hnext, hrest⟩ := run_cons_ok hrun
      exact ih (hstep state event next hstart hmeets.1 hnext)
        (hmeets.2 next hnext) hrest

/-- The states that runs from a start reach, every step meeting a condition. -/
inductive Reachable (step : State → Event → Except Fault State)
    (condition : State → Event → Prop) (start : State) : State → Prop
  | start : Reachable step condition start start
  | step {state next : State} {event : Event} :
      Reachable step condition start state → condition state event →
        step state event = .ok next → Reachable step condition start next

theorem Reachable.invariant {condition : State → Event → Prop}
    {invariant : State → Prop} {start state : State}
    (hstep : ∀ state event next, invariant state → condition state event →
      step state event = .ok next → invariant next)
    (hstart : invariant start)
    (h : Reachable step condition start state) : invariant state := by
  induction h with
  | start => exact hstart
  | step _ hcondition hnext ih => exact hstep _ _ _ ih hcondition hnext

/-- A run that stops where its condition or one of its steps fails. -/
def replay (step : State → Event → Except Fault State)
    (condition : State → Event → Prop) [∀ s e, Decidable (condition s e)] :
    State → List Event → Option State
  | state, [] => some state
  | state, event :: rest =>
      if condition state event then
        match step state event with
        | .error _ => none
        | .ok next => replay step condition next rest
      else none

theorem reachable_of_replay {condition : State → Event → Prop}
    [∀ s e, Decidable (condition s e)] {start state final : State}
    {events : List Event} (hstate : Reachable step condition start state)
    (h : replay step condition state events = some final) :
    Reachable step condition start final := by
  induction events generalizing state with
  | nil =>
      obtain rfl := Option.some.inj h
      exact hstate
  | cons event rest ih =>
      rw [replay] at h
      split at h
      · rename_i hcondition
        split at h
        · cases h
        · rename_i next hnext
          exact ih (hstate.step hcondition hnext) h
      · cases h

end Webserv.Machine
