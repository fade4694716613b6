import Webserv.Machine.Run

namespace Webserv.Machine

/-! A machine that stands for another one: each step of the concrete machine is
a run of the abstract one. -/

section Append

variable {State Event Fault : Type}
  {step : State → Event → Except Fault State}
  {condition : State → Event → Prop} {state middle : State}
  {first second : List Event}

theorem run_append (h : run step state first = .ok middle) :
    run step state (first ++ second) = run step middle second := by
  induction first generalizing state with
  | nil =>
      obtain rfl := Except.ok.inj h
      rfl
  | cons event rest ih =>
      obtain ⟨next, hnext, hrest⟩ := run_cons_ok h
      rw [List.cons_append, run, hnext]
      exact ih hrest

theorem Meets.append (h : Meets step condition state first)
    (hrun : run step state first = .ok middle)
    (hsecond : Meets step condition middle second) :
    Meets step condition state (first ++ second) := by
  induction first generalizing state with
  | nil =>
      obtain rfl := Except.ok.inj hrun
      exact hsecond
  | cons event rest ih =>
      obtain ⟨next, hnext, hrest⟩ := run_cons_ok hrun
      refine ⟨h.1, fun other hother => ?_⟩
      obtain rfl := Except.ok.inj (hnext.symm.trans hother)
      exact ih (h.2 next hnext) hrest

theorem run_of_replay [∀ state event, Decidable (condition state event)]
    (h : replay step condition state first = some middle) :
    run step state first = .ok middle ∧
      Meets step condition state first := by
  induction first generalizing state with
  | nil =>
      obtain rfl := Option.some.inj h
      exact ⟨rfl, trivial⟩
  | cons event rest ih =>
      rw [replay] at h
      split at h
      · rename_i hmet
        split at h
        · cases h
        · rename_i next hnext
          obtain ⟨hrun, hmeets⟩ := ih h
          refine ⟨by rw [run, hnext]; exact hrun, hmet, fun other hother => ?_⟩
          obtain rfl := Except.ok.inj (hnext.symm.trans hother)
          exact hmeets
      · cases h

end Append

variable {State Event Fault State' Event' Fault' : Type}
  {step : State → Event → Except Fault State}
  {condition : State → Event → Prop}
  {step' : State' → Event' → Except Fault' State'}
  {condition' : State' → Event' → Prop}
  {relation : State → State' → Prop}

/-- A state that stands for the concrete one is carried over every step by a
run that meets the abstract condition. -/
def Simulates (step : State → Event → Except Fault State)
    (condition : State → Event → Prop)
    (step' : State' → Event' → Except Fault' State')
    (condition' : State' → Event' → Prop)
    (relation : State → State' → Prop) : Prop :=
  ∀ state state' event' next', relation state state' →
    condition' state' event' → step' state' event' = .ok next' →
      ∃ events next, run step state events = .ok next ∧
        Meets step condition state events ∧ relation next next'

/-- Every state that the concrete machine reaches has one that stands for it,
at the end of a run of the abstract machine. -/
theorem Simulates.reachable
    (h : Simulates step condition step' condition' relation) {start : State}
    {start' final' : State'} (hstart : relation start start')
    (hreached : Reachable step' condition' start' final') :
    ∃ events final, run step start events = .ok final ∧
      Meets step condition start events ∧ relation final final' := by
  induction hreached with
  | start => exact ⟨[], start, rfl, trivial, hstart⟩
  | @step state' next' event' _ hcondition hnext ih =>
      obtain ⟨events, state, hrun, hmeets, hrelated⟩ := ih
      obtain ⟨more, next, hmore, hmet, hrelated'⟩ :=
        h state state' event' next' hrelated hcondition hnext
      exact ⟨events ++ more, next, (run_append hrun).trans hmore,
        hmeets.append hrun hmet, hrelated'⟩

theorem Reachable.mono {condition condition' : State → Event → Prop}
    {start state : State} (h : Reachable step condition start state)
    (hcondition : ∀ state event, condition state event →
      condition' state event) : Reachable step condition' start state := by
  induction h with
  | start => exact .start
  | step _ hmet hnext ih => exact ih.step (hcondition _ _ hmet) hnext

end Webserv.Machine
