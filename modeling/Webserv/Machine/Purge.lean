import Webserv.Machine.Run

namespace Webserv.Machine

/-! Events that the rest of a run does not depend on: it goes the same way when
they are taken out of it. -/

variable {State Event Fault : Type}
  {step : State → Event → Except Fault State}
  {condition : State → Event → Prop} {related : State → State → Prop}
  {keep : Event → Bool}

theorem Meets.mono {condition' : State → Event → Prop} {state : State}
    {events : List Event} (h : Meets step condition state events)
    (hcondition : ∀ state event, condition state event →
      condition' state event) : Meets step condition' state events := by
  induction events generalizing state with
  | nil => trivial
  | cons event rest ih =>
      exact ⟨hcondition _ _ h.1, fun next hnext => ih (h.2 next hnext)⟩

/-- An event that is dropped leaves its state related; one that is kept happens
in the related state, too. -/
structure Purges (step : State → Event → Except Fault State)
    (condition : State → Event → Prop) (related : State → State → Prop)
    (keep : Event → Bool) : Prop where
  dropped : ∀ {state state' event next}, related state state' →
    keep event = false → condition state event →
      step state event = .ok next → related next state'
  kept : ∀ {state state' event next}, related state state' →
    keep event = true → condition state event →
      step state event = .ok next →
        ∃ next', step state' event = .ok next' ∧ related next next'

theorem Purges.run (h : Purges step condition related keep)
    {state state' final : State} {events : List Event}
    (hrelated : related state state')
    (hmeets : Meets step condition state events)
    (hrun : run step state events = .ok final) :
    ∃ final', Machine.run step state' (events.filter keep) = .ok final' ∧
      related final final' := by
  induction events generalizing state state' with
  | nil =>
      obtain rfl := Except.ok.inj hrun
      exact ⟨state', rfl, hrelated⟩
  | cons event rest ih =>
      obtain ⟨next, hnext, hrest⟩ := run_cons_ok hrun
      have hmet := hmeets.2 next hnext
      cases hkeep : keep event with
      | false =>
          rw [List.filter_cons_of_neg (by simp [hkeep])]
          exact ih (h.dropped hrelated hkeep hmeets.1 hnext) hmet hrest
      | true =>
          obtain ⟨next', hnext', hrelated'⟩ :=
            h.kept hrelated hkeep hmeets.1 hnext
          obtain ⟨final', hfinal, hlast⟩ := ih hrelated' hmet hrest
          refine ⟨final', ?_, hlast⟩
          rw [List.filter_cons_of_pos hkeep, Machine.run, hnext']
          exact hfinal

end Webserv.Machine
