import Webserv.Machine.Run

namespace Webserv.Machine

/-! Runs whose steps bring something forward, and keep something else. -/

variable {State Event Fault : Type}
  {step : State → Event → Except Fault State}
  {condition : State → Event → Prop} {keeps : State → Prop}

/-- A condition on an event and on the state that it leads to. -/
def Keeps (step : State → Event → Except Fault State)
    (condition : State → Event → Prop) (keeps : State → Prop)
    (state : State) (event : Event) : Prop :=
  condition state event ∧ ∀ next, step state event = .ok next → keeps next

instance [∀ state event, Decidable (condition state event)]
    [DecidablePred keeps] (state : State) (event : Event) :
    Decidable (Keeps step condition keeps state event) :=
  match hnext : step state event with
  | .error _ =>
      decidable_of_iff (condition state event)
        ⟨fun h => ⟨h, fun _ hok => by rw [hnext] at hok; cases hok⟩,
          fun h => h.1⟩
  | .ok next =>
      decidable_of_iff (condition state event ∧ keeps next)
        ⟨fun h => ⟨h.1, fun other hok => by
          obtain rfl := Except.ok.inj (hnext.symm.trans hok)
          exact h.2⟩, fun h => ⟨h.1, h.2 next hnext⟩⟩

theorem run_counts {reached : Nat → State → Prop}
    (hstep : ∀ count state event next, reached count state →
      condition state event → step state event = .ok next →
        reached (count + 1) next)
    {count : Nat} {state final : State} {events : List Event}
    (hstart : reached count state) (hmeets : Meets step condition state events)
    (hrun : run step state events = .ok final) :
    reached (count + events.length) final := by
  induction events generalizing count state with
  | nil =>
      obtain rfl := Except.ok.inj hrun
      exact hstart
  | cons event rest ih =>
      obtain ⟨next, hnext, hrest⟩ := run_cons_ok hrun
      have hmore := ih (hstep count state event next hstart hmeets.1 hnext)
        (hmeets.2 next hnext) hrest
      rw [List.length_cons, Nat.add_comm rest.length, ← Nat.add_assoc]
      exact hmore

end Webserv.Machine
