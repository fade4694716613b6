namespace Webserv.Machine

/-! Loops with a bounded number of turns: more turns change a result only where
the loop has run out of them. -/

variable {ε α β : Type} {runsOut : ε}

/-- The later result is the same, unless the loop has run out of turns. -/
def Extends (runsOut : ε) (result later : Except ε α) : Prop :=
  result = .error runsOut ∨ later = result

namespace Extends

variable {result later : Except ε α}

theorem refl (result : Except ε α) : Extends runsOut result result :=
  .inr rfl

theorem eq_of_ne (h : Extends runsOut result later)
    (hne : result ≠ .error runsOut) : later = result :=
  h.resolve_left hne

theorem bind {next next' : α → Except ε β} (h : Extends runsOut result later)
    (hnext : ∀ value, Extends runsOut (next value) (next' value)) :
    Extends runsOut (result >>= next) (later >>= next') := by
  rcases h with rfl | rfl
  · exact .inl rfl
  · cases later with
    | error error => exact .inr rfl
    | ok value => exact hnext value

theorem ite {condition : Prop} [Decidable condition]
    {result' later' : Except ε α} (h : Extends runsOut result later)
    (h' : Extends runsOut result' later') :
    Extends runsOut (if condition then result else result')
      (if condition then later else later') := by
  split
  · exact h
  · exact h'

end Extends

end Webserv.Machine
