import Mathlib.Data.List.Basic

namespace Webserv.Machine

/-! Pipes of bounded capacity, first in, first out. -/

structure Pipe (α : Type) (capacity : Nat) where
  items : List α
  fits : items.length ≤ capacity
  deriving DecidableEq, Repr

namespace Pipe

variable {α : Type} {capacity : Nat}

def empty : Pipe α capacity := ⟨[], Nat.zero_le _⟩

instance : Inhabited (Pipe α capacity) := ⟨empty⟩

@[simp] theorem empty_items : (empty : Pipe α capacity).items = [] := rfl

def Full (pipe : Pipe α capacity) : Prop := pipe.items.length = capacity

instance (pipe : Pipe α capacity) : Decidable pipe.Full :=
  inferInstanceAs (Decidable (pipe.items.length = capacity))

/-- The pipe with something more at its end, where there is room for it. -/
def put (pipe : Pipe α capacity) (more : List α) : Option (Pipe α capacity) :=
  if h : (pipe.items ++ more).length ≤ capacity then some ⟨pipe.items ++ more, h⟩
  else none

def drop (pipe : Pipe α capacity) (count : Nat) : Pipe α capacity where
  items := pipe.items.drop count
  fits := by
    rw [List.length_drop]
    exact Nat.le_trans (Nat.sub_le _ _) pipe.fits

@[simp] theorem drop_items (pipe : Pipe α capacity) (count : Nat) :
    (pipe.drop count).items = pipe.items.drop count := rfl

theorem put_eq_some_iff {pipe next : Pipe α capacity} {more : List α} :
    pipe.put more = some next ↔ next.items = pipe.items ++ more := by
  unfold put
  constructor
  · intro h
    split at h
    · rw [← Option.some.inj h]
    · cases h
  · intro h
    rw [dif_pos (h ▸ next.fits)]
    congr 1
    cases next
    simp only at h
    simp [h]

theorem exists_put {pipe : Pipe α capacity} {more : List α}
    (h : pipe.items.length + more.length ≤ capacity) :
    ∃ next, pipe.put more = some next ∧ next.items = pipe.items ++ more := by
  have hfits : (pipe.items ++ more).length ≤ capacity := by
    rw [List.length_append]
    exact h
  exact ⟨⟨pipe.items ++ more, hfits⟩, dif_pos hfits, rfl⟩

theorem exists_put_one {pipe : Pipe α capacity} (h : ¬pipe.Full) (item : α) :
    ∃ next, pipe.put [item] = some next ∧
      next.items = pipe.items ++ [item] := by
  refine exists_put ?_
  have hfits := pipe.fits
  have hfull : pipe.items.length ≠ capacity := h
  simp only [List.length_singleton]
  omega

end Pipe

end Webserv.Machine
