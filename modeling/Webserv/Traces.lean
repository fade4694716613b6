import Webserv.Stored

namespace Webserv

open Cxx

/-! The outside world is what the record of acts has made of it, and what is
written goes to the file that its stream has opened last. -/

def Effect.opens? (writer : Writer) (effect : Effect) : Option Str :=
  match effect.entry? with
  | some (.opened other path) => if other = writer then some path else none
  | _ => none

def lastOpened (writer : Writer) (effects : List Effect) : Option Str :=
  (effects.filterMap (Effect.opens? writer)).getLast?

theorem lastOpened_concat (writer : Writer) (effects : List Effect)
    (effect : Effect) :
    lastOpened writer (effects ++ [effect]) =
      (effect.opens? writer).or (lastOpened writer effects) := by
  unfold lastOpened
  rw [List.filterMap_append, List.getLast?_append]
  congr 1
  cases hopens : effect.opens? writer with
  | none => simp [hopens]
  | some path => simp [hopens]

section Does

variable {W : Type} [Os W]

end Does

/-! One call. -/

section Calls

variable {W : Type}

/-- A stream that is open writes to the path it has opened last. -/
def Points (process : Process W) (writer : Writer) (file : OFStream) : Prop :=
  ∀ path, file.path = some path →
    lastOpened writer process.effects = some path

theorem Points.act {process process' : Process W} {writer : Writer}
    {file file' : OFStream} {effect : Effect}
    (h : Points process writer file)
    (heffects : process'.effects = process.effects ++ [effect])
    (hfile : ∀ path, file'.path = some path →
      effect.opens? writer = some path ∨
        effect.opens? writer = none ∧ file.path = some path) :
    Points process' writer file' := by
  intro path hpath
  rw [heffects, lastOpened_concat]
  rcases hfile path hpath with hopened | ⟨hnone, hold⟩
  · rw [hopened]
    rfl
  · rw [hnone, Option.none_or]
    exact h path hold

variable [Os W]

variable {start : W} {process process' : Process W} {client client' : Client}

end Calls

/-! Runs. -/

namespace Session

variable {W : Type} [Os W] {start : W}

end Session

namespace Server

variable {W : Type} [Os W] {server : Server W} {world : W}
  {blocks : List ServerBlock} {created : List ServerConfig}

end Server

end Webserv
