import Webserv.Config.Validity

namespace Webserv

open Cxx Coding Machine Reading

/-! The parts of a configuration file, and what `main` makes of them. -/

/-- A character that is no blank, in front of the first NUL. -/
def checkEmpt (line : Str) : Bool :=
  (cStr line).any fun c => c ≠ ' ' ∧ c ≠ '\n' ∧ c ≠ '\t'

def fullLine (line : Str) : Bool := line ≠ [] ∧ checkEmpt line

/-- A line up to its comment; a line that is not full is left as it is. -/
def cutComment (line : Str) : Str :=
  if fullLine line then line.takeWhile (· ≠ '#') else line

/-- The last full line from the line with index `i` on, `last` if there is
none. -/
def lastFullLine : Nat → Nat → List Str → Nat
  | _, last, [] => last
  | i, last, line :: rest =>
      lastFullLine (i + 1) (if fullLine line then i else last) rest

/-- The successive results of `std::getline` up to a semicolon. -/
def getpieces (text : Str) : List Str :=
  let pieces := text.splitOn ';'
  if pieces.getLast? = some [] then pieces.dropLast else pieces

def gluedText (text : Str) : Str := ((getlines text).map cutComment).flatten

/-- `none` for a file that is turned down. -/
def getParts (text : Str) : Except Fault (Option (List Str)) :=
  let lines := getlines text
  if lines = [] then .ok none
  else
    let last := lastFullLine 0 0 lines
    let lines := lines.map cutComment
    if last = 0 then .ok none
    else
      match lines[last]? with
      | none => .error .badSlot
      | some line => do
          let newlastline ← trimstr line
          if ';' ∈ newlastline then return none
          else
            let parts := getpieces lines.flatten
            if parts.any fun part => part = [] ∨ checkEmpt part = false then
              return none
            else return some parts

/-- What a `ServerConfig` is made from. -/
structure ListenerConfig where
  serverBlockIndex : Nat
  host : Str
  port : Int
  serverName : Str
  deriving DecidableEq, Repr

/-- One entry for each port. -/
def addServerConfig (configs : List ListenerConfig) (serverBlockIndex : Nat)
    (host : Str) (ports : List Int) (serverName : Str) : List ListenerConfig :=
  configs ++ ports.map fun port => ⟨serverBlockIndex, host, port, serverName⟩

/-- The loop of `main` over the servers. -/
def addServers (servers : List ServerBlock) : List ListenerConfig :=
  servers.zipIdx.foldl (fun configs (server, i) =>
    addServerConfig configs i server.host server.port server.serverNames) []

section Configure

variable {W : Type} [Os W]

/-- The servers of an accepted file, `none` for a file that is turned down. -/
def configure (world : W) (numbs : Nat → Int) (text : Str) :
    Except Fault (Option (List ServerBlock)) := do
  match ← getParts text with
  | none => return none
  | some parts => do
      let (_, conf) ← setServer world numbs parts
      return if conf.status then some conf.servers else none

variable {world world' : W} {numbs : Nat → Int} {text : Str}

theorem configure_of_none (hparts : getParts text = .ok none) :
    configure world numbs text = .ok none := by
  unfold configure
  rw [hparts]
  rfl

theorem configure_of_parts {parts : List Str}
    (hparts : getParts text = .ok (some parts))
    (hpage : setDefaultPage world = (world', true)) :
    configure world numbs text =
      (setServerLoop world' numbs (turns parts) {} ⟨parts, 0⟩).map
        fun conf => if conf.status then some conf.servers else none := by
  unfold configure
  rw [hparts]
  change (setServer world numbs parts >>= _) = _
  rw [setServer_of_page hpage]
  cases setServerLoop world' numbs (turns parts) {} ⟨parts, 0⟩ with
  | error fault => rfl
  | ok conf => rfl

end Configure

/-! The last full line. -/

theorem lastFullLine_cases (i last : Nat) (lines : List Str) :
    lastFullLine i last lines = last ∨
      ∃ line, lines[lastFullLine i last lines - i]? = some line ∧
        fullLine line = true ∧ i ≤ lastFullLine i last lines := by
  induction lines generalizing i last with
  | nil => exact .inl rfl
  | cons line rest ih =>
      rw [lastFullLine]
      by_cases hfull : fullLine line = true
      · rw [if_pos hfull]
        obtain hsame | ⟨other, hget, hother, hle⟩ := ih (i + 1) i
        · exact .inr ⟨line, by rw [hsame]; simp, hfull, by omega⟩
        · refine .inr ⟨other, ?_, hother, by omega⟩
          rw [← hget, show lastFullLine (i + 1) i rest - i =
            lastFullLine (i + 1) i rest - (i + 1) + 1 by omega,
            List.getElem?_cons_succ]
      · rw [if_neg hfull]
        obtain hsame | ⟨other, hget, hother, hle⟩ := ih (i + 1) last
        · exact .inl hsame
        · refine .inr ⟨other, ?_, hother, by omega⟩
          rw [← hget, show lastFullLine (i + 1) last rest - i =
            lastFullLine (i + 1) last rest - (i + 1) + 1 by omega,
            List.getElem?_cons_succ]

/-- A line of the file, `[]` behind its end. -/
def lastLine (text : Str) : Str :=
  ((getlines text)[lastFullLine 0 0 (getlines text)]?).getD []

/-- A file with a full line behind its first line. -/
def Filled (text : Str) : Prop := lastFullLine 0 0 (getlines text) ≠ 0

instance (text : Str) : Decidable (Filled text) :=
  inferInstanceAs (Decidable (_ ≠ _))

theorem Filled.lastLine {text : Str} (h : Filled text) :
    (getlines text)[lastFullLine 0 0 (getlines text)]? =
        some (lastLine text) ∧ fullLine (Webserv.lastLine text) = true := by
  obtain hzero | ⟨line, hget, hfull, -⟩ :=
    lastFullLine_cases 0 0 (getlines text)
  · exact absurd hzero h
  · rw [Nat.sub_zero] at hget
    have hline : Webserv.lastLine text = line := by
      rw [Webserv.lastLine, hget]
      rfl
    rw [hline]
    exact ⟨hget, hfull⟩

/-- A file that is cut into parts. -/
structure Admitted (text : Str) : Prop where
  filled : Filled text
  lastLine : ';' ∉ cutComment (lastLine text)
  parts : ∀ part ∈ getpieces (gluedText text),
    part ≠ [] ∧ checkEmpt part = true

end Webserv
