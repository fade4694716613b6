import Webserv.ServerBlock
import Webserv.Cxx.Stream

namespace Webserv

open Cxx

/-! The parsers of the single directives.  Each is given the words of its
directive, and tells beside its result whether the status is still true. -/

def hasBrace (word : Str) : Bool := decide ('{' ∈ word ∨ '}' ∈ word)

/-- `find('{')` splits a line at most once. -/
def splitBrace (line : Str) : List Str :=
  match search? ['{'] line with
  | some found => [line.take found, line.drop (found + 1)]
  | none => [line]

def splitWords (line : Str) : List Str :=
  if '.' ∈ line then line.splitOn '.' else []

/-- The length of an empty text is decremented below zero, and the text is
read far behind its end. -/
def trimstr (str : Str) : Except Fault Str :=
  if str = [] then .error .badSlot else .ok (trimBy (· = ' ') str)

/-- `map[key] = value`, on the entries in the order of their keys. -/
def codeAssign (key : Int) (value : Str) :
    List (Int × Str) → List (Int × Str)
  | [] => [(key, value)]
  | (k, v) :: rest =>
      if key = k then (key, value) :: rest
      else if key < k then (key, value) :: (k, v) :: rest
      else (k, v) :: codeAssign key value rest

/-- `map.insert` leaves an entry that is there already. -/
def codeInsert (key : Int) (value : Str) :
    List (Int × Str) → List (Int × Str)
  | [] => [(key, value)]
  | (k, v) :: rest =>
      if key = k then (k, v) :: rest
      else if key < k then (key, value) :: (k, v) :: rest
      else (k, v) :: codeInsert key value rest

def codeInsertAll (entries map : List (Int × Str)) : List (Int × Str) :=
  entries.foldl (fun map entry => codeInsert entry.1 entry.2 map) map

section Checks

variable {W : Type} [Os W]

def checkPath (world : W) (path : Str) : Bool :=
  (Os.stat world (cStr path)).isSome

/-- 1 for a file, 0 for a directory, 2 for anything else. -/
def checkType (world : W) (path : Str) : Nat :=
  match Os.stat world (cStr path) with
  | none => 2
  | some info =>
      match info.kind with
      | .regular => 1
      | .directory => 0
      | .other => 2

end Checks

/-! Hosts and ports. -/

def hasDoubleDot : Str → Bool
  | '.' :: '.' :: _ => true
  | c :: rest => if c = '\x00' then false else hasDoubleDot rest
  | [] => false

/-- `>>` of an `int` leaves its target as it was at the end of the text. -/
def extractIntInto (s : Str) (numb : Int) : Int :=
  if s = [] then numb else extractInt s

/-- The loop over the octets; the number is that of the octet before until it
is read. -/
def checkOctets : Int → List Str → Bool
  | _, [] => true
  | numb, octet :: rest =>
      if (cStr octet).all isdigit = false then false
      else if octet.head? = some '0' ∧ 1 < octet.length then false
      else
        let numb := extractIntInto octet numb
        if numb > 255 ∨ numb < 0 then false else checkOctets numb rest

/-- `numb` is what the uninitialised variable holds at first. -/
def parsHost (numb : Int) (words : List Str) : Str × Bool :=
  match words with
  | [_, address] =>
      if hasBrace address then ([], false)
      else if address = "localhost".toList then ("127.0.0.1".toList, true)
      else if hasDoubleDot address then ([], false)
      else
        let octets := splitWords address
        if octets.length ≠ 4 then ([], false)
        else if checkOctets numb octets = false then ([], false)
        else (address, true)
  | _ => ([], false)

def parsPort (words : List Str) : Int × Bool :=
  match words with
  | [_, port] =>
      if (cStr port).all isdigit = false then (-1, false)
      else
        let portnumbr := extractInt port
        if portnumbr < 1 ∨ portnumbr > 65535 then (-1, false)
        else (portnumbr, true)
  | _ => (-1, false)

/-! The other values of a server block. -/

/-- The one argument of a directive that takes any word without a brace. -/
def parsServerNames (words : List Str) : Str × Bool :=
  match words with
  | [_, name] => if hasBrace name then ([], false) else (name, true)
  | _ => ([], false)

def parsIndex (words : List Str) : List Str × Bool :=
  if words.length = 1 then ([], false)
  else if words.any hasBrace then ([], false)
  else (words.tail, true)

def sizeUnit (c : Char) : Option Nat :=
  if c = 'G' ∨ c = 'g' then some (1024 * 1024 * 1024)
  else if c = 'M' ∨ c = 'm' then some (1024 * 1024)
  else if c = 'K' ∨ c = 'k' then some 1024
  else none

/-- The unit is overwritten with a NUL before the number is read. -/
def parsCbs (words : List Str) : Nat × Bool :=
  match words with
  | [_, size] =>
      if size.dropLast.all isdigit = false then (0, false)
      else
        match size.getLast? with
        | none => (0, false)
        | some last =>
            if isdigit last then ((extractSizeT size).1, true)
            else
              match sizeUnit last with
              | some unit =>
                  ((extractSizeT (size.dropLast ++ ['\x00'])).1 * unit % 2 ^ 64,
                    true)
              | none => (0, false)
  | _ => (0, false)

def errorCodes : List Int :=
  [500, 504, 415, 201, 505, 413, 502, 200, 400, 405, 403, 401, 404]

/-- The loop over the codes; what has been entered before an invalid one
stays. -/
def errorPageCodes (page : Str) :
    List Str → List (Int × Str) → List (Int × Str) × Bool
  | [], pages => (pages, true)
  | word :: rest, pages =>
      if word.all isdigit = false then (pages, false)
      else if extractInt word ∉ errorCodes then (pages, false)
      else errorPageCodes page rest (codeAssign (extractInt word) page pages)

section Server

variable {W : Type} [Os W]

def parsErrorPages (world : W) (words : List Str) :
    List (Int × Str) × Bool :=
  if words.length < 3 then ([], false)
  else
    let page := words.getLastD []
    if hasBrace page then ([], false)
    else if checkPath world page = false then ([], false)
    else if checkType world page ≠ 1 then ([], false)
    else if Os.access world (cStr page) .read = false then ([], false)
    else errorPageCodes page words.tail.dropLast []

def getRoot (world : W) (words : List Str) : Str × Bool :=
  match words with
  | [_, root] =>
      if hasBrace root then ([], false)
      else if checkPath world root = false then ([], false)
      else if checkType world root ≠ 0 then ([], false)
      else (root, true)
  | _ => ([], false)

end Server

/-! The values of a location. -/

/-- A method that is named again is passed over. -/
def parsMethodsLoop : List Str → List Str → List Str × Bool
  | [], methods => (methods, true)
  | word :: rest, methods =>
      if word ∈ methods then parsMethodsLoop rest methods
      else if hasBrace word then (methods, false)
      else if word ≠ "GET".toList ∧ word ≠ "POST".toList ∧
          word ≠ "DELETE".toList then (methods, false)
      else parsMethodsLoop rest (methods ++ [word])

def parsMethods (words : List Str) : List Str × Bool :=
  if words.length = 1 then ([], false)
  else parsMethodsLoop words.tail []

def parsAutoindex (words : List Str) : Bool × Bool :=
  match words with
  | [_, word] =>
      if word = "on".toList then (true, true)
      else if word = "off".toList then (false, true)
      else (false, false)
  | _ => (false, false)

def parsCgiExtLoop : List Str → List Str → List Str × Bool
  | [], extension => (extension, true)
  | word :: rest, extension =>
      if word.head? ≠ some '.' then (extension, false)
      else if hasBrace word then (extension, false)
      else parsCgiExtLoop rest (extension ++ [word])

def parsCgiExt (words : List Str) : List Str × Bool :=
  if words.length = 1 then ([], false)
  else parsCgiExtLoop words.tail []

section Route

variable {W : Type} [Os W]

def parsTempPath (world : W) (words : List Str) : Str × Bool :=
  getRoot world words

end Route

def redirectionCodes : List Int := [301, 302, 303, 307, 308]

def getRedirection (words : List Str) : List (Int × Str) × Bool :=
  match words with
  | [_, code, url] =>
      if hasBrace url then ([], false)
      else if code.all isdigit = false then ([], false)
      else if extractInt code ∉ redirectionCodes then ([], false)
      else ([(extractInt code, url)], true)
  | _ => ([], false)

end Webserv
