import Webserv.ChunkedUpload
import Webserv.Decoding

namespace Webserv

open Cxx

/-! The upload decoders return on any input, and stay inside their texts. -/

/-! The loop of `chunked`. -/

section Chunked

variable {W : Type} {handle : Handler W}

variable {fine : Process W → Client → Prop}

end Chunked

/-! The search for a file name in `hanlde_post_request`. -/

section Post

variable {W : Type} [Os W]

end Post

/-! `boundary` and `create_file`. -/

section Boundary

variable {W : Type} [Os W] {process : Process W} {client : Client}

def Named (process : Process W) : Prop :=
  process.part.callCount = 0 ∨ process.part.boundaryStr ≠ []

end Boundary

/-! The characters that are looked at by their index. -/

instance : Os Vacant where
  stat _ _ := none
  access _ _ _ := false
  readdir _ _ := none
  openRead _ _ := none
  openWrite _ _ := none
  write world _ _ := (world, 0)
  remove _ _ := none
  run world _ := (world, .exited 1 [])
  nameBound _ := 0

end Webserv
