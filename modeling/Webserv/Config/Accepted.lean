import Webserv.Config.Syntax

namespace Webserv

open Cxx Coding

/-! What the value parsers return where they leave the status true. -/

theorem parsMethodsLoop_accepted {words methods : List Str}
    (h : (parsMethodsLoop words methods).2 = true) :
    parsMethodsLoop words methods =
      (methods ++ (words.filter (· ∉ methods)).eraseDups, true) := by
  induction words generalizing methods with
  | nil => simp [parsMethodsLoop]
  | cons word rest ih =>
      rw [parsMethodsLoop] at h ⊢
      by_cases hknown : word ∈ methods
      · rw [if_pos hknown] at h ⊢
        rw [ih h, List.filter_cons_of_neg (by simpa using hknown)]
      rw [if_neg hknown] at h ⊢
      split at h
      · cases h
      split at h
      · cases h
      rename_i hbrace hallowed
      have hrest : rest.filter (fun other => decide (other ∉ methods ++
          [word])) = rest.filter (fun other => !other == word &&
            decide (other ∉ methods)) := by
        refine List.filter_congr fun other _ => ?_
        by_cases hsame : other = word <;> simp [hsame]
      rw [if_neg hbrace, if_neg hallowed, ih h,
        List.filter_cons_of_pos (by simpa using hknown), List.eraseDups_cons,
        List.filter_filter, List.append_assoc, hrest]
      rfl

theorem parsMethods_accepted {name : Str} {methods : List Str}
    (h : (parsMethods (name :: methods)).2 = true) :
    parsMethods (name :: methods) = (methods.eraseDups, true) := by
  unfold parsMethods at h ⊢
  split at h
  · cases h
  · rename_i hlength
    rw [if_neg hlength, parsMethodsLoop_accepted h]
    simp

theorem parsCgiExtLoop_accepted {words extension : List Str}
    (h : (parsCgiExtLoop words extension).2 = true) :
    parsCgiExtLoop words extension = (extension ++ words, true) := by
  induction words generalizing extension with
  | nil => simp [parsCgiExtLoop]
  | cons word rest ih =>
      rw [parsCgiExtLoop] at h ⊢
      split at h
      · cases h
      split at h
      · cases h
      rename_i hdot hbrace
      rw [if_neg hdot, if_neg hbrace, ih h, List.append_assoc]
      rfl

theorem parsCgiExt_accepted {name : Str} {extension : List Str}
    (h : (parsCgiExt (name :: extension)).2 = true) :
    parsCgiExt (name :: extension) = (extension, true) := by
  unfold parsCgiExt at h ⊢
  split at h
  · cases h
  · rename_i hlength
    rw [if_neg hlength, parsCgiExtLoop_accepted h]
    rfl

theorem parsIndex_accepted {name : Str} {names : List Str}
    (h : (parsIndex (name :: names)).2 = true) :
    parsIndex (name :: names) = (names, true) := by
  unfold parsIndex at h ⊢
  split at h
  · cases h
  split at h
  · cases h
  rename_i hlength hbrace
  rw [if_neg hlength, if_neg hbrace]
  rfl

theorem parsServerNames_accepted {name word : Str}
    (h : (parsServerNames [name, word]).2 = true) :
    parsServerNames [name, word] = (word, true) := by
  unfold parsServerNames at h ⊢
  simp only at h ⊢
  split at h
  · cases h
  · rename_i hbrace
    rw [if_neg hbrace]

theorem getRedirection_accepted {name code url : Str}
    (h : (getRedirection [name, code, url]).2 = true) :
    getRedirection [name, code, url] = ([(extractInt code, url)], true) := by
  unfold getRedirection at h ⊢
  simp only at h ⊢
  split at h
  · cases h
  split at h
  · cases h
  split at h
  · cases h
  · rename_i hbrace hdigits hcode
    rw [if_neg hbrace, if_neg hdigits, if_neg hcode]

theorem errorPageCodes_accepted {page : Str} {codes : List Str}
    {pages : List (Int × Str)}
    (h : (errorPageCodes page codes pages).2 = true) :
    errorPageCodes page codes pages =
      (codes.foldl (fun pages code => codeAssign (extractInt code) page pages)
        pages, true) := by
  induction codes generalizing pages with
  | nil => rfl
  | cons code rest ih =>
      rw [errorPageCodes] at h ⊢
      split at h
      · cases h
      split at h
      · cases h
      rename_i hdigits hcode
      rw [if_neg hdigits, if_neg hcode, ih h]
      rfl

section Checks

variable {W : Type} [Os W] {world : W}

theorem getRoot_accepted {name path : Str}
    (h : (getRoot world [name, path]).2 = true) :
    getRoot world [name, path] = (path, true) := by
  unfold getRoot at h ⊢
  simp only at h ⊢
  split at h
  · cases h
  split at h
  · cases h
  split at h
  · cases h
  · rename_i hbrace hfound hkind
    rw [if_neg hbrace, if_neg hfound, if_neg hkind]

theorem parsErrorPages_accepted {name page : Str} {codes : List Str}
    (h : (parsErrorPages world (name :: (codes ++ [page]))).2 = true) :
    parsErrorPages world (name :: (codes ++ [page])) =
      (pageEntries codes page, true) := by
  have hlast : (name :: (codes ++ [page])).getLastD [] = page := by
    rw [← List.cons_append, List.getLastD_concat]
  have hcodes : (name :: (codes ++ [page])).tail.dropLast = codes := by
    simp
  unfold parsErrorPages at h ⊢
  simp only [hlast, hcodes] at h ⊢
  split at h
  · cases h
  split at h
  · cases h
  split at h
  · cases h
  split at h
  · cases h
  split at h
  · cases h
  rename_i hlength hbrace hfound hkind hread
  rw [if_neg hlength, if_neg hbrace, if_neg hfound, if_neg hkind,
    if_neg hread, errorPageCodes_accepted h]
  rfl

theorem RouteItem.Valid.routeDirective {item : RouteItem}
    (h : item.Valid world) (route : RouteBlock) :
    Webserv.routeDirective world route item.words =
      some (item.apply route, true) := by
  have haccepted := h.accepted
  cases item with
  | allowedMethods methods =>
      exact congrArg (fun parsed : List Str × Bool =>
        some (({ route with methods := parsed.1 } : RouteBlock), parsed.2))
        (parsMethods_accepted (Option.some.inj haccepted))
  | autoindex on => cases on <;> rfl
  | index names =>
      exact congrArg (fun parsed : List Str × Bool =>
        some (({ route with index := parsed.1 } : RouteBlock), parsed.2))
        (parsIndex_accepted (Option.some.inj haccepted))
  | cgiExtension extensions =>
      exact congrArg (fun parsed : List Str × Bool =>
        some (({ route with cgiExtension := parsed.1 } : RouteBlock),
          parsed.2)) (parsCgiExt_accepted (Option.some.inj haccepted))
  | clientBodyTempPath path =>
      have hstatus : (getRoot world
          ["client_body_temp_path".toList, path]).2 = true :=
        Option.some.inj haccepted
      exact congrArg (fun parsed : Str × Bool =>
        some (({ route with clientBodyTempPath := parsed.1 } : RouteBlock),
          parsed.2)) (getRoot_accepted hstatus)
  | root path =>
      have hstatus : (getRoot world ["root".toList, path]).2 = true :=
        Option.some.inj haccepted
      exact congrArg (fun parsed : Str × Bool =>
        some (({ route with root := parsed.1 } : RouteBlock), parsed.2))
        (getRoot_accepted hstatus)
  | redirect code url =>
      have hstatus : (getRedirection ["return".toList, code, url]).2 =
          true := Option.some.inj haccepted
      exact congrArg (fun parsed : List (Int × Str) × Bool =>
        some (({ route with
          redirections := codeInsertAll parsed.1 route.redirections } :
            RouteBlock), parsed.2))
        (getRedirection_accepted hstatus)

end Checks

end Webserv
