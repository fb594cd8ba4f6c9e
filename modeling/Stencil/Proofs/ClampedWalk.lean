/-
**Resolving a reference is a walk that stops at the top.**

The segments of a reference are gone through one after the other, on a stack of the names that lead to
where the walk is: `..` takes the last name back and does nothing at the top. The walk starts at the
top if the reference starts with a slash, otherwise in the directory of the template that the
reference is written in.

* `walk`, `walkStart`: **the walk**;
* `walk_normalizeText`, `walk_dropParents`: working off `.` and `..` first, and dropping the `..` that
  lead above the top, change nothing for the walk;
* `LeadsDown.walk_eq`: names are walked as they stand;
* `resolve_eq_walk`: **a reference resolves to the names that the walk leaves**.
-/

import Mathlib.Data.List.TakeWhile
import Stencil.Proofs.ResolvedAddress

namespace Stencil.Address

/-! ### The walk -/

/-- **One segment further**, on the stack of names, the last one first: `..` takes back the last name,
if there is one; an empty segment and `.` stay where they are. -/
def walkStep (stack : List Segment) (segment : Segment) : List Segment :=
  if segment = [] ∨ segment = here then stack
  else if segment = above then stack.tail
  else segment :: stack

/-- **The names that lead to the end of a path**, the last one first, from where `stack` leads. -/
def walk (stack : List Segment) (path : List Char) : List Segment :=
  (segments path).foldl walkStep stack

/-- Where the walk of a reference starts: at the top, or where the directory of `including` leads. -/
def walkStart (including reference : List Char) : List Segment :=
  if isAbsolute reference then [] else walk [] (directory including)

@[simp] theorem walkStep_above (stack : List Segment) : walkStep stack above = stack.tail := by
  rw [walkStep, if_neg (by decide), if_pos rfl]

theorem walkStep_name {name : Segment} (isName : IsName name) (stack : List Segment) :
    walkStep stack name = name :: stack := by
  rw [walkStep, if_neg (not_or.mpr ⟨isName.nonempty, isName.ne_here⟩), if_neg isName.ne_above]

/-! ### The directory of a template -/

/-- **The directory** is what comes before the last slash. -/
theorem directory_append_slash (folder : List Char) {name : List Char} (noSlash : '/' ∉ name) :
    directory (folder ++ '/' :: name) = folder := by
  have passed : (folder ++ '/' :: name).reverse.dropWhile (· ≠ '/') = '/' :: folder.reverse := by
    rw [List.reverse_append, List.reverse_cons, List.append_assoc, List.dropWhile_append_of_pos]
    · rfl
    · intro c member
      simpa using ne_of_mem_of_not_mem (List.mem_reverse.mp member) noSlash
  rw [directory, passed, List.tail_cons, List.reverse_reverse]

/-- Without a slash there is none. -/
theorem directory_of_noSlash {file : List Char} (noSlash : '/' ∉ file) : directory file = [] := by
  have passed : file.reverse.dropWhile (· ≠ '/') = [] := by
    rw [List.dropWhile_eq_nil_iff]
    intro c member
    simpa using ne_of_mem_of_not_mem (List.mem_reverse.mp member) noSlash
  rw [directory, passed]
  rfl

/-! ### What the walk does not see -/

/-- **A path behind a slash** is walked after the path before it. -/
theorem walk_append_slash (stack : List Segment) (before after : List Char) :
    walk stack (before ++ '/' :: after) = walk (walk stack before) after := by
  rw [walk, segments_append_slash, List.foldl_append]
  rfl

/-- A slash at the start is not seen. -/
theorem walk_slash (stack : List Segment) (path : List Char) :
    walk stack ('/' :: path) = walk stack path :=
  walk_append_slash stack [] path

theorem walk_dropWhile_slash (stack : List Segment) (path : List Char) :
    walk stack (path.dropWhile (· = '/')) = walk stack path := by
  induction path with
  | nil => rfl
  | cons c path ih =>
    by_cases slash : c = '/'
    · rw [List.dropWhile_cons_of_pos (by simpa using slash), ih, slash, walk_slash]
    · rw [List.dropWhile_cons_of_neg (by simpa using slash)]

/-- **Joined segments are walked one after the other.** -/
theorem walk_join (stack : List Segment) {parts : List Segment}
    (noSlash : ∀ part ∈ parts, '/' ∉ part) :
    walk stack (join parts) = parts.foldl walkStep stack := by
  rw [walk, segments_join noSlash]
  split
  · rename_i none
    rw [none]
    rfl
  · rfl

/-- **What working off one segment leaves** is walked like the segment itself. An absolute path is
walked from the top, where `..` stays. -/
theorem walk_collapseStep {absolute : Bool} {passed stack : List Segment} (segment : Segment)
    (top : absolute = true → stack = []) (isStack : IsStack absolute passed) :
    (collapseStep absolute passed segment).reverse.foldl walkStep stack =
      walkStep (passed.reverse.foldl walkStep stack) segment := by
  unfold collapseStep
  by_cases skipped : segment = [] ∨ segment = here
  · rw [walkStep, if_pos skipped, if_pos skipped]
  rw [if_neg skipped]
  by_cases climb : segment = above
  · rw [if_pos climb, climb]
    obtain ⟨names, climbs, rfl, proper, bound⟩ := isStack
    match names, climbs with
    | [], 0 =>
      cases absolute with
      | true => simp [top rfl, walkStep]
      | false => rfl
    | [], climbs + 1 =>
      -- an absolute path has no `..` left
      have relative : absolute = false := by
        cases absolute with
        | true => exact absurd (bound rfl) (Nat.succ_ne_zero climbs)
        | false => rfl
      subst relative
      simp [List.replicate_succ]
    | name :: names, climbs =>
      have isName := proper name List.mem_cons_self
      simp [walkStep_name isName, isName.ne_above]
  · rw [if_neg climb, List.reverse_cons, List.foldl_append]
    rfl

theorem walk_foldl_collapseStep {absolute : Bool} {passed stack parts : List Segment}
    (noSlash : ∀ part ∈ parts, '/' ∉ part) (top : absolute = true → stack = [])
    (isStack : IsStack absolute passed) :
    (parts.foldl (collapseStep absolute) passed).reverse.foldl walkStep stack =
      parts.foldl walkStep (passed.reverse.foldl walkStep stack) := by
  induction parts generalizing passed with
  | nil => rfl
  | cons part parts ih =>
    have kept := collapseStep_isStack (noSlash part List.mem_cons_self) isStack
    rw [List.foldl_cons, List.foldl_cons, ← walk_collapseStep part top isStack]
    exact ih (fun other member => noSlash other (List.mem_cons_of_mem _ member)) kept

/-! ### The stages of resolving -/

/-- **The normal form of a path** is walked like the path itself. -/
theorem walk_normalizeText {stack : List Segment} {path : List Char}
    (top : isAbsolute path = true → stack = []) :
    walk stack (normalizeText path) = walk stack path := by
  have empty : IsStack (isAbsolute path) [] := ⟨[], 0, rfl, by simp, fun _ => rfl⟩
  have collapsed : (collapse path).foldl walkStep stack = walk stack path :=
    walk_foldl_collapseStep (noSlash_of_mem_segments path) top empty
  obtain ⟨climbs, names, eq, proper, -⟩ := collapse_eq path
  have noSlash : ∀ part ∈ collapse path, '/' ∉ part := by
    rw [eq]
    exact fun part member => (solid_of_climbs proper part member).2
  unfold normalizeText
  split
  · rw [walk_slash, walk_join stack noSlash, collapsed]
  · rw [walk_join stack noSlash, collapsed]

/-- **A normal form keeps the slash at the start**, and gets none. -/
theorem isAbsolute_normalizeText (path : List Char) :
    isAbsolute (normalizeText path) = isAbsolute path := by
  obtain ⟨climbs, names, eq, proper, -⟩ := collapse_eq path
  unfold normalizeText
  split
  · rename_i absolute
    rw [absolute]
    rfl
  · rename_i relative
    rw [eq, isAbsolute_join (solid_of_climbs proper), Bool.not_eq_true _ |>.mp relative]

/-- **Segments that lead above the top** are not seen from the top. -/
theorem walk_dropParents (path : List Char) : walk [] (dropParents path) = walk [] path := by
  have kept : ∀ parts : List Segment,
      (parts.dropWhile fun segment => segment = here ∨ segment = above).foldl walkStep [] =
        parts.foldl walkStep [] := by
    intro parts
    induction parts with
    | nil => rfl
    | cons part parts ih =>
      by_cases parent : part = here ∨ part = above
      · have stays : walkStep [] part = [] := by rcases parent with rfl | rfl <;> decide
        rw [List.dropWhile_cons_of_pos (by simpa using parent), ih, List.foldl_cons, stays]
      · rw [List.dropWhile_cons_of_neg (by simpa using parent)]
  rw [dropParents, walk_join, kept]
  · rfl
  · exact fun part member =>
      noSlash_of_mem_segments path part ((List.dropWhile_sublist _).subset member)

theorem foldl_walkStep_names {names : List Segment} (proper : ∀ name ∈ names, IsName name)
    (stack : List Segment) : names.foldl walkStep stack = names.reverse ++ stack := by
  induction names generalizing stack with
  | nil => rfl
  | cons name names ih =>
    rw [List.foldl_cons, walkStep_name (proper name List.mem_cons_self),
      ih fun other member => proper other (List.mem_cons_of_mem _ member), List.reverse_cons,
      List.append_assoc, List.singleton_append]

/-- **Names are walked as they stand.** -/
theorem LeadsDown.walk_eq {path : List Char} {names : List Segment} (down : LeadsDown path names) :
    walk [] path = names.reverse := by
  obtain ⟨proper, rfl⟩ := down
  rw [walk_join [] fun name member => (proper name member).noSlash, foldl_walkStep_names proper,
    List.append_nil]

/-- **Seen from the top**, what a reference resolves to is where its walk ends. -/
theorem walk_resolveText (including reference : List Char) :
    walk [] (resolveText including reference) = walk (walkStart including reference) reference := by
  unfold resolveText walkStart
  simp only [isAbsolute_normalizeText]
  by_cases absolute : isAbsolute reference = true
  · rw [if_pos absolute, if_pos absolute, walk_dropWhile_slash, walk_normalizeText fun _ => rfl]
  · have relative : ∀ stack : List Segment, isAbsolute reference = true → stack = [] :=
      fun _ isAbsolute => absurd isAbsolute absolute
    rw [if_neg absolute, if_neg absolute, walk_dropParents, walk_dropWhile_slash]
    split
    · rename_i top
      rw [top]
      exact walk_normalizeText (relative _)
    · rw [walk_normalizeText fun _ => rfl, walk_append_slash, walk_normalizeText (relative _)]

/-- **A reference resolves to the names that its walk leaves**, whatever the template that it is
written in; hence an address that was resolved already means itself, seen from the top. -/
theorem resolve_eq_walk (including reference : String) :
    resolve including reference =
        String.ofList (join (walk (walkStart including.toList reference.toList)
          reference.toList).reverse) ∧
      resolve "" (resolve including reference) = resolve including reference := by
  obtain ⟨names, down⟩ := resolve_leadsDown including reference
  have walked := down.walk_eq
  rw [resolve, String.toList_ofList, walk_resolveText] at walked
  refine ⟨?_, resolve_resolve including reference⟩
  rw [walked, List.reverse_reverse, ← down.2, String.ofList_toList]

example : walk (walkStart "/a/..x/../b.html".toList "..././/../../c".toList) "..././/../../c".toList =
    ["c".toList] := by
  decide

end Stencil.Address
