/-
**Resolved addresses lead downwards.**

A resolved address consists of names with single slashes between them: no segment is empty, `.` or
`..`. Working off the segments of an address keeps a stack of names with the `..` segments that
climb above the start at its bottom; resolving drops the latter.

* `collapse_eq`: what is left of an address are `..` segments followed by names;
* `dropParents_normalizeText`: without them only the names are left;
* `resolve_leadsDown`: a reference resolves to names, whatever the template that it is written in;
* `LeadsDown.resolve_eq`, `resolve_resolve`: seen from the top, such an address means itself;
* `LeadsDown.fullWay_eq`: the file at such an address is reached by these names from the base
  directory.
-/

import Stencil.Address
import Stencil.Store.Disk

namespace Stencil.Address

/-- **A name** is a segment that leads one step down. -/
structure IsName (segment : Segment) : Prop where
  nonempty : segment ≠ []
  ne_here : segment ≠ here
  ne_above : segment ≠ above
  noSlash : '/' ∉ segment

/-- **An address that leads down** along the given names. -/
def LeadsDown (path : List Char) (names : List Segment) : Prop :=
  (∀ name ∈ names, IsName name) ∧ path = join names

/-! ### Segments -/

theorem noSlash_of_mem_segments (path : List Char) :
    ∀ segment ∈ segments path, '/' ∉ segment := by
  unfold segments
  induction path with
  | nil => simp
  | cons c path ih =>
    rw [List.splitOn_cons_eq_if_modifyHead]
    split
    · simpa using ih
    · rename_i differ
      obtain ⟨first, rest, eq⟩ := List.exists_cons_of_ne_nil (List.splitOn_ne_nil '/' path)
      rw [eq] at ih ⊢
      intro segment member
      rcases List.mem_cons.mp member with rfl | member
      · have noSlash := ih first List.mem_cons_self
        simp only [beq_iff_eq] at differ
        simp [noSlash, Ne.symm differ]
      · exact ih segment (List.mem_cons_of_mem _ member)

/-- **Splitting undoes joining**, except that no segments at all are read as one empty segment. -/
theorem segments_join {parts : List Segment} (noSlash : ∀ part ∈ parts, '/' ∉ part) :
    segments (join parts) = if parts = [] then [[]] else parts := by
  split
  · rename_i none
    subst none
    simp [segments, join]
  · rename_i some
    exact List.splitOn_intercalate '/' noSlash some

/-- **Splitting at a slash** splits both sides of it. -/
theorem segments_append_slash (before after : List Char) :
    segments (before ++ '/' :: after) = segments before ++ segments after :=
  List.splitOnP_append_cons before after (beq_self_eq_true '/')

theorem join_cons_cons (first second : Segment) (rest : List Segment) :
    join (first :: second :: rest) = first ++ '/' :: join (second :: rest) := by
  simp [join, List.intercalate_cons_cons]

theorem join_ne_nil {first : Segment} {rest : List Segment} (nonempty : first ≠ []) :
    join (first :: rest) ≠ [] := by
  cases rest with
  | nil => simpa [join] using nonempty
  | cons second rest => simp [join_cons_cons]

/-- **A joined address does not start with a slash**, if its segments are not empty. -/
theorem isAbsolute_join {parts : List Segment}
    (solid : ∀ part ∈ parts, part ≠ [] ∧ '/' ∉ part) : isAbsolute (join parts) = false := by
  unfold isAbsolute join
  match parts with
  | [] => rfl
  | [] :: _ => exact absurd rfl (solid [] List.mem_cons_self).1
  | (c :: part) :: rest =>
    have differ : c ≠ '/' := fun same =>
      (solid (c :: part) List.mem_cons_self).2 (same ▸ List.mem_cons_self)
    cases rest <;> simp [List.intercalate, List.intersperse, differ]

/-- Slashes are taken off at the start only where there are some. -/
theorem dropWhile_slash_of_not_isAbsolute {path : List Char} (relative : isAbsolute path = false) :
    path.dropWhile (· = '/') = path := by
  cases path with
  | nil => rfl
  | cons c path =>
    have differ : c ≠ '/' := by simpa [isAbsolute] using relative
    simp [differ]

/-! ### The stack of segments -/

/-- **A stack of names over `..` segments**: those that climb above the start lie at the bottom, and
an absolute address has none. -/
def IsStack (absolute : Bool) (passed : List Segment) : Prop :=
  ∃ names climbs, passed = names ++ List.replicate climbs above ∧ (∀ name ∈ names, IsName name) ∧
    (absolute = true → climbs = 0)

/-- **One segment further it is still such a stack.** -/
theorem collapseStep_isStack {absolute : Bool} {passed : List Segment} {segment : Segment}
    (noSlash : '/' ∉ segment) (stack : IsStack absolute passed) :
    IsStack absolute (collapseStep absolute passed segment) := by
  obtain ⟨names, climbs, rfl, proper, bound⟩ := stack
  unfold collapseStep
  by_cases skipped : segment = [] ∨ segment = here
  · rw [if_pos skipped]
    exact ⟨names, climbs, rfl, proper, bound⟩
  rw [if_neg skipped]
  obtain ⟨nonempty, notHere⟩ := not_or.mp skipped
  by_cases climb : segment = above
  · rw [if_pos climb]
    match names, climbs with
    | [], 0 =>
      cases absolute with
      | true => exact ⟨[], 0, rfl, by simp, fun _ => rfl⟩
      | false => exact ⟨[], 1, rfl, by simp, by simp⟩
    | [], climbs + 1 =>
      -- an absolute address has no `..` at the bottom
      have relative : absolute = false := by
        cases absolute with
        | true => exact absurd (bound rfl) (Nat.succ_ne_zero climbs)
        | false => rfl
      subst relative
      exact ⟨[], climbs + 2, by simp [List.replicate_succ], by simp, by simp⟩
    | name :: names, climbs =>
      have isName := proper name List.mem_cons_self
      refine ⟨names, climbs, ?_, fun other member => proper other (List.mem_cons_of_mem _ member),
        bound⟩
      simp [isName.ne_above]
  · rw [if_neg climb]
    refine ⟨segment :: names, climbs, rfl, fun name member => ?_, bound⟩
    rcases List.mem_cons.mp member with rfl | member
    · exact ⟨nonempty, notHere, climb, noSlash⟩
    · exact proper name member

theorem foldl_collapseStep_isStack (absolute : Bool) {parts passed : List Segment}
    (noSlash : ∀ part ∈ parts, '/' ∉ part) (stack : IsStack absolute passed) :
    IsStack absolute (parts.foldl (collapseStep absolute) passed) := by
  induction parts generalizing passed with
  | nil => exact stack
  | cons part parts ih =>
    exact ih (fun other member => noSlash other (List.mem_cons_of_mem _ member))
      (collapseStep_isStack (noSlash part List.mem_cons_self) stack)

/-- **What is left of an address**: `..` segments, none if it is absolute, and names after them. -/
theorem collapse_eq (path : List Char) :
    ∃ climbs names, collapse path = List.replicate climbs above ++ names ∧
      (∀ name ∈ names, IsName name) ∧ (isAbsolute path = true → climbs = 0) := by
  have empty : IsStack (isAbsolute path) [] := ⟨[], 0, rfl, by simp, fun _ => rfl⟩
  obtain ⟨names, climbs, eq, proper, bound⟩ :=
    foldl_collapseStep_isStack (isAbsolute path) (noSlash_of_mem_segments path) empty
  refine ⟨climbs, names.reverse, ?_, by simpa using proper, bound⟩
  rw [collapse, eq, List.reverse_append, List.reverse_replicate]

/-! ### Resolving -/

theorem solid_of_names {names : List Segment} (proper : ∀ name ∈ names, IsName name) :
    ∀ part ∈ names, part ≠ [] ∧ '/' ∉ part :=
  fun name member => ⟨(proper name member).nonempty, (proper name member).noSlash⟩

theorem solid_of_climbs {climbs : Nat} {names : List Segment}
    (proper : ∀ name ∈ names, IsName name) :
    ∀ part ∈ List.replicate climbs above ++ names, part ≠ [] ∧ '/' ∉ part := by
  intro part member
  rcases List.mem_append.mp member with climb | name
  · rw [List.eq_of_mem_replicate climb]
    decide
  · exact solid_of_names proper part name

/-- **Dropping the parents of a joined address** drops the `.` and `..` segments it starts with. -/
theorem dropParents_join {parts : List Segment} (noSlash : ∀ part ∈ parts, '/' ∉ part) :
    dropParents (join parts) =
      join (parts.dropWhile fun segment => segment = here ∨ segment = above) := by
  rw [dropParents, segments_join noSlash]
  split
  · rename_i none
    subst none
    rfl
  · rfl

/-- **Only the names are left** when the parents of a joined address are dropped. -/
theorem dropParents_climbs (climbs : Nat) {names : List Segment}
    (proper : ∀ name ∈ names, IsName name) :
    dropParents (join (List.replicate climbs above ++ names)) = join names := by
  have keep : names.dropWhile (fun segment => segment = here ∨ segment = above) = names := by
    cases names with
    | nil => rfl
    | cons name names =>
      have isName := proper name List.mem_cons_self
      simp [isName.ne_here, isName.ne_above]
  rw [dropParents_join fun part member => (solid_of_climbs proper part member).2,
    List.dropWhile_append_of_pos, keep]
  intro part member
  simp [List.eq_of_mem_replicate member]

/-- **A normal form** is a slash and names, or `..` segments and names. -/
theorem normalizeText_eq (path : List Char) :
    ∃ climbs names, (∀ name ∈ names, IsName name) ∧
      (normalizeText path = '/' :: join names ∨
        normalizeText path = join (List.replicate climbs above ++ names)) := by
  obtain ⟨climbs, names, eq, proper, bound⟩ := collapse_eq path
  refine ⟨climbs, names, proper, ?_⟩
  unfold normalizeText
  rw [eq]
  split
  · rename_i absolute
    rw [bound absolute]
    exact Or.inl rfl
  · exact Or.inr rfl

/-- **Behind a slash**, names stay what they are when slashes are taken off. -/
theorem dropWhile_slash_names {names : List Segment} (proper : ∀ name ∈ names, IsName name) :
    ('/' :: join names).dropWhile (· = '/') = join names := by
  rw [List.dropWhile_cons_of_pos (by simp),
    dropWhile_slash_of_not_isAbsolute (isAbsolute_join (solid_of_names proper))]

/-- **Without its slashes and its parents a normal form leads down.** -/
theorem dropParents_normalizeText (path : List Char) :
    ∃ names, LeadsDown (dropParents ((normalizeText path).dropWhile (· = '/'))) names := by
  obtain ⟨climbs, names, proper, eq | eq⟩ := normalizeText_eq path
  · refine ⟨names, proper, ?_⟩
    rw [eq, dropWhile_slash_names proper]
    exact dropParents_climbs 0 proper
  · refine ⟨names, proper, ?_⟩
    rw [eq, dropWhile_slash_of_not_isAbsolute (isAbsolute_join (solid_of_climbs proper)),
      dropParents_climbs climbs proper]

/-- **A normal form that starts with a slash** leads down after its slashes. -/
theorem dropWhile_slash_normalizeText {path : List Char}
    (absolute : isAbsolute (normalizeText path) = true) :
    ∃ names, LeadsDown ((normalizeText path).dropWhile (· = '/')) names := by
  obtain ⟨climbs, names, proper, eq | eq⟩ := normalizeText_eq path
  · exact ⟨names, proper, by rw [eq, dropWhile_slash_names proper]⟩
  · rw [eq, isAbsolute_join (solid_of_climbs proper)] at absolute
    cases absolute

/-- **Every reference resolves to names**, whatever the template that it is written in. -/
theorem resolve_leadsDown (including reference : String) :
    ∃ names, LeadsDown (resolve including reference).toList names := by
  rw [resolve, String.toList_ofList, resolveText]
  simp only
  split
  · rename_i absolute
    exact dropWhile_slash_normalizeText absolute
  · split
    · exact dropParents_normalizeText _
    · exact dropParents_normalizeText _

/-! ### What leading down means -/

namespace LeadsDown

variable {path : List Char} {names others : List Segment}

/-- **No slash stands at the start.** -/
theorem head?_ne_slash (down : LeadsDown path names) : path.head? ≠ some '/' := by
  have relative := isAbsolute_join (solid_of_names down.1)
  rw [← down.2] at relative
  simpa [isAbsolute] using relative

/-- **No slash stands at the end.** -/
theorem getLast?_ne_slash (down : LeadsDown path names) : path.getLast? ≠ some '/' := by
  obtain ⟨proper, rfl⟩ := down
  induction names with
  | nil => simp [join]
  | cons name names ih =>
    have isName := proper name List.mem_cons_self
    cases names with
    | nil =>
      intro last
      exact isName.noSlash (List.mem_of_getLast? (by simpa [join] using last))
    | cons next names =>
      have last := ih fun other member => proper other (List.mem_cons_of_mem _ member)
      have filled : join (next :: names) ≠ [] := join_ne_nil
        (proper next (List.mem_cons_of_mem _ List.mem_cons_self)).nonempty
      have ends : (join (name :: next :: names)).getLast? = (join (next :: names)).getLast? := by
        rw [join_cons_cons, List.getLast?_append, List.getLast?_cons,
          List.getLast?_eq_some_getLast filled]
        rfl
      rwa [ends]

/-- Names are stacked as they come. -/
theorem foldl_collapseStep (absolute : Bool) {names passed : List Segment}
    (proper : ∀ name ∈ names, IsName name) :
    names.foldl (collapseStep absolute) passed = names.reverse ++ passed := by
  induction names generalizing passed with
  | nil => rfl
  | cons name names ih =>
    have isName := proper name List.mem_cons_self
    have stacked : collapseStep absolute passed name = name :: passed := by
      simp [collapseStep, isName.nonempty, isName.ne_here, isName.ne_above]
    rw [List.foldl_cons, stacked, ih fun other member => proper other (List.mem_cons_of_mem _ member),
      List.reverse_cons, List.append_assoc, List.singleton_append]

/-- **An address that leads down is in normal form.** -/
theorem normalizeText (down : LeadsDown path names) : Address.normalizeText path = path := by
  obtain ⟨proper, rfl⟩ := down
  have relative := isAbsolute_join (solid_of_names proper)
  have collapsed : collapse (join names) = names := by
    rw [collapse, relative, segments_join fun name member => (proper name member).noSlash]
    split
    · rename_i none
      subst none
      rfl
    · rw [foldl_collapseStep false proper, List.append_nil, List.reverse_reverse]
  rw [Address.normalizeText, if_neg (by simp [relative]), collapsed]

/-- **An address leads down along one way only.** -/
theorem unique (down : LeadsDown path names) (also : LeadsDown path others) :
    names = others := by
  obtain ⟨proper, rfl⟩ := down
  obtain ⟨otherProper, same⟩ := also
  have split : (if names = [] then [[]] else names) = if others = [] then [[]] else others := by
    rw [← segments_join fun name member => (proper name member).noSlash,
      ← segments_join fun name member => (otherProper name member).noSlash, same]
  -- an empty segment is no name
  have solid : [[]] ≠ names := fun same =>
    (proper [] (same ▸ List.mem_cons_self)).nonempty rfl
  have otherSolid : [[]] ≠ others := fun same =>
    (otherProper [] (same ▸ List.mem_cons_self)).nonempty rfl
  split at split
  · rename_i isEmpty
    split at split
    · rename_i otherEmpty
      exact isEmpty.trans otherEmpty.symm
    · exact absurd split otherSolid
  · split at split
    · exact absurd split.symm solid
    · exact split

/-- **Names with slashes between them** are an address that leads down. -/
theorem ofNames {names : List String} (proper : ∀ name ∈ names, IsName name.toList) :
    LeadsDown ("/".intercalate names).toList (names.map String.toList) := by
  refine ⟨fun name member => ?_, String.toList_intercalate⟩
  obtain ⟨name, isName, rfl⟩ := List.mem_map.mp member
  exact proper name isName

/-- **What comes before names** plays no part in an extension. -/
theorem extension_behind {path : String} (down : LeadsDown path.toList names) (some : names ≠ [])
    (base : String) : extension (base ++ "/" ++ path) = extension path := by
  obtain ⟨proper, eq⟩ := down
  have named : segments path.toList = names := by
    rw [eq, segments_join fun name member => (proper name member).noSlash, if_neg some]
  have kept : names.filter (fun part => part ≠ [] ∧ part ≠ here) = names :=
    List.filter_eq_self.mpr fun name member => by
      simpa using ⟨(proper name member).nonempty, (proper name member).ne_here⟩
  have whole : (base ++ "/" ++ path).toList = base.toList ++ '/' :: path.toList := by simp
  rw [extension, extension, whole, segments_append_slash, List.filter_append, named, kept,
    List.getLast?_append, List.getLast?_eq_some_getLast some, Option.some_or]

/-- **The file at the address** is reached by the names, one after the other, from the base
directory. -/
theorem fullWay_eq (down : LeadsDown path names) (base : String) :
    Store.Disk.fullWay base (String.ofList path) =
      Store.Disk.way base ++ names.map String.ofList := by
  obtain ⟨proper, rfl⟩ := down
  rw [Store.Disk.fullWay, Store.Disk.segments, String.toList_ofList,
    segments_join fun name member => (proper name member).noSlash]
  split
  · rename_i none
    subst none
    rfl
  · rw [List.filter_eq_self.mpr fun name member => by simpa using (proper name member).nonempty]

/-- **Seen from the top, an address that leads down means itself.** -/
theorem resolve_eq {path : String} (down : LeadsDown path.toList names) : resolve "" path = path := by
  have proper := down.1
  have relative : isAbsolute path.toList = false := by
    rw [down.2]
    exact isAbsolute_join (solid_of_names proper)
  have text : resolveText [] path.toList = path.toList := by
    have top : directory [] = [] := rfl
    rw [resolveText, down.normalizeText, top]
    dsimp only
    rw [if_neg (by simp [relative]), dropWhile_slash_of_not_isAbsolute relative, down.2]
    exact dropParents_climbs 0 proper
  rw [resolve, String.toList_empty, text, String.ofList_toList]

end LeadsDown

/-- **Seen from the top, a resolved address means itself.** -/
theorem resolve_resolve (including reference : String) :
    resolve "" (resolve including reference) = resolve including reference := by
  obtain ⟨names, down⟩ := resolve_leadsDown including reference
  exact down.resolve_eq

end Stencil.Address
