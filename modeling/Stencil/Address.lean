/-
**Addresses of templates**: segments with slashes between them.

* `Address.normalize`: `.` and empty segments are dropped, `..` takes back the segment before it;
* `Address.resolve`: a reference as seen from the template it is written in; what comes out has no
  `.`, `..` or empty segment and does not start with a slash;
* `Address.extension`: what follows the last dot of the last segment.
-/

namespace Stencil.Address

/-- A piece of an address between slashes. -/
abbrev Segment := List Char

/-- The segment for the directory itself. -/
def here : Segment := ['.']

/-- The segment for the directory above. -/
def above : Segment := ['.', '.']

/-- The pieces between slashes, the empty ones included. -/
def segments (path : List Char) : List Segment :=
  path.splitOn '/'

/-- Segments with slashes between them. -/
def join (parts : List Segment) : List Char :=
  List.intercalate ['/'] parts

/-- An absolute address starts with a slash. -/
def isAbsolute (path : List Char) : Bool :=
  path.head? = some '/'

/-- **One segment further**, on the segments gone through so far, the last one first: `..` takes back
a segment that is no `..` itself; at the start it stays, unless the address is absolute. -/
def collapseStep (absolute : Bool) (passed : List Segment) (segment : Segment) : List Segment :=
  if segment = [] ∨ segment = here then passed
  else if segment = above then
    match passed with
    | [] => if absolute then [] else [above]
    | last :: rest =>
      if last ≠ above then rest else if absolute then passed else above :: passed
  else segment :: passed

/-- The segments of an address that are left after `.`, `..` and empty ones are worked off. -/
def collapse (path : List Char) : List Segment :=
  ((segments path).foldl (collapseStep (isAbsolute path)) []).reverse

/-- **The normal form of an address**, on characters. -/
def normalizeText (path : List Char) : List Char :=
  if isAbsolute path then '/' :: join (collapse path) else join (collapse path)

/-- What comes before the last slash; nothing if there is none. -/
def directory (file : List Char) : List Char :=
  (file.reverse.dropWhile (· ≠ '/')).tail.reverse

/-- The address without the `.` and `..` segments it starts with. -/
def dropParents (path : List Char) : List Char :=
  join ((segments path).dropWhile fun segment => segment = here ∨ segment = above)

/-- **The address that a reference means**, on characters. -/
def resolveText (including reference : List Char) : List Char :=
  let normal := normalizeText reference
  if isAbsolute normal then normal.dropWhile (· = '/')
  else
    let joined :=
      match directory including with
      | [] => normal
      | above => normalizeText (above ++ '/' :: normal)
    dropParents (joined.dropWhile (· = '/'))

/-- **The normal form of an address.** A leading slash is kept; a `..` that climbs above the start is
kept in a relative address and dropped in an absolute one. -/
def normalize (path : String) : String :=
  String.ofList (normalizeText path.toList)

/-- **The address that `reference` means in the template `including`.** A leading slash means the top
directory, anything else the directory of `including`; nothing leads above the top. -/
def resolve (including reference : String) : String :=
  String.ofList (resolveText including.toList reference.toList)

/-- What follows the last dot of a name, unless that dot is its first character. -/
def nameExtension (name : Segment) : Option (List Char) :=
  let after := name.reverse.takeWhile (· ≠ '.')
  match name.reverse.dropWhile (· ≠ '.') with
  | _ :: _ :: _ => some after.reverse
  | _ => none

/-- **The extension of an address**: that of its last segment, where `.` and empty segments do not
count and `..` has none. -/
def extension (path : String) : Option String :=
  match ((segments path.toList).filter fun part => part ≠ [] ∧ part ≠ here).getLast? with
  | none => none
  | some name => if name = above then none else (nameExtension name).map String.ofList

example : resolve "pages/blog/post.html" "../base.html" = "pages/base.html" := by decide

example : resolve "a/post.html" "../../../base.html" = "base.html" := by decide

example : extension "a/b.tar.gz" = some "gz" ∧ extension ".html" = none ∧ extension "x." = some "" := by
  decide

end Stencil.Address
