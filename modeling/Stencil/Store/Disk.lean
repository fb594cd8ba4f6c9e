/-
**Templates in a tree of directories.**

An address is a way through the tree, walked segment by segment: `.` stays in the directory, `..`
goes to the one above it, a name goes to what it stands for. So `x/../y` leads nowhere as long as
there is no directory `x`, and `Disk.put` at `x/../y` makes one.

* `Disk.load`: the text of a file below a base directory;
* `Disk.list`: the files below it with an extension;
* `Disk.put`, `Disk.makeDirectory`, `Disk.remove`: changes to the tree.
-/

import Stencil.Address
import Stencil.Assoc
import Stencil.Store.Loader

namespace Stencil.Store

/-- **What a name in a directory stands for.** -/
inductive Entry
  | file (bytes : ByteArray)
  | directory (entries : List (String × Entry))

instance : Inhabited Entry := ⟨.directory []⟩

/-- **A tree of directories**: what its top directory holds, and what each directory above that one
holds besides the way down to it. -/
structure Disk where
  /-- The entries of the top directory first, then those of the directories above it, the nearest
  first. Directories further above are empty. -/
  levels : List (Assoc Entry)
  deriving Inhabited

namespace Disk

/-- An empty tree. -/
def empty : Disk := ⟨[]⟩

/-- What the top directory holds. -/
def entries (disk : Disk) : Assoc Entry :=
  disk.levels.headD []

/-- The directories above the top, the nearest first. -/
def above (disk : Disk) : List Entry :=
  disk.levels.tail.map .directory

/-! ### Ways -/

/-- The non-empty segments of an address. -/
def segments (address : String) : List String :=
  ((Address.segments address.toList).filter (· ≠ [])).map String.ofList

/-- **The way that an address describes.** A slash at the end asks for a directory. -/
def way (address : String) : List String :=
  segments address ++ if address.toList.getLast? = some '/' then ["."] else []

/-- **The way to the file** that has an address below the directory `base`. -/
def fullWay (base address : String) : List String :=
  way base ++ segments address

/-- The way to the directory that something is made in; `.` at the end of the way does not count. -/
def parentWay (way : List String) : List String :=
  (way.reverse.dropWhile (· = ".")).tail.reverse

/-- The longest name, in bytes, that a directory can hold. -/
def maxNameSize : Nat := 255

/-- The longest way, in bytes, that can be walked from the top, with a slash before each segment. -/
def maxWaySize : Nat := 4080

/-- The size of a way in bytes, with a slash before each segment. -/
def waySize (way : List String) : Nat :=
  way.foldr (fun segment size => segment.utf8ByteSize + 1 + size) 0

/-- **A way that can be walked** is not too long and has no null character in it. -/
def isWalkable (way : List String) : Bool :=
  waySize way ≤ maxWaySize && way.all fun segment => !segment.toList.contains '\x00'

/-! ### Looking up -/

/-- Why a way through the tree leads nowhere. -/
inductive Astray
  | missing
  | blocked
  deriving DecidableEq, Repr

/-- **Goes down a way** from `current`, whose parents are `above`, the nearest first. -/
def follow (above : List Entry) (current : Entry) : List String → Except Astray Entry
  | [] => .ok current
  | segment :: rest =>
    match current with
    | .file _ => .error .blocked
    | .directory entries =>
      if segment = "." then follow above current rest
      else if segment = ".." then
        match above with
        | [] => follow [] (.directory []) rest
        | parent :: above => follow above parent rest
      else if maxNameSize < segment.utf8ByteSize then .error .blocked
      else
        match Assoc.find? segment entries with
        | none => .error .missing
        | some entry => follow (current :: above) entry rest

/-- **What stands at the end of a way** from the top. -/
def lookup (disk : Disk) (way : List String) : Except Astray Entry :=
  if isWalkable way then follow disk.above (.directory disk.entries) way else .error .blocked

/-- **The text of a file** below the directory `base`. -/
def load (disk : Disk) (base address : String) : Except LoadError String :=
  match disk.lookup (fullWay base address) with
  | .error .missing => .error (.notFound address)
  | .error .blocked => .error (.unreadable address)
  | .ok (.directory _) => .error (.unreadable address)
  | .ok (.file bytes) =>
    match String.fromUTF8? bytes with
    | some source => .ok source
    | none => .error (.unreadable address)

/-! ### Listing -/

/-- Puts a way before a name. -/
def joinWay (way name : String) : String :=
  if way = "" then name else way ++ "/" ++ name

mutual

/-- **The files at and below an entry**, by the ways to them. -/
def Entry.files (way : String) : Entry → List String
  | .file _ => [way]
  | .directory entries => filesIn way entries

/-- The files below the entries of a directory. -/
def filesIn (way : String) : List (String × Entry) → List String
  | [] => []
  | (name, entry) :: rest => Entry.files (joinWay way name) entry ++ filesIn way rest

end

/-- **The files below the directory `base` with an extension**, in the order of their addresses. The
extension is that of the whole way from the top. If `base` is itself a file, that file has the empty
address. -/
def list (disk : Disk) (base extension : String) : List String :=
  match disk.lookup (way base) with
  | .error _ => []
  | .ok entry =>
    let found := (Entry.files "" entry).filter fun way =>
      Address.extension (if way = "" then base else joinWay base way) = some extension
    found.mergeSort fun first second => first ≤ second

/-- The number of files in the tree. -/
def size (disk : Disk) : Nat :=
  (disk.levels.flatMap (filesIn "")).length

/-- The loader of the files below the directory `base`. -/
def loader (disk : Disk) (base : String) : Loader :=
  ⟨disk.load base, disk.list base, disk.size⟩

/-! ### Changing -/

/-- Changes what stands at the end of a way, making the directories on it; a file on the way blocks
it. -/
def change (update : Option Entry → Option Entry) : List String → Assoc Entry → Assoc Entry
  | [], entries => entries
  | [name], entries =>
    match update (entries.find? name) with
    | none => entries.erase name
    | some entry => entries.insert name entry
  | name :: rest, entries =>
    match entries.find? name with
    | none => entries.insert name (.directory (change update rest []))
    | some (.directory inner) => entries.insert name (.directory (change update rest inner))
    | some (.file _) => entries

/-- **A place in the tree**: how far above the top, and the names on the way down from there. -/
structure Place where
  up : Nat
  names : List String
  deriving DecidableEq, Repr

/-- The place that a segment leads to. -/
def Place.next (place : Place) (segment : String) : Place :=
  if segment = "." then place
  else if segment = ".." then
    if place.names = [] then ⟨place.up + 1, []⟩ else ⟨place.up, place.names.dropLast⟩
  else ⟨place.up, place.names ++ [segment]⟩

/-- **The place at the end of a way** that only goes through directories. -/
def Place.ofWay (way : List String) : Place :=
  way.foldl Place.next ⟨0, []⟩

/-- Changes the level that is so far above the top. -/
def changeLevel (update : Assoc Entry → Assoc Entry) :
    Nat → List (Assoc Entry) → List (Assoc Entry)
  | 0, levels => update (levels.headD []) :: levels.tail
  | up + 1, levels => levels.headD [] :: changeLevel update up levels.tail

/-- Changes what stands at a place. -/
def changeAt (disk : Disk) (place : Place) (update : Option Entry → Option Entry) : Disk :=
  ⟨changeLevel (change update place.names) place.up disk.levels⟩

/-- **Makes the directories that are missing** on the way `rest`, after the way `walked`, up to where
it is blocked. -/
def makeMissing (disk : Disk) (walked : List String) : List String → Disk
  | [] => disk
  | segment :: rest =>
    let walked := walked ++ [segment]
    match disk.lookup walked with
    | .ok (.directory _) => makeMissing disk walked rest
    | .error .missing =>
      makeMissing (disk.changeAt (.ofWay walked) fun _ => some (.directory [])) walked rest
    | _ => disk

/-- Makes the directories on a way; none if the way cannot be walked. -/
def makeWay (disk : Disk) (way : List String) : Disk :=
  if isWalkable way then disk.makeMissing [] way else disk

/-- **Writes a file**, with the directories on the way to it. Where a directory stands or is asked for,
nothing is written. -/
def put (disk : Disk) (address : String) (bytes : ByteArray) : Disk :=
  let made := disk.makeWay (parentWay (way address))
  if (way address).getLast? = some "." then made
  else
    match made.lookup (way address) with
    | .ok (.directory _) | .error .blocked => made
    | .ok (.file _) | .error .missing =>
      made.changeAt (.ofWay (way address)) fun _ => some (.file bytes)

/-- **Makes a directory**, with those on the way to it. A `.` at the end of the way does not make the
directory that it means. -/
def makeDirectory (disk : Disk) (address : String) : Disk :=
  if (segments address).getLast? = some "." then disk.makeWay (parentWay (segments address))
  else disk.makeWay (segments address)

/-- **Deletes a file**, if there is one. -/
def remove (disk : Disk) (address : String) : Disk :=
  match disk.lookup (way address) with
  | .ok (.file _) => disk.changeAt (.ofWay (way address)) fun _ => none
  | _ => disk

example : (empty.put "x/../y.html" ByteArray.empty).lookup ["x"] matches .ok (.directory []) := by
  decide

example : (empty.put "y" ByteArray.empty).lookup ["x", "..", "y"] matches .error .missing := by
  decide

end Disk

end Stencil.Store
