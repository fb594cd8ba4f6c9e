/-
**A tree of directories serves what memory serves.**

The templates of a tree may be kept in memory instead, each under the names on the way to it with
slashes between them. Both loaders then list the same addresses, though one goes through the tree and
the other one has them sorted. They load the same sources; but an address where memory has nothing can
be that of a directory, of something below a file, or one that is too long.

* `Memory.ofTree`: **the templates of a tree, kept in memory**;
* `Disk.HasTree`: a disk has a tree below a base directory;
* `HasTree.load_accords`: what both loaders answer at a confined address;
* `disk_as_memory`: **both loaders list the same and compile the same**.
-/

import Stencil.Assembly.Compiler
import Stencil.Proofs.DirectoryTree
import Stencil.Proofs.OtherLoader
import Stencil.Proofs.SortedNames
import Stencil.Store.Memory

namespace Stencil.Store

open Address (IsName LeadsDown Segment)
open Assembly (Confined LoadsAccord RightSize)
open Disk (way waySize maxWaySize isWalkable)

/-! ### In memory -/

/-- **The templates of a tree, kept in memory**, by the names on the way to them with slashes
between. -/
def Memory.ofTree (entries : List (String × Entry)) : Memory :=
  ⟨Assoc.ofList ((textsIn entries).map fun text => ("/".intercalate text.1, text.2))⟩

theorem Memory.load_error {memory : Memory} {path : String} {error : LoadError}
    (failed : memory.load path = .error error) : error = .notFound path := by
  rw [Memory.load] at failed
  split at failed
  · cases failed
  · exact (Except.error.inj failed).symm

/-- Memory has as many addresses as it says. -/
theorem Memory.loader_rightSize (memory : Memory) : RightSize memory.loader :=
  ⟨memory.sources.names, (List.length_map Prod.fst).le,
    fun _ _ loaded => Memory.mem_names_of_load loaded⟩

/-- **Different names have different addresses.** -/
theorem intercalate_injective {names others : List String}
    (proper : ∀ name ∈ names, IsName name.toList) (also : ∀ name ∈ others, IsName name.toList)
    (same : "/".intercalate names = "/".intercalate others) : names = others := by
  have down := LeadsDown.ofNames proper
  rw [same] at down
  have sameNames : names.map String.toList = others.map String.toList :=
    down.unique (LeadsDown.ofNames also)
  exact List.map_injective_iff.mpr (fun _ _ => String.toList_inj.mp) sameNames

section Kept

variable {entries : List (String × Entry)} {names : List String} {source : String}

theorem names_proper (tidy : TidyIn entries) {text : List String × String}
    (member : text ∈ textsIn entries) : ∀ name ∈ text.1, IsName name.toList :=
  fun name isIn => (names_of_mem_textsIn entries tidy member name isIn).down

/-- The addresses of different templates are different. -/
theorem nodup_addresses (tidy : TidyIn entries) :
    (((textsIn entries).map fun text => ("/".intercalate text.1, text.2)).map Prod.fst).Nodup := by
  have eq : ((textsIn entries).map fun text => ("/".intercalate text.1, text.2)).map Prod.fst =
      ((textsIn entries).map Prod.fst).map fun names => "/".intercalate names := by
    rw [List.map_map, List.map_map]
    rfl
  rw [eq]
  refine (nodup_textsIn entries tidy).map_on fun names member others also same => ?_
  obtain ⟨text, isText, rfl⟩ := List.mem_map.mp member
  obtain ⟨other, isOther, rfl⟩ := List.mem_map.mp also
  exact intercalate_injective (names_proper tidy isText) (names_proper tidy isOther) same

/-- **What is loaded from memory** at the address of names is the text in the tree. -/
theorem Memory.load_ofTree_iff (tidy : TidyIn entries)
    (proper : ∀ name ∈ names, IsName name.toList) :
    (Memory.ofTree entries).load ("/".intercalate names) = .ok source ↔
      (names, source) ∈ textsIn entries := by
  rw [Memory.load_eq_ok_iff, Memory.ofTree, Assoc.find?_ofList_eq_some_iff (nodup_addresses tidy), List.mem_map]
  constructor
  · rintro ⟨⟨others, text⟩, member, same⟩
    obtain ⟨sameAddress, rfl⟩ := Prod.ext_iff.mp same
    cases intercalate_injective (names_proper tidy member) proper sameAddress
    exact member
  · exact fun member => ⟨_, member, rfl⟩

/-- There are as many addresses in memory as texts in the tree. -/
theorem Memory.length_ofTree (tidy : TidyIn entries) :
    (Memory.ofTree entries).sources.length = (textsIn entries).length := by
  have names := congrArg List.length (Assoc.names_ofList (nodup_addresses tidy))
  simpa [Assoc.names, Memory.ofTree] using names

end Kept

/-! ### On disk -/

/-- **A disk has a tree** below the directory `base`, and no way to a file in it is too long. -/
structure Disk.HasTree (disk : Disk) (base : String) (entries : List (String × Entry)) : Prop where
  directory : disk.lookup (way base) = .ok (.directory entries)
  tidy : TidyIn entries
  fits : ∀ text ∈ textsIn entries, waySize (way base ++ text.1) ≤ maxWaySize

/-- **What is loaded** is the text of the file that the way leads to. -/
theorem Disk.load_eq_ok_iff {disk : Disk} {base address source : String} :
    disk.load base address = .ok source ↔
      ∃ bytes, disk.lookup (fullWay base address) = .ok (.file bytes) ∧
        String.fromUTF8? bytes = some source := by
  rw [Disk.load]
  split
  · simp [*]
  · simp [*]
  · simp [*]
  · rename_i bytes found
    cases text : String.fromUTF8? bytes with
    | none => simp [found, text]
    | some source => simp [found, text]

theorem Disk.load_error {disk : Disk} {base address : String} {error : LoadError}
    (failed : disk.load base address = .error error) :
    error = .notFound address ∨ error = .unreadable address := by
  rw [Disk.load] at failed
  split at failed
  · exact Or.inl (Except.error.inj failed).symm
  · exact Or.inr (Except.error.inj failed).symm
  · exact Or.inr (Except.error.inj failed).symm
  · split at failed
    · cases failed
    · exact Or.inr (Except.error.inj failed).symm

/-- **A confined address** consists of names, and its file is reached by these from the base
directory. -/
theorem names_of_confined {path : String} (confined : Confined path) :
    ∃ names : List String, (∀ name ∈ names, IsName name.toList) ∧ path = "/".intercalate names ∧
      ∀ base, Disk.fullWay base path = way base ++ names := by
  obtain ⟨segments, down⟩ := confined
  have back : (segments.map String.ofList).map String.toList = segments := by simp
  refine ⟨segments.map String.ofList, fun name member => ?_, ?_, fun base => ?_⟩
  · obtain ⟨segment, isSegment, rfl⟩ := List.mem_map.mp member
    rw [String.toList_ofList]
    exact down.1 segment isSegment
  · apply String.toList_inj.mp
    rw [String.toList_intercalate, back]
    exact down.2
  · rw [← down.fullWay_eq base, String.ofList_toList]

namespace Disk.HasTree

variable {disk : Disk} {base : String} {entries : List (String × Entry)} {names : List String}
  {source : String}

/-- The way to the base directory can be walked, and leads there. -/
theorem leads (tree : disk.HasTree base entries) :
    isWalkable (way base) = true ∧
      follow disk.above (.directory disk.entries) (way base) = .ok (.directory entries) := by
  have found := tree.directory
  rw [lookup] at found
  split at found
  · rename_i walkable
    exact ⟨walkable, found⟩
  · cases found

/-- The way to a text in the tree can be walked. -/
theorem walkable (tree : disk.HasTree base entries) (member : (names, source) ∈ textsIn entries) :
    isWalkable (way base ++ names) = true := by
  have baseWalkable := tree.leads.1
  rw [isWalkable, Bool.and_eq_true, List.all_eq_true] at baseWalkable
  rw [isWalkable, Bool.and_eq_true, List.all_eq_true]
  refine ⟨decide_eq_true (tree.fits _ member), fun segment isSegment => ?_⟩
  rcases List.mem_append.mp isSegment with before | below
  · exact baseWalkable.2 segment before
  · simpa using (names_of_mem_textsIn entries tree.tidy member segment below).noNull

/-- **A file below the base directory** is there exactly if its text is in the tree. -/
theorem lookup_iff (tree : disk.HasTree base entries)
    (proper : ∀ name ∈ names, IsName name.toList) :
    (∃ bytes, disk.lookup (way base ++ names) = .ok (.file bytes) ∧
      String.fromUTF8? bytes = some source) ↔ (names, source) ∈ textsIn entries := by
  have whole : Entry.Tidy (.directory entries) := tree.tidy
  have parts := follow_append proper disk.above tree.leads.2
  have inTree : (names, source) ∈ textsIn entries ↔ _ := mem_texts_iff whole proper []
  constructor
  · rintro ⟨bytes, found, text⟩
    rw [lookup] at found
    split at found
    · exact inTree.mpr ⟨bytes, parts ▸ found, text⟩
    · cases found
  · intro member
    obtain ⟨bytes, leads, text⟩ := inTree.mp member
    refine ⟨bytes, ?_, text⟩
    rw [lookup, if_pos (tree.walkable member), parts]
    exact leads

/-- **Both loaders load the same** at a confined address, or there is nothing in memory and no text
on the disk. -/
theorem load_accords (tree : disk.HasTree base entries) {path : String} (confined : Confined path) :
    LoadsAccord path ((Memory.ofTree entries).load path) (disk.load base path) := by
  obtain ⟨names, proper, rfl, reached⟩ := names_of_confined confined
  have same : ∀ source, disk.load base ("/".intercalate names) = .ok source ↔
      (Memory.ofTree entries).load ("/".intercalate names) = .ok source := by
    intro source
    rw [load_eq_ok_iff, reached, tree.lookup_iff proper, Memory.load_ofTree_iff tree.tidy proper]
  cases inMemory : (Memory.ofTree entries).load ("/".intercalate names) with
  | ok source => exact Or.inl ((same source).mpr inMemory)
  | error error =>
    cases onDisk : disk.load base ("/".intercalate names) with
    | ok source =>
      rw [(same source).mp onDisk] at inMemory
      cases inMemory
    | error other =>
      rw [Memory.load_error inMemory]
      rcases load_error onDisk with rfl | rfl
      · exact Or.inl rfl
      · exact Or.inr ⟨rfl, rfl⟩

/-- **The extension of a file below the base directory** is that of its address. -/
theorem extension_eq (tree : disk.HasTree base entries) {address : String}
    (member : address ∈ (textsIn entries).map fun text => "/".intercalate text.1) :
    Address.extension (if address = "" then base else joinWay base address) =
      Address.extension address := by
  obtain ⟨⟨names, source⟩, isText, rfl⟩ := List.mem_map.mp member
  have down := LeadsDown.ofNames (names_proper tree.tidy isText)
  have some : names.map String.toList ≠ [] := by
    rintro isEmpty
    cases List.map_eq_nil_iff.mp isEmpty
    exact not_mem_textsIn_nil isText
  have begun : "/".intercalate names ≠ "" := by
    intro isEmpty
    rw [isEmpty] at down
    exact some (down.unique ⟨by simp, rfl⟩)
  rw [if_neg begun, joinWay]
  by_cases top : base = ""
  · rw [if_pos top]
  · rw [if_neg top]
    exact down.extension_behind some base

/-- **Both loaders list the same**: sorting what has an extension and taking that out of what is sorted
come to the same. -/
theorem list_eq (tree : disk.HasTree base entries) (extension : String) :
    disk.list base extension = (Memory.ofTree entries).list extension := by
  have found : Entry.files "" (.directory entries) =
      (textsIn entries).map fun text => "/".intercalate text.1 := by
    rw [Entry.files, filesIn_eq entries tree.tidy]
    exact List.map_congr_left fun text member => foldl_joinWay_top (names_proper tree.tidy member)
  have kept : (Memory.ofTree entries).sources.names =
      ((textsIn entries).map fun text => "/".intercalate text.1).mergeSort := by
    rw [Memory.ofTree, Assoc.names_ofList (nodup_addresses tree.tidy), List.map_map]
    rfl
  rw [list, tree.directory, Memory.list, kept]
  dsimp only
  rw [found]
  generalize addresses_eq : ((textsIn entries).map fun text => "/".intercalate text.1) = addresses
  have sameExtension : addresses.filter (fun address =>
        Address.extension (if address = "" then base else joinWay base address) = some extension) =
      addresses.filter fun address => Address.extension address = some extension := by
    refine List.filter_congr fun address member => ?_
    rw [tree.extension_eq (addresses_eq ▸ member)]
  rw [sameExtension]
  have sorted := List.pairwise_mergeSort' (· ≤ ·)
    (addresses.filter fun address => Address.extension address = some extension)
  have wholeSorted := (List.pairwise_mergeSort' (· ≤ ·) addresses).filter fun address =>
    Address.extension address = some extension
  refine List.Perm.eq_of_pairwise (fun _ _ _ _ => le_antisymm) sorted wholeSorted ?_
  exact (List.mergeSort_perm _ _).trans ((List.mergeSort_perm _ _).filter _).symm

/-- **There are no more templates in memory** than files on the disk. -/
theorem size_le (tree : disk.HasTree base entries) :
    (Memory.ofTree entries).sources.length ≤ disk.size := by
  have few : FewFiles disk.size (.directory entries) := fewFiles_of_lookup tree.directory
  rw [FewFiles, Entry.files, filesIn_eq entries tree.tidy, List.length_map] at few
  rw [Memory.length_ofTree tree.tidy]
  exact few

end Disk.HasTree

end Stencil.Store

namespace Stencil.Assembly

open Store (Disk Memory)

variable {σ : Type}

/-- **A tree of directories serves what memory serves.** For each extension both loaders list the same
addresses. For each root the compile from disk and the compile from memory ask for the same and have
the same result, with the same steps and the same table, or the same error; but where memory has
nothing at an address and the one compile fails for that, the other one may fail as there is no text
at that address. -/
theorem disk_as_memory {disk : Disk} {base : String} {entries : List (String × Store.Entry)}
    (tree : disk.HasTree base entries) (compiler : Compiler σ) :
    (∀ extension, (disk.loader base).list extension =
        (Memory.ofTree entries).loader.list extension) ∧
      ∀ root,
        let onDisk := { compiler with loader := disk.loader base }.compile root
        let inMemory := { compiler with loader := (Memory.ofTree entries).loader }.compile root
        onDisk.events = inMemory.events ∧ inMemory.result ≠ .error .tooDeep ∧
          (onDisk.result = inMemory.result ∨
            ∃ path, inMemory.result = .error (.error (.load path (.notFound path))) ∧
              onDisk.result = .error (.error (.load path (.unreadable path)))) :=
  ⟨tree.list_eq, Compiler.compile_accords compiler (fun _ => tree.load_accords)
    (Memory.loader_rightSize _) tree.size_le⟩

/-- The files of a site: pages, a part that one of them includes, and a file with no extension. -/
def siteEntries : List (String × Store.Entry) :=
  [("about.html", .file "about".toUTF8),
    ("parts", .directory [("nav.html", .file "nav".toUTF8), (".html", .file "hidden".toUTF8)]),
    ("a.html", .file "home".toUTF8)]

/-- A disk with the site in one directory and other files beside it. -/
def siteDisk : Disk :=
  ⟨[[("notes.html", .file "notes".toUTF8), ("www", .directory siteEntries)]]⟩

/-- One page includes a part, another one includes a directory. -/
def siteCompiler : Compiler Unit where
  loader := Memory.empty.loader
  parse source := .ok (
    if source = "home" then [.inclusion "parts/nav.html" []]
    else if source = "about" then [.inclusion "parts" []]
    else [.text source])

theorem siteEntries_texts : Store.textsIn siteEntries =
    [(["about.html"], "about"), (["parts", "nav.html"], "nav"), (["parts", ".html"], "hidden"),
      (["a.html"], "home")] := by
  simp [siteEntries, Store.textsIn, Store.Entry.texts, Store.fromUTF8?_toByteArray]

theorem siteDisk_hasTree : siteDisk.HasTree "www" siteEntries where
  directory := rfl
  tidy := by
    have names : ∀ name ∈ ["about.html", "parts", "a.html", "nav.html", ".html"],
        Store.IsEntryName name := by
      decide +kernel
    simp [siteEntries, Store.TidyIn, Store.Entry.Tidy, Store.fromUTF8?_toByteArray, names]
  fits := by
    rw [siteEntries_texts]
    decide

/-- The hidden file and the one beside the site are not listed, the page with the part compiles from
disk as it does from memory, and in place of the directory there is nothing in memory. -/
theorem siteDisk_as_memory : siteDisk.HasTree "www" siteEntries ∧
    (siteDisk.loader "www").list "html" = ["a.html", "about.html", "parts/nav.html"] ∧
    ({ siteCompiler with loader := siteDisk.loader "www" }.compile "a.html").result =
      .ok ⟨[.nested [.text "nav"]], #[]⟩ ∧
    ({ siteCompiler with loader := (Memory.ofTree siteEntries).loader }.compile
      "about.html").result = .error (.error (.load "parts" (.notFound "parts"))) ∧
    ({ siteCompiler with loader := siteDisk.loader "www" }.compile "about.html").result =
      .error (.error (.load "parts" (.unreadable "parts"))) := by
  obtain ⟨lists, compiles⟩ := disk_as_memory siteDisk_hasTree siteCompiler
  have kept : Memory.ofTree siteEntries =
      ⟨[("a.html", "home"), ("about.html", "about"), ("parts/.html", "hidden"),
        ("parts/nav.html", "nav")]⟩ := by
    rw [Memory.ofTree, siteEntries_texts]
    rfl
  have page : ({ siteCompiler with loader := (Memory.ofTree siteEntries).loader }.compile
      "a.html").result = .ok ⟨[.nested [.text "nav"]], #[]⟩ := by
    rw [kept]
    rfl
  have noPage : ({ siteCompiler with loader := (Memory.ofTree siteEntries).loader }.compile
      "about.html").result = .error (.error (.load "parts" (.notFound "parts"))) := by
    rw [kept]
    rfl
  refine ⟨siteDisk_hasTree, ?_, ?_, noPage, ?_⟩
  · rw [lists, kept]
    decide
  · rcases (compiles "a.html").2.2 with same | ⟨path, failed, -⟩
    · exact same.trans page
    · rw [page] at failed
      cases failed
  · rfl

end Stencil.Assembly
