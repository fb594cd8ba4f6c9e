/-
**The files in a tree of directories.**

A file stands at the end of a way of names. Names in a directory are different, so a way leads to one
file at most, and going down the way finds what the list of all files says.

* `Entry.Tidy`, `TidyIn`: **a tree as a directory holds it**, with texts in its files;
* `Entry.texts`, `textsIn`: the files of a tree, by the names on the way to them;
* `stepInto`, `follow_cons`: a way is gone segment by segment;
* `follow_append`: a way that is put together is gone in two parts;
* `mem_texts_iff`: **a text is listed exactly if the way leads to its file**;
* `nodup_textsIn`: no way is listed twice;
* `filesIn_eq`: the listing of addresses is that of these ways, with slashes between the names;
* `fewFiles_of_lookup`: no way leads to more files than there are in the whole tree.
-/

import Mathlib.Data.List.Nodup
import Stencil.Proofs.ResolvedAddress
import Stencil.Store.Disk

namespace Stencil.Store

open Address (IsName Segment)
open Disk (follow joinWay)

/-! ### Trees -/

/-- **A name that a directory can hold.** -/
structure IsEntryName (name : String) : Prop where
  down : IsName name.toList
  short : name.utf8ByteSize ≤ Disk.maxNameSize
  noNull : '\x00' ∉ name.toList

instance (segment : Segment) : Decidable (IsName segment) :=
  decidable_of_iff
    (segment ≠ [] ∧ segment ≠ Address.here ∧ segment ≠ Address.above ∧ '/' ∉ segment)
    ⟨fun ⟨nonempty, notHere, notAbove, noSlash⟩ => ⟨nonempty, notHere, notAbove, noSlash⟩,
      fun isName => ⟨isName.nonempty, isName.ne_here, isName.ne_above, isName.noSlash⟩⟩

instance (name : String) : Decidable (IsEntryName name) :=
  decidable_of_iff
    (IsName name.toList ∧ name.utf8ByteSize ≤ Disk.maxNameSize ∧ '\x00' ∉ name.toList)
    ⟨fun ⟨down, short, noNull⟩ => ⟨down, short, noNull⟩,
      fun canStand => ⟨canStand.down, canStand.short, canStand.noNull⟩⟩

/-- What was written as a text is read as that text. -/
theorem fromUTF8?_toByteArray (text : String) : String.fromUTF8? text.toByteArray = some text :=
  dif_pos text.isValidUTF8

mutual

/-- **A tree as a directory holds it**: the names in each directory can stand there and are all
different, and the files are texts. -/
def Entry.Tidy : Entry → Prop
  | .file bytes => ∃ source, String.fromUTF8? bytes = some source
  | .directory entries => TidyIn entries

/-- The entries of a directory in such a tree. -/
def TidyIn : List (String × Entry) → Prop
  | [] => True
  | (name, entry) :: rest =>
    IsEntryName name ∧ name ∉ rest.map Prod.fst ∧ entry.Tidy ∧ TidyIn rest

end

mutual

/-- **The texts at and below an entry**, by the names on the way to them. -/
def Entry.texts : Entry → List (List String × String)
  | .file bytes => ((String.fromUTF8? bytes).map fun source => ([], source)).toList
  | .directory entries => textsIn entries

/-- The texts below the entries of a directory. -/
def textsIn : List (String × Entry) → List (List String × String)
  | [] => []
  | (name, entry) :: rest =>
    (entry.texts.map fun text => (name :: text.1, text.2)) ++ textsIn rest

end

section Trees

variable {entries : List (String × Entry)} {name source : String} {names : List String}
  {entry : Entry}

theorem not_mem_textsIn_nil : ([], source) ∉ textsIn entries := by
  induction entries with
  | nil => simp [textsIn]
  | cons first rest ih => simp [textsIn, ih]

theorem mem_textsIn_cons_iff : (name :: names, source) ∈ textsIn entries ↔
    ∃ entry, (name, entry) ∈ entries ∧ (names, source) ∈ entry.texts := by
  induction entries with
  | nil => simp [textsIn]
  | cons first rest ih =>
    obtain ⟨own, entry⟩ := first
    rw [textsIn, List.mem_append, ih]
    simp only [List.mem_map, Prod.mk.injEq, List.cons.injEq, List.mem_cons]
    constructor
    · rintro (⟨text, member, ⟨rfl, rfl⟩, rfl⟩ | ⟨other, member, inside⟩)
      · exact ⟨entry, Or.inl ⟨rfl, rfl⟩, member⟩
      · exact ⟨other, Or.inr member, inside⟩
    · rintro ⟨other, ⟨rfl, rfl⟩ | member, inside⟩
      · exact Or.inl ⟨_, inside, ⟨rfl, rfl⟩, rfl⟩
      · exact Or.inr ⟨other, member, inside⟩

/-- **Each entry of a tidy directory** has a name that can stand there, and is tidy itself. -/
theorem TidyIn.of_mem (tidy : TidyIn entries) (member : (name, entry) ∈ entries) :
    IsEntryName name ∧ entry.Tidy := by
  induction entries with
  | nil => cases member
  | cons first rest ih =>
    obtain ⟨isName, -, own, others⟩ := tidy
    rcases List.mem_cons.mp member with rfl | later
    · exact ⟨isName, own⟩
    · exact ih others later

/-- **A name finds its own entry** in a tidy directory. -/
theorem TidyIn.find?_eq_some_iff (tidy : TidyIn entries) :
    Assoc.find? name entries = some entry ↔ (name, entry) ∈ entries := by
  induction entries with
  | nil => simp
  | cons first rest ih =>
    obtain ⟨own, held⟩ := first
    obtain ⟨-, new, -, others⟩ := tidy
    rw [Assoc.find?, List.mem_cons]
    by_cases same : own = name
    · subst same
      have absent : (own, entry) ∉ rest := fun member => new (List.mem_map.mpr ⟨_, member, rfl⟩)
      simp [absent, eq_comm]
    · simp [same, Ne.symm same, ih others]

/-! ### Going down -/

/-- **One segment further**: what is above then, and where one is. -/
def stepInto (above : List Entry) (current : Entry) (segment : String) :
    Except Disk.Astray (List Entry × Entry) :=
  match current with
  | .file _ => .error .blocked
  | .directory entries =>
    if segment = "." then .ok (above, current)
    else if segment = ".." then .ok (above.tail, above.headD (.directory []))
    else if Disk.maxNameSize < segment.utf8ByteSize then .error .blocked
    else
      match Assoc.find? segment entries with
      | none => .error .missing
      | some inner => .ok (current :: above, inner)

/-- **A way is gone segment by segment.** -/
theorem follow_cons (above : List Entry) (current : Entry) (segment : String) (rest : List String) :
    follow above current (segment :: rest) =
      (stepInto above current segment).bind fun reached => follow reached.1 reached.2 rest := by
  cases current with
  | file bytes => rfl
  | directory entries =>
    rw [Disk.follow.eq_def, stepInto]
    dsimp only
    split
    · rfl
    · split
      · cases above <;> rfl
      · split
        · rfl
        · cases Assoc.find? segment entries <;> rfl

/-- **A name leads to its entry**, if it is one that can stand there. -/
theorem stepInto_name (isName : IsName name.toList) (above : List Entry) :
    stepInto above (.directory entries) name =
      if Disk.maxNameSize < name.utf8ByteSize then .error .blocked
      else
        ((Assoc.find? name entries).map fun inner => (.directory entries :: above, inner)).elim
          (.error .missing) .ok := by
  have notHere : name ≠ "." := fun same => isName.ne_here (congrArg String.toList same)
  have notAbove : name ≠ ".." := fun same => isName.ne_above (congrArg String.toList same)
  rw [stepInto, if_neg notHere, if_neg notAbove]
  cases Assoc.find? name entries <;> rfl

/-- **Going down does not look at what is above.** -/
theorem follow_above (down : ∀ name ∈ names, IsName name.toList) (above others : List Entry) :
    follow above entry names = follow others entry names := by
  induction names generalizing entry above others with
  | nil => rfl
  | cons name names ih =>
    have further : ∀ other ∈ names, IsName other.toList :=
      fun other member => down other (List.mem_cons_of_mem _ member)
    rw [follow_cons, follow_cons]
    cases entry with
    | file bytes => rfl
    | directory entries =>
      rw [stepInto_name (down name List.mem_cons_self), stepInto_name (down name List.mem_cons_self)]
      split
      · rfl
      · cases Assoc.find? name entries with
        | none => rfl
        | some inner => exact ih further _ _

/-- **A way that is put together** from one to a place and one further down is gone in two parts. -/
theorem follow_append {way : List String} (down : ∀ name ∈ names, IsName name.toList)
    (above : List Entry) {place : Entry} (leads : follow above entry way = .ok place) :
    follow above entry (way ++ names) = follow [] place names := by
  induction way generalizing above entry with
  | nil =>
    cases leads
    exact follow_above down above []
  | cons segment way ih =>
    rw [follow_cons] at leads
    rw [List.cons_append, follow_cons]
    cases step : stepInto above entry segment with
    | error astray =>
      rw [step] at leads
      cases leads
    | ok reached =>
      rw [step] at leads
      exact ih reached.1 leads

/-- **A text is listed exactly if the way leads to its file.** -/
theorem mem_texts_iff (tidy : entry.Tidy) (down : ∀ name ∈ names, IsName name.toList)
    (above : List Entry) : (names, source) ∈ entry.texts ↔
      ∃ bytes, follow above entry names = .ok (.file bytes) ∧
        String.fromUTF8? bytes = some source := by
  induction names generalizing entry above with
  | nil =>
    cases entry with
    | file bytes => simp [Entry.texts, follow]
    | directory entries => simp [Entry.texts, follow, not_mem_textsIn_nil]
  | cons name names ih =>
    have isName := down name List.mem_cons_self
    have further : ∀ other ∈ names, IsName other.toList :=
      fun other member => down other (List.mem_cons_of_mem _ member)
    rw [follow_cons]
    cases entry with
    | file bytes => simp [Entry.texts, stepInto, Except.bind]
    | directory entries =>
      have tidyIn : TidyIn entries := tidy
      rw [Entry.texts, mem_textsIn_cons_iff, stepInto_name isName]
      constructor
      · rintro ⟨inner, member, inside⟩
        obtain ⟨canStand, tidyInner⟩ := tidyIn.of_mem member
        rw [if_neg (Nat.not_lt.mpr canStand.short), tidyIn.find?_eq_some_iff.mpr member]
        exact (ih tidyInner further _).mp inside
      · rintro ⟨bytes, leads, text⟩
        split at leads
        · cases leads
        · cases found : Assoc.find? name entries with
          | none =>
            rw [found] at leads
            cases leads
          | some inner =>
            rw [found] at leads
            have member := tidyIn.find?_eq_some_iff.mp found
            exact ⟨inner, member, (ih (tidyIn.of_mem member).2 further _).mpr ⟨bytes, leads, text⟩⟩

end Trees

/-! ### Listing -/

mutual

/-- **The names on the way to a text** can stand in directories. -/
theorem names_of_mem_texts (entry : Entry) (tidy : entry.Tidy) {text : List String × String}
    (member : text ∈ entry.texts) : ∀ name ∈ text.1, IsEntryName name := by
  cases entry with
  | file bytes =>
    rw [Entry.texts, Option.mem_toList, Option.map_eq_some_iff] at member
    obtain ⟨_, -, rfl⟩ := member
    simp
  | directory entries => exact names_of_mem_textsIn entries tidy member

theorem names_of_mem_textsIn (entries : List (String × Entry)) (tidy : TidyIn entries)
    {text : List String × String} (member : text ∈ textsIn entries) :
    ∀ name ∈ text.1, IsEntryName name := by
  cases entries with
  | nil => cases member
  | cons first rest =>
    obtain ⟨name, entry⟩ := first
    obtain ⟨canStand, -, own, others⟩ := tidy
    rcases List.mem_append.mp member with here | later
    · obtain ⟨inner, inside, rfl⟩ := List.mem_map.mp here
      intro other isOther
      rcases List.mem_cons.mp isOther with rfl | further
      · exact canStand
      · exact names_of_mem_texts entry own inside other further
    · exact names_of_mem_textsIn rest others later

end

mutual

/-- **No way is listed twice.** -/
theorem nodup_texts (entry : Entry) (tidy : entry.Tidy) : (entry.texts.map Prod.fst).Nodup := by
  cases entry with
  | file bytes =>
    rw [Entry.texts]
    cases String.fromUTF8? bytes <;> simp
  | directory entries => exact nodup_textsIn entries tidy

theorem nodup_textsIn (entries : List (String × Entry)) (tidy : TidyIn entries) :
    ((textsIn entries).map Prod.fst).Nodup := by
  cases entries with
  | nil => exact List.nodup_nil
  | cons first rest =>
    obtain ⟨name, entry⟩ := first
    obtain ⟨-, new, own, others⟩ := tidy
    have front : ((entry.texts.map fun text => (name :: text.1, text.2)).map Prod.fst) =
        (entry.texts.map Prod.fst).map (name :: ·) := by
      rw [List.map_map, List.map_map]
      rfl
    rw [textsIn, List.map_append, front, List.nodup_append]
    refine ⟨(nodup_texts entry own).map (List.cons_injective), nodup_textsIn rest others, ?_⟩
    -- the ways start with different names
    intro names here other later same
    subst same
    obtain ⟨inner, -, rfl⟩ := List.mem_map.mp here
    obtain ⟨⟨_, source⟩, member, rfl⟩ := List.mem_map.mp later
    obtain ⟨held, isEntry, -⟩ := mem_textsIn_cons_iff.mp member
    exact new (List.mem_map.mpr ⟨_, isEntry, rfl⟩)

end

mutual

/-- **The listing of addresses** is that of the ways, with the names put behind each other. -/
theorem files_eq (entry : Entry) (tidy : entry.Tidy) (way : String) :
    Disk.Entry.files way entry = entry.texts.map fun text => text.1.foldl joinWay way := by
  cases entry with
  | file bytes =>
    obtain ⟨source, text⟩ := tidy
    rw [Disk.Entry.files, Entry.texts, text]
    rfl
  | directory entries =>
    rw [Disk.Entry.files, Entry.texts]
    exact filesIn_eq entries tidy way

theorem filesIn_eq (entries : List (String × Entry)) (tidy : TidyIn entries) (way : String) :
    Disk.filesIn way entries = (textsIn entries).map fun text => text.1.foldl joinWay way := by
  cases entries with
  | nil => rfl
  | cons first rest =>
    obtain ⟨name, entry⟩ := first
    obtain ⟨-, -, own, others⟩ := tidy
    rw [Disk.filesIn, textsIn, files_eq entry own, filesIn_eq rest others, List.map_append,
      List.map_map]
    rfl

end

/-- A name behind a way has a slash before it. -/
theorem foldl_joinWay {way : String} (begun : way ≠ "") (names : List String) :
    names.foldl joinWay way = "/".intercalate (way :: names) := by
  induction names generalizing way with
  | nil => rfl
  | cons name names ih =>
    have longer : way ++ "/" ++ name ≠ "" := by simp [begun]
    rw [List.foldl_cons, joinWay, if_neg begun, ih longer]
    rfl

/-- **Names that are put behind each other** have slashes between them. -/
theorem foldl_joinWay_top {names : List String} (proper : ∀ name ∈ names, IsName name.toList) :
    names.foldl joinWay "" = "/".intercalate names := by
  cases names with
  | nil => rfl
  | cons name names =>
    have begun : name ≠ "" := fun isEmpty =>
      (proper name List.mem_cons_self).nonempty (congrArg String.toList isEmpty)
    exact foldl_joinWay begun names

/-! ### Counting -/

section Counting

mutual

/-- The way to an entry plays no part in how many files there are. -/
theorem length_files (entry : Entry) (way other : String) :
    (Disk.Entry.files way entry).length = (Disk.Entry.files other entry).length := by
  cases entry with
  | file bytes => rfl
  | directory entries => exact length_filesIn entries way other

theorem length_filesIn (entries : List (String × Entry)) (way other : String) :
    (Disk.filesIn way entries).length = (Disk.filesIn other entries).length := by
  cases entries with
  | nil => rfl
  | cons first rest =>
    obtain ⟨name, entry⟩ := first
    rw [Disk.filesIn, Disk.filesIn, List.length_append, List.length_append,
      length_files entry (joinWay way name) (joinWay other name), length_filesIn rest way other]

end

/-- **A bound on the number of files** at and below an entry. -/
def FewFiles (bound : Nat) (entry : Entry) : Prop :=
  (Disk.Entry.files "" entry).length ≤ bound

variable {bound : Nat} {above : List Entry} {current place : Entry}

/-- An entry of a directory has no more files than the directory. -/
theorem FewFiles.of_mem {entries : List (String × Entry)} {name : String} {entry : Entry}
    (few : FewFiles bound (.directory entries)) (member : (name, entry) ∈ entries) :
    FewFiles bound entry := by
  induction entries with
  | nil => cases member
  | cons first rest ih =>
    have total : (Disk.filesIn "" (first :: rest)).length ≤ bound := few
    rw [Disk.filesIn, List.length_append] at total
    rcases List.mem_cons.mp member with rfl | later
    · rw [FewFiles, length_files entry "" (joinWay "" name)]
      exact Nat.le_trans (Nat.le_add_right _ _) total
    · exact ih (Nat.le_trans (Nat.le_add_left _ _) total) later

/-- **One segment further there are no more files** than there were around. -/
theorem FewFiles.stepInto {segment : String} {reached : List Entry × Entry}
    (around : ∀ entry ∈ above, FewFiles bound entry) (here : FewFiles bound current)
    (step : stepInto above current segment = .ok reached) :
    (∀ entry ∈ reached.1, FewFiles bound entry) ∧ FewFiles bound reached.2 := by
  cases current with
  | file bytes => cases step
  | directory entries =>
    rw [Store.stepInto] at step
    split at step
    · cases step
      exact ⟨around, here⟩
    · split at step
      · cases step
        cases above with
        | nil => exact ⟨around, Nat.zero_le bound⟩
        | cons parent above => exact (List.forall_mem_cons.mp around).symm
      · split at step
        · cases step
        · cases found : Assoc.find? segment entries with
          | none =>
            rw [found] at step
            cases step
          | some inner =>
            rw [found] at step
            cases step
            exact ⟨List.forall_mem_cons.mpr ⟨here, around⟩, here.of_mem (Assoc.mem_of_find? found)⟩

theorem FewFiles.follow {way : List String} (around : ∀ entry ∈ above, FewFiles bound entry)
    (here : FewFiles bound current) (leads : Disk.follow above current way = .ok place) :
    FewFiles bound place := by
  induction way generalizing above current with
  | nil =>
    cases leads
    exact here
  | cons segment way ih =>
    rw [follow_cons] at leads
    cases step : Store.stepInto above current segment with
    | error astray =>
      rw [step] at leads
      cases leads
    | ok reached =>
      rw [step] at leads
      obtain ⟨aroundNext, next⟩ := FewFiles.stepInto around here step
      exact ih aroundNext next leads

/-- **Wherever a way leads to, there are no more files than in the whole tree.** -/
theorem fewFiles_of_lookup {disk : Disk} {way : List String} (found : disk.lookup way = .ok place) :
    FewFiles disk.size place := by
  have few : ∀ level ∈ disk.levels, FewFiles disk.size (.directory level) := by
    intro level member
    rw [FewFiles, Disk.Entry.files, Disk.size, List.flatMap_def]
    have part : Disk.filesIn "" level ∈ disk.levels.map (Disk.filesIn "") :=
      List.mem_map.mpr ⟨level, member, rfl⟩
    exact (List.sublist_flatten_of_mem part).length_le
  have around : ∀ entry ∈ disk.above, FewFiles disk.size entry := by
    intro entry member
    obtain ⟨level, isLevel, rfl⟩ := List.mem_map.mp member
    exact few level (List.mem_of_mem_tail isLevel)
  have here : FewFiles disk.size (.directory disk.entries) := by
    rw [Disk.entries]
    cases levels : disk.levels with
    | nil => exact Nat.zero_le _
    | cons level rest => exact few level (levels ▸ List.mem_cons_self)
  rw [Disk.lookup] at found
  split at found
  · exact FewFiles.follow around here found
  · cases found

end Counting

end Stencil.Store
