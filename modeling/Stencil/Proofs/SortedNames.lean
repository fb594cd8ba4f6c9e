/-
**Association lists that are built by insertion.**

Insertion keeps the names sorted, each once. So what a list of entries with different names is built
into holds the same entries, and its names are those of the entries in order.

* `Assoc.insert_sorted`: **insertion keeps the names sorted**;
* `Assoc.find?_ofList_eq_some_iff`: each name stands for what its entry says;
* `Assoc.names_ofList`: the names are those of the entries, sorted.
-/

import Mathlib.Data.List.Induction
import Mathlib.Data.List.Nodup
import Mathlib.Data.List.Sort
import Mathlib.Data.String.Basic
import Stencil.Assoc

namespace Stencil.Assoc

variable {α : Type} {entries : Assoc α}

/-- **The names are sorted**, and each stands there once. -/
def Sorted (entries : Assoc α) : Prop :=
  entries.names.Pairwise (· < ·)

theorem mem_names_insert {name other : String} {value : α} :
    other ∈ (insert name value entries).names ↔ other = name ∨ other ∈ entries.names := by
  induction entries with
  | nil => simp [insert, names]
  | cons entry rest ih =>
    unfold names at ih ⊢
    rw [insert]
    split
    · rename_i same
      simp [same]
    · split
      · simp
      · rw [List.map_cons, List.mem_cons, List.map_cons, List.mem_cons, ih]
        tauto

/-- Each name stands for something. -/
theorem find?_of_mem_names {name : String} (member : name ∈ entries.names) :
    ∃ value, entries.find? name = some value := by
  induction entries with
  | nil => cases member
  | cons entry rest ih =>
    rw [find?]
    by_cases same : entry.1 = name
    · exact ⟨entry.2, if_pos same⟩
    · rw [if_neg same]
      exact ih ((List.mem_cons.mp member).resolve_left (Ne.symm same))

/-- **Insertion keeps the names sorted.** -/
theorem insert_sorted (sorted : Sorted entries) (name : String) (value : α) :
    Sorted (insert name value entries) := by
  induction entries with
  | nil => exact List.pairwise_singleton _ _
  | cons entry rest ih =>
    obtain ⟨first, others⟩ := List.pairwise_cons.mp sorted
    rw [insert]
    split
    · rename_i same
      exact List.pairwise_cons.mpr ⟨same ▸ first, others⟩
    · rename_i differs
      split
      · rename_i less
        refine List.pairwise_cons.mpr ⟨fun other member => ?_, sorted⟩
        rcases List.mem_cons.mp member with rfl | later
        · exact less
        · exact lt_trans less (first other later)
      · rename_i notLess
        refine List.pairwise_cons.mpr ⟨fun other member => ?_, ih others⟩
        rcases mem_names_insert.mp member with rfl | later
        · exact lt_of_le_of_ne (not_lt.mp notLess) differs
        · exact first other later

section Built

variable {list : List (String × α)}

theorem ofList_concat (entry : String × α) :
    ofList (list ++ [entry]) = insert entry.1 entry.2 (ofList list) := by
  rw [ofList, List.foldl_append]
  rfl

theorem ofList_sorted : Sorted (ofList list) := by
  induction list using List.reverseRecOn with
  | nil => exact List.Pairwise.nil
  | append_singleton list entry ih =>
    rw [ofList_concat]
    exact insert_sorted ih entry.1 entry.2

theorem mem_names_ofList {name : String} :
    name ∈ (ofList list).names ↔ name ∈ list.map Prod.fst := by
  induction list using List.reverseRecOn with
  | nil => exact Iff.rfl
  | append_singleton list entry ih =>
    rw [ofList_concat, mem_names_insert, ih, List.map_append, List.mem_append, or_comm]
    simp

/-- **Each name stands for what its own entry says**, if the names of the entries are all different. -/
theorem find?_ofList_eq_some_iff (distinct : (list.map Prod.fst).Nodup) {name : String} {value : α} :
    find? name (ofList list) = some value ↔ (name, value) ∈ list := by
  induction list using List.reverseRecOn with
  | nil => simp [ofList]
  | append_singleton list entry ih =>
    rw [List.map_append, List.map_singleton, ← List.concat_eq_append, List.nodup_concat] at distinct
    obtain ⟨new, others⟩ := distinct
    rw [ofList_concat, find?_insert, List.mem_append, List.mem_singleton, ← ih others]
    by_cases same : entry.1 = name
    · subst same
      have unknown : find? entry.1 (ofList list) ≠ some value := fun found =>
        new (List.mem_map.mpr ⟨_, (ih others).mp found, rfl⟩)
      simp [unknown, Prod.ext_iff, eq_comm]
    · have differs : (name, value) ≠ entry := fun isEntry => same (isEntry ▸ rfl)
      simp [same, differs]

/-- **The names are those of the entries, sorted**, if these are all different. -/
theorem names_ofList (distinct : (list.map Prod.fst).Nodup) :
    (ofList list).names = (list.map Prod.fst).mergeSort := by
  have sorted : Sorted (ofList list) := ofList_sorted
  have merged := List.pairwise_mergeSort' (· ≤ ·) (list.map Prod.fst)
  refine List.Perm.eq_of_pairwise (fun _ _ _ _ => le_antisymm) (sorted.imp fun less => le_of_lt less)
    merged ?_
  refine ((List.perm_ext_iff_of_nodup (sorted.imp fun less => ne_of_lt less) distinct).mpr
    fun name => mem_names_ofList).trans (List.mergeSort_perm _ _).symm

end Built

end Stencil.Assoc
