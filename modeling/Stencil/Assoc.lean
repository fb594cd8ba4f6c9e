/-
**Association lists**: names and what they stand for, in the order of the names.

Main statement:

* `find?_insert`: after `insert name value`, `name` finds `value` and every other name what it found
  before.
-/

namespace Stencil

/-- **Entries by name.** Lists built by `insert` are sorted by name and hold each name once. -/
abbrev Assoc (α : Type) := List (String × α)

namespace Assoc

variable {α : Type}

/-- What `name` stands for. -/
def find? (name : String) : Assoc α → Option α
  | [] => none
  | entry :: rest => if entry.1 = name then some entry.2 else find? name rest

/-- Makes `name` stand for `value`, in place of what it stood for. -/
def insert (name : String) (value : α) : Assoc α → Assoc α
  | [] => [(name, value)]
  | entry :: rest =>
    if entry.1 = name then (name, value) :: rest
    else if name < entry.1 then (name, value) :: entry :: rest
    else entry :: insert name value rest

/-- The entries without the one of `name`. -/
def erase (name : String) (entries : Assoc α) : Assoc α :=
  entries.filter fun entry => entry.1 ≠ name

/-- The names, in order. -/
def names (entries : Assoc α) : List String :=
  entries.map Prod.fst

/-- The entries in the order of their names; of two with one name the later counts. -/
def ofList (entries : List (String × α)) : Assoc α :=
  entries.foldl (fun sorted entry => insert entry.1 entry.2 sorted) []

@[simp] theorem find?_nil (name : String) : find? name ([] : Assoc α) = none := rfl

/-- What a name finds is an entry with that name. -/
theorem mem_of_find? {name : String} {value : α} {entries : Assoc α}
    (found : find? name entries = some value) : (name, value) ∈ entries := by
  induction entries with
  | nil => cases found
  | cons entry rest ih =>
    rw [find?] at found
    split at found
    · rename_i same
      cases found
      exact same ▸ List.mem_cons_self
    · exact List.mem_cons_of_mem _ (ih found)

/-- **What a name finds after an insertion.** -/
theorem find?_insert (name other : String) (value : α) (entries : Assoc α) :
    find? other (insert name value entries) =
      if name = other then some value else find? other entries := by
  induction entries with
  | nil => simp [insert, find?]
  | cons entry rest ih =>
    by_cases same : entry.1 = name
    · by_cases hit : name = other <;> simp [insert, find?, same, hit]
    · by_cases first : name < entry.1
      · simp [insert, find?, same, first]
      · rw [insert, if_neg same, if_neg first, find?, ih, find?]
        by_cases hit : name = other
        · simp [← hit, same]
        · simp [hit]

@[simp] theorem find?_insert_self (name : String) (value : α) (entries : Assoc α) :
    find? name (insert name value entries) = some value := by
  simp [find?_insert]

theorem find?_insert_of_ne {name other : String} (differ : name ≠ other) (value : α)
    (entries : Assoc α) : find? other (insert name value entries) = find? other entries := by
  simp [find?_insert, differ]

end Assoc

end Stencil
