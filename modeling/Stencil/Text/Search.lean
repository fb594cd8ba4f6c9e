/-
**The first place where a mark occurs.**

* `cut mark text` is the text before and after the first occurrence of `mark`.
* `cut_eq_some`: what is before, the mark and what is after make up the text.
* `cut_length_lt`: after a non-empty mark less is left.
-/

namespace Stencil.Text

/-- **The text before and after the first occurrence of `mark`**, if it occurs. -/
def cut (mark : List Char) : List Char → Option (List Char × List Char)
  | [] => (mark.isPrefixOf? []).map fun after => ([], after)
  | c :: rest =>
    match mark.isPrefixOf? (c :: rest) with
    | some after => some ([], after)
    | none => (cut mark rest).map fun found => (c :: found.1, found.2)

theorem isPrefixOf?_eq_some {mark text after : List Char}
    (found : mark.isPrefixOf? text = some after) : text = mark ++ after := by
  induction mark generalizing text with
  | nil => exact Option.some.inj found
  | cons c mark ih =>
    cases text with
    | nil => cases found
    | cons d text =>
      change (if c == d then mark.isPrefixOf? text else none) = some after at found
      split at found
      · rename_i same
        rw [eq_of_beq same, List.cons_append, ← ih found]
      · cases found

/-- **The pieces of a cut make up the text.** -/
theorem cut_eq_some {mark text before after : List Char}
    (found : cut mark text = some (before, after)) : text = before ++ mark ++ after := by
  induction text generalizing before with
  | nil =>
    simp only [cut, Option.map_eq_some_iff] at found
    obtain ⟨rest, isStart, pieces⟩ := found
    cases pieces
    exact isPrefixOf?_eq_some isStart
  | cons c text ih =>
    rw [cut] at found
    split at found
    · rename_i rest isStart
      cases found
      exact isPrefixOf?_eq_some isStart
    · obtain ⟨inner, isCut, pieces⟩ := Option.map_eq_some_iff.mp found
      cases pieces
      have rest : text = inner.1 ++ mark ++ inner.2 := ih isCut
      rw [List.cons_append, List.cons_append, ← rest]

/-- **After a non-empty mark less is left.** -/
theorem cut_length_lt {mark text before after : List Char} (nonempty : mark ≠ [])
    (found : cut mark text = some (before, after)) : after.length < text.length := by
  have pos : 0 < mark.length := List.length_pos_iff.mpr nonempty
  rw [cut_eq_some found]
  simp only [List.length_append]
  omega

end Stencil.Text
