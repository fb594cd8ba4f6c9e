/-
**Arguments of a tag**: words and quoted texts with blanks between them.

* `Argument.first?`, `Argument.next?`: the arguments one after the other;
* `Argument.walk`: all of them;
* `Argument.text`: what an argument says, without quotes and backslashes;
* `Argument.read?_shorter`: each argument leaves less text for the next.
-/

import Stencil.Markup.Fault
import Stencil.Text.Blank

namespace Stencil.Markup

open Text

/-- **An argument and the text after it.** -/
structure Argument where
  /-- Whether it stands between quotes. -/
  quoted : Bool
  /-- The argument as it is written, with its quotes. -/
  value : List Char
  /-- The text after it, from the next argument on. -/
  tail : List Char
  deriving DecidableEq, Repr

namespace Argument

/-- **The text up to the quote that ends a quoted argument**, and what comes after it. A backslash
takes its meaning from the next character, unless a backslash stands before it that has. -/
def endQuote? (quote : Char) : Bool → List Char → Option (List Char × List Char)
  | _, [] => none
  | escaped, c :: rest =>
    if c = '\\' then (endQuote? quote (!escaped) rest).map fun found => (c :: found.1, found.2)
    else if c = quote ∧ escaped = false then some ([c], rest)
    else (endQuote? quote false rest).map fun found => (c :: found.1, found.2)

/-- **The argument that a text starts with**, if it is not empty. -/
def read? : List Char → Except Fault (Option Argument)
  | [] => .ok none
  | c :: rest =>
    if c = '"' ∨ c = '\'' then
      match endQuote? c false rest with
      | none => .error ⟨.unterminatedString, c :: rest⟩
      | some (inside, after) => .ok (some ⟨true, c :: inside, trimStart after⟩)
    else
      .ok (some
        ⟨false, (c :: rest).takeWhile (!isBlank ·), trimStart ((c :: rest).dropWhile (!isBlank ·))⟩)

/-- **The first argument** of a tag's content. -/
def first? (content : List Char) : Except Fault (Option Argument) :=
  read? (trim content)

/-- **The argument after this one.** -/
def next? (argument : Argument) : Except Fault (Option Argument) :=
  read? argument.tail

/-- A text in which each backslash has given its place to the character after it. -/
def unescape : List Char → List Char
  | '\\' :: c :: rest => c :: unescape rest
  | ['\\'] => []
  | c :: rest => c :: unescape rest
  | [] => []

/-- **What an argument says.** -/
def text (argument : Argument) : List Char :=
  if argument.quoted then unescape argument.value.tail.dropLast else argument.value

/-! ### Arguments end -/

theorem endQuote?_append {quote : Char} {escaped : Bool} {content inside after : List Char}
    (found : endQuote? quote escaped content = some (inside, after)) :
    content = inside ++ after := by
  induction content generalizing escaped inside with
  | nil => cases found
  | cons c rest ih =>
    simp only [endQuote?] at found
    split at found
    · obtain ⟨inner, isEnd, pieces⟩ := Option.map_eq_some_iff.mp found
      cases pieces
      simp [ih isEnd]
    · split at found
      · cases found
        rfl
      · obtain ⟨inner, isEnd, pieces⟩ := Option.map_eq_some_iff.mp found
        cases pieces
        simp [ih isEnd]

/-- **Each argument leaves less text for the next.** -/
theorem read?_shorter {content : List Char} {argument : Argument}
    (found : read? content = .ok (some argument)) : argument.tail.length < content.length := by
  cases content with
  | nil => cases found
  | cons c rest =>
    simp only [read?] at found
    split at found
    · split at found
      · cases found
      · rename_i inside after isEnd
        cases found
        have pieces : rest.length = inside.length + after.length := by
          rw [endQuote?_append isEnd, List.length_append]
        have trimmed := trimStart_length_le after
        simp only [List.length_cons]
        omega
    · cases found
      by_cases blank : isBlank c
      · have trimmed := trimStart_length_le rest
        simp only [trimStart, List.dropWhile_cons, blank, Bool.not_true, Bool.false_eq_true,
          if_false, if_true, List.length_cons]
        exact Nat.lt_succ_of_le trimmed
      · have trimmed := trimStart_length_le (rest.dropWhile (!isBlank ·))
        have dropped : (rest.dropWhile (!isBlank ·)).length ≤ rest.length :=
          (List.dropWhile_sublist _).length_le
        simp only [List.dropWhile_cons, blank, Bool.not_false, if_true, List.length_cons]
        omega

/-! ### All arguments -/

/-- **The arguments of a text**: all up to the end or to the first fault. -/
structure Walk where
  arguments : List Argument
  fault : Option Fault
  deriving DecidableEq, Repr

/-- The arguments from the start of a text on. -/
def walkFrom (content : List Char) : Walk :=
  match _found : read? content with
  | .error fault => ⟨[], some fault⟩
  | .ok none => ⟨[], none⟩
  | .ok (some argument) =>
    let more := walkFrom argument.tail
    { more with arguments := argument :: more.arguments }
termination_by content.length
decreasing_by exact read?_shorter _found

/-- **All arguments of a tag's content.** -/
def walk (content : List Char) : Walk :=
  walkFrom (trim content)

end Argument

end Stencil.Markup
