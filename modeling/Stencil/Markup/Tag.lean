/-
**Tags**: what stands between double braces in the source of a template.

`Tag.first?` splits a text at its first tag, into what comes before, the content and what comes after;
`Tag.walk` goes on until no tag is left. The forms of a tag:

* two braces: escaped output, or a `var` or `do` statement;
* three braces: output as it is;
* two braces and `!`: a comment; `!--` makes one that ends with `--` and two braces;
* two braces and `#`, `/` or `>`: the start of a group, its end, an include;
* a backslash and two braces: the two braces themselves;
* four braces: a section whose text is taken as it is.

A `~` just inside the braces removes the blanks on that side of the tag. Main statement:

* `first?_shorter`: what comes after a tag is shorter than the text it was found in.
-/

import Stencil.Markup.Fault
import Stencil.Text.Blank
import Stencil.Text.Search

namespace Stencil.Markup

open Text

/-- The forms of a tag. -/
inductive Tag.Form
  | comment
  | escaped
  | raw
  | opening
  | closing
  | inclusion
  | verbatim
  deriving DecidableEq, Repr

/-- **A tag and the text around it.** -/
structure Tag where
  form : Tag.Form
  /-- The text before the tag. -/
  before : List Char
  /-- The content, without braces and marks. -/
  content : List Char
  /-- The text after the tag. -/
  after : List Char
  /-- The content and the braces that close it, for messages. -/
  raw : List Char
  /-- The text from the content on, for positions. -/
  here : List Char
  deriving DecidableEq, Repr

namespace Tag

/-! ### Delimiters -/

/-- The braces that open most tags. -/
def openBraces : List Char := ['{', '{']

/-- The braces that close most tags. -/
def closeBraces : List Char := ['}', '}']

/-- The braces that close output as it is. -/
def closeRaw : List Char := ['}', '}', '}']

/-- The end of a comment that may contain tags. -/
def closeLongComment : List Char := ['-', '-', '}', '}']

/-- The braces that close the tags of a verbatim section. -/
def closeSection : List Char := ['}', '}', '}', '}']

/-- The start of the tag that ends a verbatim section. -/
def endSection : List Char := ['{', '{', '{', '{', '/']

/-! ### One tag -/

/-- A text without the `~` it may start with, and the text before it, which then loses its last
blanks. -/
def trimMark (before : List Char) : List Char → List Char × List Char
  | '~' :: rest => (trimEnd before, rest)
  | rest => (before, rest)

/-- **Finds the end of a tag** whose content starts with `here`. The content must not be blank; if it
ends with `~`, what comes after loses its first blanks. -/
def close (form : Form) (before here delimiter : List Char) : Except Fault Tag :=
  match cut delimiter here with
  | none => .error ⟨.unclosedTag, before⟩
  | some (inside, after) =>
    if isBlankText inside then .error ⟨.emptyTag, before⟩
    else if inside.getLast? = some '~' then
      .ok { form, before, content := inside.dropLast, after := trimStart after,
            raw := (inside ++ delimiter).dropLast, here }
    else
      .ok { form, before, content := inside, after, raw := inside ++ delimiter, here }

/-- **The text up to the first end tag with the given name**, and what comes after that tag. End tags
with other names belong to the text. -/
def sectionEnd? (name text : List Char) : Option (List Char × List Char) :=
  match _opened : cut endSection text with
  | none => none
  | some (skipped, rest) =>
    match _closed : cut closeSection rest with
    | none => none
    | some (label, after) =>
      if trim label = name then some (skipped, after)
      else
        (sectionEnd? name after).map fun found =>
          (skipped ++ endSection ++ label ++ closeSection ++ found.1, found.2)
termination_by text.length
decreasing_by
  have first := cut_length_lt (by decide) _opened
  have second := cut_length_lt (by decide) _closed
  omega

/-- **A verbatim section**: the text between its two tags, as it is. -/
def verbatimSection (opened : Tag) : Except Fault Tag :=
  match sectionEnd? (trim opened.content) opened.after with
  | none => .error ⟨.unclosedTag, opened.raw⟩
  | some (content, after) => .ok { opened with content, after, here := opened.after }

/-- **The tag whose opening braces stand between `before` and `body`**, by the character that follows
them. -/
def ofBody (before body : List Char) : Except Fault Tag :=
  let (before, inner) := trimMark before body
  match inner with
  | [] => .error ⟨.unclosedTag, openBraces ++ body⟩
  | '{' :: '{' :: rest =>
    let (before, rest) := trimMark before rest
    (close .verbatim before rest closeSection).bind verbatimSection
  | '{' :: rest =>
    let (before, rest) := trimMark before rest
    close .raw before rest closeRaw
  | '!' :: '-' :: '-' :: rest => close .comment before rest closeLongComment
  | '!' :: rest => close .comment before rest closeBraces
  | '#' :: rest => close .opening before rest closeBraces
  | '/' :: rest => close .closing before rest closeBraces
  | '>' :: rest => close .inclusion before rest closeBraces
  | inner => close .escaped before inner closeBraces

/-- **The first tag of a text**, if there is one. -/
def first? (text : List Char) : Except Fault (Option Tag) :=
  match cut openBraces text with
  | none => .ok none
  | some (before, body) =>
    if before.getLast? = some '\\' then
      .ok (some { form := .verbatim, before := before.dropLast, content := openBraces, after := body,
                  raw := openBraces, here := openBraces ++ body })
    else (ofBody before body).map some

/-! ### Tags end -/

theorem close_shorter {form : Form} {before here delimiter : List Char} {tag : Tag}
    (nonempty : delimiter ≠ []) (closed : close form before here delimiter = .ok tag) :
    tag.after.length < here.length := by
  unfold close at closed
  split at closed
  · cases closed
  · rename_i inside after found
    have shorter := cut_length_lt nonempty found
    split at closed
    · cases closed
    · split at closed <;> cases closed
      · exact Nat.lt_of_le_of_lt (trimStart_length_le after) shorter
      · exact shorter

theorem sectionEnd?_shorter {name text content after : List Char}
    (found : sectionEnd? name text = some (content, after)) : after.length < text.length := by
  fun_induction sectionEnd? name text generalizing content with
  | case1 => cases found
  | case2 => cases found
  | case3 text skipped rest opened label tail closed same =>
    cases found
    have first := cut_length_lt (by decide) opened
    have second := cut_length_lt (by decide) closed
    omega
  | case4 text skipped rest opened label tail closed differ ih =>
    obtain ⟨inner, isEnd, pieces⟩ := Option.map_eq_some_iff.mp found
    cases pieces
    have first := cut_length_lt (by decide) opened
    have second := cut_length_lt (by decide) closed
    have third := ih isEnd
    omega

theorem verbatimSection_shorter {opened tag : Tag} (found : verbatimSection opened = .ok tag) :
    tag.after.length < opened.after.length := by
  unfold verbatimSection at found
  split at found
  · cases found
  · rename_i content after isEnd
    cases found
    exact sectionEnd?_shorter isEnd

theorem trimMark_length_le (before text : List Char) :
    (trimMark before text).2.length ≤ text.length := by
  unfold trimMark
  split <;> simp

theorem ofBody_shorter {before body : List Char} {tag : Tag} (found : ofBody before body = .ok tag) :
    tag.after.length ≤ body.length := by
  have inner := trimMark_length_le before body
  unfold ofBody at found
  simp only at found
  split at found
  · cases found
  · rename_i rest eq
    have marked := trimMark_length_le (trimMark before body).1 rest
    cases opened : close .verbatim (trimMark (trimMark before body).1 rest).1
        (trimMark (trimMark before body).1 rest).2 closeSection with
    | error fault => rw [opened] at found; cases found
    | ok first =>
      rw [opened] at found
      have outer := close_shorter (by decide) opened
      have shorter := verbatimSection_shorter found
      simp only [eq, List.length_cons] at inner
      omega
  · rename_i rest _ eq
    have marked := trimMark_length_le (trimMark before body).1 rest
    have shorter := close_shorter (by decide) found
    simp only [eq, List.length_cons] at inner
    omega
  all_goals
    rename_i eq
    have shorter := close_shorter (by decide) found
    try simp only [eq, List.length_cons] at inner
    omega

/-- **What comes after a tag is shorter than the text it was found in.** -/
theorem first?_shorter {text : List Char} {tag : Tag} (found : first? text = .ok (some tag)) :
    tag.after.length < text.length := by
  unfold first? at found
  split at found
  · cases found
  · rename_i before body isCut
    have shorter := cut_length_lt (by decide) isCut
    split at found
    · cases found
      exact shorter
    · cases inner : ofBody before body with
      | error fault => rw [inner] at found; cases found
      | ok made =>
        rw [inner] at found
        cases found
        have rest := ofBody_shorter inner
        omega

/-! ### All tags -/

/-- **The tags of a text**: all up to the end or to the first fault, and the text that is left. -/
structure Walk where
  tags : List Tag
  rest : List Char
  fault : Option Fault
  deriving DecidableEq, Repr

/-- **Splits a text into its tags**, each found in what comes after the one before. -/
def walk (text : List Char) : Walk :=
  match _found : first? text with
  | .error fault => ⟨[], text, some fault⟩
  | .ok none => ⟨[], text, none⟩
  | .ok (some tag) =>
    let more := walk tag.after
    { more with tags := tag :: more.tags }
termination_by text.length
decreasing_by exact first?_shorter _found

end Tag

end Stencil.Markup
