/-
**Text inside HTML.**

* `Html.escape`: the five characters that mean something in HTML text and attribute values, written as
  entities;
* `Html.escape_append`: a text is escaped piece by piece.
-/

namespace Stencil.Html

/-- **A character as it is written in HTML.** -/
def escapeChar (c : Char) : List Char :=
  if c = '&' then ['&', 'a', 'm', 'p', ';']
  else if c = '<' then ['&', 'l', 't', ';']
  else if c = '>' then ['&', 'g', 't', ';']
  else if c = '"' then ['&', 'q', 'u', 'o', 't', ';']
  else if c = '\'' then ['&', '#', '3', '9', ';']
  else [c]

/-- **A text as it is written in HTML.** -/
def escape (text : String) : String :=
  String.ofList (text.toList.flatMap escapeChar)

theorem toList_escape (text : String) : (escape text).toList = text.toList.flatMap escapeChar := by
  simp [escape]

/-- **A text is escaped piece by piece.** -/
theorem escape_append (first second : String) :
    escape (first ++ second) = escape first ++ escape second := by
  simp [escape, String.ofList_append]

end Stencil.Html
