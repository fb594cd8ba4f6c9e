/-
**Printing nodes.**

The printed form of nodes is a source for them. Text stands in verbatim sections, with a new section
before each slash, so that no section ends early. Names stand between quotes with a backslash before
each character, so that no two braces stand side by side. Expressions stand between blanks.

* `Node.printed`, `Node.source`: **the printer**;
* `Node.Printable`: what can be printed. Texts are not empty and do not stand side by side, names of
  variables and expressions are what a source can say; names and addresses are arbitrary.
-/

import Stencil.Markup.Tree
import Mathlib.Data.List.SplitBy

namespace Stencil.Markup

open Tag Text

/-! ### The printer -/

/-- A verbatim section. -/
def printSection (piece : List Char) : List Char :=
  openBraces ++ (openBraces ++ ('r' :: closeSection ++
    (piece ++ (endSection ++ 'r' :: closeSection))))

/-- The pieces of a text that each fit a section: a slash stands only at the start of a piece. -/
def pieces (content : List Char) : List (List Char) :=
  content.splitBy fun _ c => c != '/'

/-- Text in sections. -/
def printText (content : List Char) : List Char :=
  (pieces content).flatMap printSection

/-- The characters of a name between its quotes. -/
def escaped (name : List Char) : List Char :=
  name.flatMap fun c => ['\\', c]

/-- A name between quotes. -/
def quoted (name : String) : List Char :=
  '"' :: (escaped name.toList ++ ['"'])

/-- A tag with two braces. -/
def printTag (content : List Char) : List Char :=
  openBraces ++ (content ++ closeBraces)

/-- A group with what its opening tag says after the opener. -/
def printGroup (opener : Opener) (arguments inside : List Char) : List Char :=
  printTag ('#' :: (opener.word.toList ++ ' ' :: arguments)) ++
    (inside ++ printTag ('/' :: opener.word.toList))

/-- What stands in the tag of a variable before its expression. -/
def bindingLead (name : String) : List Char :=
  'v' :: 'a' :: 'r' :: ' ' :: (name.toList ++ [' ', '='])

mutual

/-- **The printed form of a node.** -/
def Node.printed : Node → List Char
  | .text content => printText content.toList
  | .definition definition => definition.printed
  | .block name body => printGroup .block (quoted name) (Node.allPrinted body)
  | .inclusion file overrides =>
    printGroup .inclusion (quoted file) (Definition.allPrinted overrides)
  | .expression source .escaped => printTag (' ' :: (source.toList ++ [' ']))
  | .expression source .raw =>
    openBraces ++ ('{' :: ' ' :: (source.toList ++ ' ' :: closeRaw))
  | .expression source .dropped => printTag ('d' :: 'o' :: ' ' :: (source.toList ++ [' ']))
  | .variable name source => printTag (bindingLead name ++ ' ' :: (source.toList ++ [' ']))

def Node.allPrinted : List Node → List Char
  | [] => []
  | first :: rest => first.printed ++ Node.allPrinted rest

def Definition.printed : Definition → List Char
  | .mk name mode body =>
    printGroup .definition (quoted name ++ ' ' :: mode.name.toList) (Node.allPrinted body)

def Definition.allPrinted : List Definition → List Char
  | [] => []
  | first :: rest => first.printed ++ Definition.allPrinted rest

end

/-- **A source for nodes.** -/
def Node.source (nodes : List Node) : String :=
  String.ofList (Node.allPrinted nodes)

/-! ### What can be printed -/

/-- **An expression that can stand before closing braces**: it is not empty, has no blanks around
it, and does not contain the braces. -/
structure IsSource (braces : List Char) (source : String) : Prop where
  nonempty : source ≠ ""
  trimmed : trim source.toList = source.toList
  unclosed : ¬ braces <:+: source.toList

/-- A source that would be read as a statement: it starts with a keyword and a blank. -/
def StartsWith (keyword source : String) : Prop :=
  ∃ blank rest, isBlank blank = true ∧ source.toList = keyword.toList ++ blank :: rest

/-- **The name of a variable.** -/
def IsVariableName (name : String) : Prop :=
  ∃ first rest, name.toList = first :: rest ∧ isVariableStart first = true ∧
    ∀ c ∈ rest, isVariablePart c = true

def Node.IsText : Node → Prop
  | .text _ => True
  | _ => False

mutual

/-- **A node that can be printed.** -/
def Node.Printable : Node → Prop
  | .text content => content ≠ ""
  | .definition definition => definition.Printable
  | .block _ body => Node.AllPrintable body
  | .inclusion _ overrides => Definition.AllPrintable overrides
  | .expression source .escaped =>
    IsSource closeBraces source ∧ ¬ StartsWith "var" source ∧ ¬ StartsWith "do" source
  | .expression source .raw => IsSource closeRaw source
  | .expression source .dropped => IsSource closeBraces source
  | .variable name source => IsVariableName name ∧ IsSource closeBraces source

/-- **Nodes that can be printed** side by side: of two neighbours one is no text. -/
def Node.AllPrintable : List Node → Prop
  | [] => True
  | first :: rest => first.Printable ∧ Node.AllPrintable rest ∧
    ∀ next ∈ rest.head?, ¬ (first.IsText ∧ next.IsText)

def Definition.Printable : Definition → Prop
  | .mk _ _ body => Node.AllPrintable body

def Definition.AllPrintable : List Definition → Prop
  | [] => True
  | first :: rest => first.Printable ∧ Definition.AllPrintable rest

end

end Stencil.Markup
