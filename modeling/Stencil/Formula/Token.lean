/-
**The tokens of an expression.**

An expression is read as numbers, quoted texts, names and operators; blanks between them are skipped.
Each token is found with the byte offset at which it starts.

* `Lexeme.next`: the token that a text starts with, its width and the text after it;
* `Lexeme.next_shorter`: a token is never empty;
* `Lexeme.scan`: all tokens of a source.
-/

import Stencil.Formula.Fault
import Stencil.Text.Alphabetic
import Stencil.Text.Blank
import Stencil.Text.Numeric
import Stencil.Text.Position
import Stencil.Value.Basic

namespace Stencil.Formula

open Text

/-- **A value that is written out** in an expression. -/
inductive Literal
  | null
  | bool (b : Bool)
  | number (n : Number)
  | text (s : String)
  deriving DecidableEq

/-- The value of a literal. -/
def Literal.value : Literal → Value
  | .null => .null
  | .bool b => .bool b
  | .number n => .number n
  | .text s => .text s

/-- **The operators between two operands.** -/
inductive Operator
  | or
  | and
  | equal
  | notEqual
  | less
  | lessOrEqual
  | greater
  | greaterOrEqual
  | add
  | subtract
  | multiply
  | divide
  | remainder
  deriving DecidableEq, Repr

/-- How tightly an operator binds, from one to six. -/
def Operator.precedence : Operator → Nat
  | .or => 1
  | .and => 2
  | .equal | .notEqual => 3
  | .less | .lessOrEqual | .greater | .greaterOrEqual => 4
  | .add | .subtract => 5
  | .multiply | .divide | .remainder => 6

/-- **A token.** The sign before an operand is the operator of subtraction. -/
inductive Token
  | literal (value : Literal)
  | name (name : String)
  | dot
  | openBracket
  | closeBracket
  | openParenthesis
  | closeParenthesis
  | question
  | colon
  | not
  | operator (operator : Operator)
  deriving DecidableEq

/-! ### Characters -/

/-- A character that a name may start with. -/
def isNameStart (c : Char) : Bool :=
  isAlphabetic c || c = '_' || c = '$'

/-- A character that a name may go on with. -/
def isNamePart (c : Char) : Bool :=
  isAlphabetic c || isNumeric c || c = '_' || c = '$'

/-- The character that a backslash and `c` stand for. -/
def unescapeChar (c : Char) : Char :=
  if c = 'n' then '\n' else if c = 't' then '\t' else if c = 'r' then '\r' else c

/-! ### One token -/

/-- **A token that a text starts with**, the bytes it takes, and the text after it. -/
structure Lexeme.Piece where
  token : Token
  width : Nat
  rest : List Char

namespace Lexeme

/-- **The inside of a quoted text**, read up to its closing quote: what it says, the bytes it takes
with that quote, and the text after it. -/
def readQuoted? (quote : Char) : List Char → Option (List Char × Nat × List Char)
  | [] => none
  | ['\\'] => none
  | '\\' :: c :: rest =>
    (readQuoted? quote rest).map fun found =>
      (unescapeChar c :: found.1, 1 + c.utf8Size + found.2.1, found.2.2)
  | c :: rest =>
    if c = quote then some ([], c.utf8Size, rest)
    else (readQuoted? quote rest).map fun found => (c :: found.1, c.utf8Size + found.2.1, found.2.2)

/-- The number that decimal digits stand for. -/
def digitsValue (digits : List Char) : Nat :=
  digits.foldl (fun n c => 10 * n + (c.toNat - '0'.toNat)) 0

/-- The digits of a fraction: a point and at least one digit after it. -/
def fractionDigits : List Char → List Char
  | '.' :: rest => rest.takeWhile Char.isDigit
  | _ => []

/-- The largest integer that is read as one. -/
def maxInteger : Nat := Nat.pow 2 63 - 1

/-- **The number with the given digits**: an integer if it has no fraction and is not too large,
otherwise the nearest double, if that is finite. -/
def readNumber (whole fraction : List Char) : Option Number :=
  if fraction = [] ∧ digitsValue whole ≤ maxInteger then some (.int (digitsValue whole))
  else
    let x := Float.ofScientific (digitsValue (whole ++ fraction)) true fraction.length
    if x.isFinite then some (.double x) else none

/-- The literal or name that a word stands for. -/
def ofWord (word : String) : Token :=
  if word = "true" then .literal (.bool true)
  else if word = "false" then .literal (.bool false)
  else if word = "null" ∨ word = "undefined" then .literal .null
  else .name word

/-- **The operator or bracket that a text starts with**; of two that fit, the longer. -/
def symbol? : List Char → Option Piece
  | '=' :: '=' :: '=' :: rest => some ⟨.operator .equal, 3, rest⟩
  | '!' :: '=' :: '=' :: rest => some ⟨.operator .notEqual, 3, rest⟩
  | '=' :: '=' :: rest => some ⟨.operator .equal, 2, rest⟩
  | '!' :: '=' :: rest => some ⟨.operator .notEqual, 2, rest⟩
  | '<' :: '=' :: rest => some ⟨.operator .lessOrEqual, 2, rest⟩
  | '>' :: '=' :: rest => some ⟨.operator .greaterOrEqual, 2, rest⟩
  | '&' :: '&' :: rest => some ⟨.operator .and, 2, rest⟩
  | '|' :: '|' :: rest => some ⟨.operator .or, 2, rest⟩
  | '.' :: rest => some ⟨.dot, 1, rest⟩
  | '[' :: rest => some ⟨.openBracket, 1, rest⟩
  | ']' :: rest => some ⟨.closeBracket, 1, rest⟩
  | '(' :: rest => some ⟨.openParenthesis, 1, rest⟩
  | ')' :: rest => some ⟨.closeParenthesis, 1, rest⟩
  | '?' :: rest => some ⟨.question, 1, rest⟩
  | ':' :: rest => some ⟨.colon, 1, rest⟩
  | '!' :: rest => some ⟨.not, 1, rest⟩
  | '<' :: rest => some ⟨.operator .less, 1, rest⟩
  | '>' :: rest => some ⟨.operator .greater, 1, rest⟩
  | '+' :: rest => some ⟨.operator .add, 1, rest⟩
  | '-' :: rest => some ⟨.operator .subtract, 1, rest⟩
  | '*' :: rest => some ⟨.operator .multiply, 1, rest⟩
  | '/' :: rest => some ⟨.operator .divide, 1, rest⟩
  | '%' :: rest => some ⟨.operator .remainder, 1, rest⟩
  | _ => none

/-- **The token that starts with `c`**, which is not blank. -/
def next (c : Char) (rest : List Char) : Except Cause Piece :=
  if c = '"' ∨ c = '\'' then
    match readQuoted? c rest with
    | none => .error .unterminatedString
    | some (content, width, after) =>
      .ok ⟨.literal (.text (String.ofList content)), c.utf8Size + width, after⟩
  else if c.isDigit then
    let whole := (c :: rest).takeWhile Char.isDigit
    let after := rest.dropWhile Char.isDigit
    let fraction := fractionDigits after
    let point := if fraction = [] then [] else '.' :: fraction
    match readNumber whole fraction with
    | none => .error (.invalidNumber (String.ofList (whole ++ point)))
    | some n => .ok ⟨.literal (.number n), utf8Size (whole ++ point), after.drop point.length⟩
  else if isNameStart c then
    let word := c :: rest.takeWhile isNamePart
    .ok ⟨ofWord (String.ofList word), utf8Size word, rest.dropWhile isNamePart⟩
  else
    match symbol? (c :: rest) with
    | none => .error (.unexpectedCharacter c)
    | some piece => .ok piece

/-! ### Tokens end -/

theorem readQuoted?_shorter {quote : Char} {text content after : List Char} {width : Nat}
    (found : readQuoted? quote text = some (content, width, after)) :
    after.length < text.length := by
  fun_induction readQuoted? quote text generalizing content width with
  | case1 => cases found
  | case2 => cases found
  | case3 c rest ih =>
    obtain ⟨inner, isEnd, pieces⟩ := Option.map_eq_some_iff.mp found
    cases pieces
    have shorter := ih isEnd
    simp only [List.length_cons]
    omega
  | case4 rest =>
    cases found
    exact Nat.lt_succ_self _
  | case5 c rest _ _ differ ih =>
    obtain ⟨inner, isEnd, pieces⟩ := Option.map_eq_some_iff.mp found
    cases pieces
    have shorter := ih isEnd
    simp only [List.length_cons]
    omega

theorem symbol?_shorter {text : List Char} {piece : Piece} (found : symbol? text = some piece) :
    piece.rest.length < text.length := by
  unfold symbol? at found
  split at found <;> cases found <;> simp only [List.length_cons] <;> omega

/-- **A token is never empty**: the text after it is shorter. -/
theorem next_shorter {c : Char} {rest : List Char} {piece : Piece}
    (found : next c rest = .ok piece) : piece.rest.length < (c :: rest).length := by
  unfold next at found
  split at found
  · split at found
    · cases found
    · rename_i content width after isQuoted
      cases found
      exact Nat.lt_succ_of_lt (readQuoted?_shorter isQuoted)
  · split at found
    · simp only at found
      split at found
      · cases found
      · cases found
        have dropped : (rest.dropWhile Char.isDigit).length ≤ rest.length :=
          (List.dropWhile_sublist _).length_le
        simp only [List.length_drop, List.length_cons]
        omega
    · split at found
      · cases found
        exact Nat.lt_succ_of_le (List.dropWhile_sublist _).length_le
      · split at found
        · cases found
        · rename_i isSymbol
          cases found
          exact symbol?_shorter isSymbol

end Lexeme

/-! ### All tokens -/

/-- **A token and the byte offset at which it starts.** -/
structure Lexeme where
  token : Token
  offset : Nat
  deriving DecidableEq

namespace Lexeme

/-- **The tokens of a text** that starts at `offset`, or the first fault and its offset. -/
def scan (offset : Nat) (text : List Char) : Except (Cause × Nat) (List Lexeme) :=
  match text with
  | [] => .ok []
  | c :: rest =>
    if isBlank c then scan (offset + c.utf8Size) rest
    else
      match _found : next c rest with
      | .error cause => .error (cause, offset)
      | .ok piece =>
        (scan (offset + piece.width) piece.rest).map fun more => ⟨piece.token, offset⟩ :: more
termination_by text.length
decreasing_by
  · simp
  · exact next_shorter _found

/-- **Scanning goes on behind a token.** -/
theorem scan_token {offset : Nat} {c : Char} {rest : List Char} {piece : Piece}
    (solid : isBlank c = false) (found : next c rest = .ok piece) :
    scan offset (c :: rest) = (scan (offset + piece.width) piece.rest).map fun more =>
      ⟨piece.token, offset⟩ :: more := by
  rw [scan, if_neg (by simp [solid])]
  split
  · rename_i failed
    rw [failed] at found
    cases found
  · rename_i same
    rw [same] at found
    cases found
    rfl

end Lexeme

end Stencil.Formula
