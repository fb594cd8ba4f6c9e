/-
**The two texts of a value.**

* `Value.json`: compact JSON, without blanks, fields sorted by name;
* `Value.output`: what a template writes; null writes nothing, a text writes itself, an array writes
  its items with commas between them and an object writes its JSON.

Both write numbers alike (`Number.text`). JSON writes a text between double quotes, with a backslash
before what must not stand there as it is (`Text.quote`).
-/

import Stencil.Decimal.Notation
import Stencil.Value.Basic

namespace Stencil

/-! ### Quoted text -/

namespace Text

/-- The last hexadecimal digit of a number. -/
def hexDigit (n : Nat) : Char :=
  Nat.digitChar (n % 16)

/-- **A character as it stands between quotes.** -/
def quoteChar (c : Char) : List Char :=
  if c = '"' then ['\\', '"']
  else if c = '\\' then ['\\', '\\']
  else if c = '\x08' then ['\\', 'b']
  else if c = '\x0c' then ['\\', 'f']
  else if c = '\n' then ['\\', 'n']
  else if c = '\r' then ['\\', 'r']
  else if c = '\t' then ['\\', 't']
  else if c.toNat < 0x20 then ['\\', 'u', '0', '0', hexDigit (c.toNat / 16), hexDigit c.toNat]
  else [c]

/-- **The quoted form of a text.** -/
def quote (text : List Char) : List Char :=
  '"' :: text.flatMap quoteChar ++ ['"']

example : quote ['a', '\x1f', '"'] = ['"', 'a', '\\', 'u', '0', '0', '1', 'f', '\\', '"', '"'] := by
  decide

end Text

/-! ### Numbers and truth values -/

/-- **Doubles have all their places from five after the point to sixteen before it.** -/
def Number.style : Decimal.Style := ⟨-5, 15⟩

/-- The text of an integer: digits, after a minus sign if it is negative. -/
def Number.intText (n : Int) : List Char :=
  if n < 0 then '-' :: Nat.toDigits 10 n.natAbs else Nat.toDigits 10 n.natAbs

/-- **The text of a number.** -/
def Number.text : Number → String
  | .int n => String.ofList (intText n)
  | .double x => String.ofList (style.writeDouble x)

/-- The text of a truth value. -/
def boolText (b : Bool) : String :=
  if b then "true" else "false"

/-! ### Values -/

namespace Value

mutual

/-- **The compact JSON text.** -/
def json : Value → String
  | .null => "null"
  | .bool b => boolText b
  | .number n => n.text
  | .text s => String.ofList (Text.quote s.toList)
  | .array items => "[" ++ jsonItems items ++ "]"
  | .object fields => "\x7b" ++ jsonFields fields ++ "\x7d"

/-- Items with commas between them. -/
def jsonItems : List Value → String
  | [] => ""
  | [item] => json item
  | item :: rest => json item ++ "," ++ jsonItems rest

/-- Fields with commas between them. -/
def jsonFields : List (String × Value) → String
  | [] => ""
  | [(name, value)] => String.ofList (Text.quote name.toList) ++ ":" ++ json value
  | (name, value) :: rest =>
    String.ofList (Text.quote name.toList) ++ ":" ++ json value ++ "," ++ jsonFields rest

end

mutual

/-- **What a template writes for a value.** -/
def output : Value → String
  | .null => ""
  | .bool b => boolText b
  | .number n => n.text
  | .text s => s
  | .array items => outputItems items
  | .object fields => json (.object fields)

/-- What is written for items, with commas between. -/
def outputItems : List Value → String
  | [] => ""
  | [item] => output item
  | item :: rest => output item ++ "," ++ outputItems rest

end

example : (array [.int 1, .text "a", .null]).output = "1,a," := by decide

example : (object [("k", .array [.bool true, .text "\n"])]).output =
    "\x7b\"k\":[true,\"\\n\"]\x7d" := by decide

end Value

end Stencil
