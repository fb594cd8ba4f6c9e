/-
**Offsets and positions in a text.**

An offset counts the bytes of the UTF-8 form; a position counts lines and, in its line, characters,
both from one. Main statements:

* `Position.ofOffset_append`: the offset at which a first part ends has the position reached by
  walking over that part;
* `Position.before_suffix`: the position before a rest is the one reached by walking over what
  comes before it.
-/

namespace Stencil.Text

/-- The number of bytes of the UTF-8 form. -/
def utf8Size (text : List Char) : Nat :=
  text.foldr (fun c size => c.utf8Size + size) 0

@[simp] theorem utf8Size_nil : utf8Size [] = 0 := rfl

@[simp] theorem utf8Size_cons (c : Char) (text : List Char) :
    utf8Size (c :: text) = c.utf8Size + utf8Size text := rfl

@[simp] theorem utf8Size_append (first second : List Char) :
    utf8Size (first ++ second) = utf8Size first + utf8Size second := by
  induction first with
  | nil => simp
  | cons c first ih => rw [List.cons_append, utf8Size_cons, utf8Size_cons, ih, Nat.add_assoc]

/-- **A place in a text**, for a reader: line and column, counted from one. -/
structure Position where
  line : Nat
  column : Nat
  deriving DecidableEq, Repr, Inhabited

namespace Position

/-- The place where a text starts. -/
def start : Position := ⟨1, 1⟩

/-- The place after the character `c`: only a line feed starts a line. -/
def next (position : Position) (c : Char) : Position :=
  if c = '\n' then ⟨position.line + 1, 1⟩ else ⟨position.line, position.column + 1⟩

/-- The place after a text. -/
def advance (position : Position) (text : List Char) : Position :=
  text.foldl next position

/-- Walks over the characters that start before `offset`. -/
def seek (position : Position) : List Char → Nat → Position
  | [], _ => position
  | _ :: _, 0 => position
  | c :: rest, offset + 1 => seek (position.next c) rest (offset + 1 - c.utf8Size)

/-- **The position of a byte offset**; inside a character it is that of the next character, past the
end that of the end. -/
def ofOffset (text : List Char) (offset : Nat) : Position :=
  seek start text offset

/-- The position at which `rest`, the end of `text`, begins. -/
def before (text rest : List Char) : Position :=
  ofOffset text (utf8Size text - utf8Size rest)

/-- How a position is written. -/
def message (position : Position) : String :=
  s!"line {position.line}, column {position.column}"

theorem seek_append (position : Position) (first second : List Char) :
    seek position (first ++ second) (utf8Size first) = advance position first := by
  induction first generalizing position with
  | nil => cases second <;> simp [seek, advance]
  | cons c first ih =>
    have pos : 0 < c.utf8Size := c.utf8Size_pos
    obtain ⟨size, eq⟩ : ∃ size, utf8Size (c :: first) = size + 1 :=
      ⟨utf8Size (c :: first) - 1, by simp; omega⟩
    rw [eq, List.cons_append, seek, ← eq, utf8Size_cons, Nat.add_sub_cancel_left, ih]
    rfl

/-- **The offset at which a first part ends is reached by walking over that part.** -/
theorem ofOffset_append (first second : List Char) :
    ofOffset (first ++ second) (utf8Size first) = advance start first :=
  seek_append start first second

/-- **The position before a rest is reached by walking over what comes before it.** -/
theorem before_suffix (first rest : List Char) :
    before (first ++ rest) rest = advance start first := by
  rw [before, utf8Size_append, Nat.add_sub_cancel, ofOffset_append]

end Position

end Stencil.Text
