/-
**The nodes of a template.**

A template is a sequence of nodes. Blocks, definitions and includes hold further nodes: the default
content of a block, the body of a definition, and the definitions that an include is given.
-/

import Stencil.Markup.Fault

namespace Stencil.Markup

/-- **How a definition meets the block of its name.** -/
inductive Mode
  /-- It stands in place of the block's content. -/
  | override
  /-- It follows the block's content. -/
  | append
  /-- It stands in place of the block's content. -/
  | prepend
  deriving DecidableEq, Repr, Inhabited

namespace Mode

/-- The word for a mode. -/
def name : Mode → String
  | .override => "override"
  | .append => "append"
  | .prepend => "prepend"

/-- **The mode that a word stands for.** -/
def ofName (word : String) : Except Fault Mode :=
  if word = "override" then .ok .override
  else if word = "append" then .ok .append
  else if word = "prepend" then .ok .prepend
  else .error ⟨.unknownMode word, []⟩

theorem ofName_name (mode : Mode) : ofName mode.name = .ok mode := by
  cases mode <;> rfl

end Mode

/-- **What becomes of the value of an expression.** -/
inductive Delivery
  /-- It is written with HTML escapes. -/
  | escaped
  /-- It is written as it is. -/
  | raw
  /-- It is dropped. -/
  | dropped
  deriving DecidableEq, Repr

mutual

/-- **One piece of a template.** -/
inductive Node
  /-- Text that is copied to the output. -/
  | text (content : String)
  /-- Content for the blocks of a name. -/
  | definition (definition : Definition)
  /-- A place that definitions can fill, with its default content. -/
  | block (name : String) (body : List Node)
  /-- Another template, with definitions for its blocks. -/
  | inclusion (file : String) (overrides : List Definition)
  /-- An expression to evaluate. -/
  | expression (source : String) (delivery : Delivery)
  /-- A name to bind to the value of an expression. -/
  | variable (name : String) (source : String)

/-- **A named body**, and how it meets the block of its name. -/
inductive Definition
  | mk (name : String) (mode : Mode) (body : List Node)

end

instance : Inhabited Node := ⟨.text ""⟩

instance : Inhabited Definition := ⟨.mk "" .override []⟩

/-- The name of a definition. -/
def Definition.name : Definition → String
  | .mk name _ _ => name

/-- The mode of a definition. -/
def Definition.mode : Definition → Mode
  | .mk _ mode _ => mode

/-- The body of a definition. -/
def Definition.body : Definition → List Node
  | .mk _ _ body => body

/-- The kind of a node. -/
def Node.kind : Node → NodeKind
  | .text _ => .text
  | .definition _ => .definition
  | .block _ _ => .block
  | .inclusion _ _ => .inclusion
  | .expression _ _ => .expression
  | .variable _ _ => .variable

end Stencil.Markup
