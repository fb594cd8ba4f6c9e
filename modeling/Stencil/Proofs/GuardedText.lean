/-
**Any text can be written as a template.**

A backslash before each pair of opening braces keeps the braces from opening a tag. The first pair of
a guarded text stands behind the backslash that guards it, and what comes after it is guarded too; so
all that the text is cut into are texts, and together they are the text that was guarded.

* `guardBraces`, `guarded`: the guarded form of a text;
* `walk_guardBraces`: **a guarded text is cut into texts**, which make up the text itself;
* `parse_guarded`: it is parsed to that text;
* `Compiler.compile_guarded`: **it renders to that text**, over all bindings.
-/

import Stencil.Assembly.Compiler
import Stencil.Proofs.Hermetic
import Stencil.Proofs.TemplateParsing
import Stencil.Store.Memory

namespace Stencil

namespace Markup

open Tag Text

/-! ### Guarding -/

/-- **A backslash before each pair of opening braces**, from left to right; no brace is in two
pairs. -/
def guardBraces : List Char → List Char
  | '{' :: '{' :: rest => '\\' :: '{' :: '{' :: guardBraces rest
  | c :: rest => c :: guardBraces rest
  | [] => []

/-- **The guarded form of a text.** -/
def guarded (text : String) : String :=
  String.ofList (guardBraces text.toList)

/-- A text without pairs of opening braces is its own guarded form. -/
theorem guardBraces_of_cut_eq_none {text : List Char} (absent : cut openBraces text = none) :
    guardBraces text = text := by
  fun_induction guardBraces text with
  | case1 rest =>
    have here : cut openBraces ('{' :: '{' :: rest) = some ([], rest) := cut_mark openBraces rest
    rw [here] at absent
    cases absent
  | case2 c rest _ ih =>
    have starts := isPrefixOf?_eq_none absent
    rw [cut_cons starts, Option.map_eq_none_iff] at absent
    rw [ih absent]
  | case3 => rfl

/-- **The first pair of opening braces** stands behind a backslash, and what comes after it is guarded
too. -/
theorem guardBraces_of_cut {text before after : List Char}
    (found : cut openBraces text = some (before, after)) :
    guardBraces text = before ++ '\\' :: (openBraces ++ guardBraces after) := by
  fun_induction guardBraces text generalizing before with
  | case1 rest =>
    have here : cut openBraces ('{' :: '{' :: rest) = some ([], rest) := cut_mark openBraces rest
    rw [here] at found
    cases found
    rfl
  | case2 c rest single ih =>
    have starts : openBraces.isPrefixOf? (c :: rest) = none := by
      rw [Option.eq_none_iff_forall_ne_some]
      intro more isStart
      obtain ⟨rfl, rfl⟩ := List.cons.inj (isPrefixOf?_eq_some isStart)
      exact single more rfl rfl
    rw [cut_cons starts] at found
    obtain ⟨⟨lead, tail⟩, later, pieces⟩ := Option.map_eq_some_iff.mp found
    cases pieces
    rw [ih later, List.cons_append]
  | case3 => cases found

/-! ### What a guarded text is cut into -/

/-- The braces that a backslash stands before are a text, and not the start of a tag. -/
theorem first?_guarded {before : List Char} (absent : cut openBraces before = none)
    (rest : List Char) :
    ∃ tag, first? (before ++ '\\' :: (openBraces ++ rest)) = .ok (some tag) ∧
      tag.form = .verbatim ∧ tag.before = before ∧ tag.content = openBraces ∧ tag.after = rest := by
  have found : cut openBraces (before ++ '\\' :: (openBraces ++ rest)) =
      some (before ++ ['\\'], rest) := by
    rw [cut_append_cons absent (by decide), cut_mark]
    rfl
  unfold first?
  rw [found]
  dsimp only
  rw [if_pos List.getLast?_concat]
  exact ⟨_, rfl, rfl, List.dropLast_concat, rfl, rfl⟩

theorem walk_of_cut_eq_none {text : List Char} (absent : cut openBraces text = none) :
    (walk text).fault = none ∧ (walk text).pieces = [.text text] := by
  have nothing : first? text = .ok none := by
    unfold first?
    rw [absent]
  rw [walk]
  split
  · rename_i failed
    rw [nothing] at failed
    cases failed
  · exact ⟨rfl, rfl⟩
  · rename_i found
    rw [nothing] at found
    cases found

/-- **A guarded text is cut into texts**, without a fault, and they make up the text itself. -/
theorem walk_guardBraces (text : List Char) :
    (walk (guardBraces text)).fault = none ∧ ∃ contents : List (List Char),
      (walk (guardBraces text)).pieces.map Piece.text? = contents.map some ∧
        contents.flatten = text := by
  cases found : cut openBraces text with
  | none =>
    rw [guardBraces_of_cut_eq_none found]
    obtain ⟨sound, pieces⟩ := walk_of_cut_eq_none found
    exact ⟨sound, [text], by rw [pieces]; rfl, by simp⟩
  | some cutText =>
    obtain ⟨before, after⟩ := cutText
    have shorter : after.length < text.length := cut_length_lt (by decide) found
    obtain ⟨tag, isFirst, verbatim, isBefore, isBraces, isAfter⟩ :=
      first?_guarded (cut_before (by decide) found) (guardBraces after)
    obtain ⟨sound, contents, spoken, whole⟩ := walk_guardBraces after
    obtain ⟨sameFault, pieces⟩ := walk_of_first? isFirst
    rw [guardBraces_of_cut found, sameFault, pieces, isBefore, isAfter]
    refine ⟨sound, before :: openBraces :: contents, ?_, ?_⟩
    · have braces : (Piece.tag tag).text? = some openBraces := by
        rw [Piece.text?, if_pos verbatim, isBraces]
      rw [List.map_cons, List.map_cons, braces, spoken]
      rfl
    · rw [cut_eq_some found, List.flatten_cons, List.flatten_cons, whole, List.append_assoc]
termination_by text.length

/-! ### Parsing -/

/-- Pieces that are texts derive these texts. -/
theorem derives_texts {pieces : List Piece} {contents : List (List Char)}
    (spoken : pieces.map Piece.text? = contents.map some) :
    Derives .anywhere pieces (contents.map fun content => .text (String.ofList content)) := by
  induction contents generalizing pieces with
  | nil =>
    cases List.map_eq_nil_iff.mp spoken
    exact .nil .anywhere
  | cons content contents ih =>
    obtain ⟨piece, rest, rfl, here, later⟩ := List.map_eq_cons_iff.mp spoken
    exact .text here (ih later)

theorem putText_nil (content : String) :
    putText content [] = if content = "" then [] else [.text content] := rfl

/-- **Texts side by side join to one**, unless they are all empty. -/
theorem joinTexts_texts (contents : List (List Char)) :
    joinTexts (contents.map fun content => .text (String.ofList content)) =
      putText (String.ofList contents.flatten) [] := by
  induction contents with
  | nil => rfl
  | cons content contents ih =>
    rw [List.map_cons, joinTexts, ih, List.flatten_cons, String.ofList_append]
    by_cases empty : String.ofList contents.flatten = ""
    · rw [empty, String.append_empty]
      rfl
    · exact putText_putText empty []

/-- **A guarded text is parsed to the text itself.** -/
theorem parse_guarded (text : String) : Node.parse (guarded text) = .ok (putText text []) := by
  obtain ⟨sound, contents, spoken, whole⟩ := walk_guardBraces text.toList
  have run := (derives_texts spoken).built (.anywhere holds_root) [] []
  have joined := joinTexts_texts contents
  rw [List.append_nil] at run
  rw [whole, String.ofList_toList] at joined
  show buildFrom (guarded text).toList (guarded text).toList ⟨[], []⟩ = _
  rw [guarded, String.toList_ofList, buildFrom_eq_ok_iff]
  exact ⟨sound, _, run, rfl, (foldl_push_nil _).trans joined⟩

end Markup

/-! ### Rendering -/

namespace Assembly

variable {σ : Type}

/-- A template that is one text asks for nothing, and reading it writes the text. -/
theorem ofNodes_text (path text : String) :
    Request.ofNodes path (Markup.putText text []) = [] := by
  rw [Markup.putText_nil]
  split <;> rfl

theorem readNodes_text (tools : Tools σ) (scene : Scene) (text : String) :
    tools.readNodes scene (Markup.putText text []) = ofRun (Script.write text) := by
  rw [Markup.putText_nil]
  split
  · rename_i empty
    rw [Tools.readNodes, empty, Script.write_empty]
    rfl
  · rw [Tools.readNodes, Tools.readNode, Tools.readNodes]
    rfl

/-- **Steps that write a text** render to it. -/
theorem render_of_write {template : Template σ} {text : String}
    (writes : Script.run template.table template.steps = Script.write text)
    (fields : List (String × Value)) (host : σ) :
    template.render (.object fields) host = (.ok text, host) := by
  unfold Template.render Template.renderIn
  rw [writes]
  show (Except.ok ("" ++ text), host) = (Except.ok text, host)
  rw [String.empty_append]

namespace Compiler

/-- **Any text can be written as a template.** A compiler that finds the guarded form of a text at an
address compiles it, and what it renders is the text itself, over all bindings. -/
theorem compile_guarded (compiler : Compiler σ) (root text : String)
    (parses : compiler.parse = Markup.Node.parse)
    (loads : compiler.loader.load (Address.resolve "" root) = .ok (Markup.guarded text)) :
    ∃ template, (compiler.compile root).result = .ok template ∧
      ∀ fields host, template.render (.object fields) host = (.ok text, host) := by
  have parsed : compiler.tools.parse (Markup.guarded text) = .ok (Markup.putText text []) := by
    show compiler.parse _ = _
    rw [parses, Markup.parse_guarded]
  have tree : compiler.tools.tree? (Address.resolve "" root) = some (Markup.putText text []) :=
    Tools.tree?_of_parse loads parsed
  have opens : Opens compiler.tools (compiler.loader.size + 1) [] (Address.resolve "" root) := by
    refine ⟨List.not_mem_nil, _, tree, fun request asked => ?_⟩
    rw [ofNodes_text] at asked
    cases asked
  obtain ⟨template, compiled⟩ := Job.compile_opens.mpr opens
  have read := root_read rfl (fun _ _ => rfl) compiled tree
  rw [readNodes_text] at read
  exact ⟨template, compiled, render_of_write (ofRun_injective read).symm⟩

/-- A text with braces that would open tags, with five in a row and with backslashes before them. -/
def bracedText : String := "\\\x7b\x7b a \x7d\x7d \\\\\x7b\x7b\x7b\x7b\x7b#"

/-- The compiler that finds the guarded form of the text. -/
def bracedCompiler : Compiler Unit where
  loader := (Store.Memory.empty.put "page.html" (Markup.guarded bracedText)).loader

/-- The guarded form has a backslash before each pair of braces, and renders to the text. -/
theorem bracedText_renders :
    Markup.guarded bracedText =
        "\\\\\x7b\x7b a \x7d\x7d \\\\\\\x7b\x7b\\\x7b\x7b\x7b#" ∧
      bracedCompiler.loader.load (Address.resolve "" "./page.html") =
        .ok (Markup.guarded bracedText) ∧
      ∃ template, (bracedCompiler.compile "./page.html").result = .ok template ∧
        ∀ fields host, template.render (.object fields) host = (.ok bracedText, host) := by
  have loads : bracedCompiler.loader.load (Address.resolve "" "./page.html") =
      .ok (Markup.guarded bracedText) := by
    decide
  exact ⟨by decide, loads, compile_guarded bracedCompiler "./page.html" bracedText rfl loads⟩

end Compiler

end Assembly

end Stencil
