/-
**The sources of the expressions in a tree.**

The expressions in the tree of a template are those that its tags say, at every nesting. A tag that
says one gives it the text between its braces, or a part of it, without the blanks around it; so the
source is empty only if the content of the tag is blank. That the splitter refuses, unless a `~` of its
own stands before the closing braces.

* `Derives.stands_iff`: **the expressions of a tree are those that its tags say**;
* `Tag.Says.trimmed`: the source of an expression has no blanks around it;
* `Tag.places`, `mem_tags_iff`: where the splitter looks for tags, and which it finds;
* `exists_blank_tag_iff`: a tag with a blank content is one written with such a `~`;
* `parse_sources`: **which trees hold an empty source, and which blank tags are refused**.
-/

import Stencil.Proofs.BlankOutput
import Stencil.Proofs.FaultyTemplate
import Stencil.Proofs.Moments

namespace Stencil.Markup

open Tag Text

/-! ### Which expressions stand in a tree -/

section Standing

variable {node first made : Node} {nodes rest body : List Node} {source : String}

theorem stands_iff_exists : Stands node nodes ↔ ∃ first ∈ nodes, Stands node [first] := by
  constructor
  · intro stands
    cases stands with
    | top member => exact ⟨_, member, .top List.mem_cons_self⟩
    | block member inside => exact ⟨_, member, .block List.mem_cons_self inside⟩
    | definition member inside => exact ⟨_, member, .definition List.mem_cons_self inside⟩
    | override member among inside => exact ⟨_, member, .override List.mem_cons_self among inside⟩
  · rintro ⟨first, member, stands⟩
    exact stands.mono (List.cons_subset.mpr ⟨member, List.nil_subset nodes⟩)

theorem stands_nil : ¬ Stands node [] := by
  rw [stands_iff_exists]
  simp

theorem stands_cons_iff : Stands node (first :: rest) ↔ Stands node [first] ∨ Stands node rest := by
  rw [stands_iff_exists, List.exists_mem_cons_iff, ← stands_iff_exists]

theorem stands_text (holds : node.source? = some source) (content : String) :
    ¬ Stands node [.text content] := by
  intro stands
  cases stands with
  | top member =>
    cases List.mem_singleton.mp member
    cases holds
  | _ member => cases List.mem_singleton.mp member

theorem stands_block_iff (holds : node.source? = some source) (name : String) :
    Stands node [.block name body] ↔ Stands node body := by
  refine ⟨fun stands => ?_, .block List.mem_cons_self⟩
  cases stands with
  | top member =>
    cases List.mem_singleton.mp member
    cases holds
  | block member inside =>
    cases List.mem_singleton.mp member
    exact inside
  | _ member => cases List.mem_singleton.mp member

theorem stands_definition_iff (holds : node.source? = some source) (definition : Definition) :
    Stands node [.definition definition] ↔ Stands node definition.body := by
  refine ⟨fun stands => ?_, .definition List.mem_cons_self⟩
  cases stands with
  | top member =>
    cases List.mem_singleton.mp member
    cases holds
  | definition member inside =>
    cases List.mem_singleton.mp member
    exact inside
  | _ member => cases List.mem_singleton.mp member

/-- The overrides of an include stand in it as definitions do. -/
theorem stands_inclusion_iff (holds : node.source? = some source) (file : String)
    (overrides : List Definition) :
    Stands node [.inclusion file overrides] ↔ Stands node (overrides.map .definition) := by
  rw [@stands_iff_exists _ (overrides.map .definition)]
  constructor
  · intro stands
    cases stands with
    | top member =>
      cases List.mem_singleton.mp member
      cases holds
    | override member among inside =>
      cases List.mem_singleton.mp member
      exact ⟨_, List.mem_map_of_mem among, .definition List.mem_cons_self inside⟩
    | _ member => cases List.mem_singleton.mp member
  · rintro ⟨_, among, stands⟩
    obtain ⟨definition, isOverride, rfl⟩ := List.mem_map.mp among
    exact .override List.mem_cons_self isOverride ((stands_definition_iff holds definition).mp stands)

/-- **Joining texts** leaves the expressions where they are. -/
theorem stands_putText_iff (holds : node.source? = some source) (content : String) :
    Stands node (putText content nodes) ↔ Stands node nodes := by
  have noText := stands_text holds
  unfold putText
  split
  · rfl
  · split
    · rename_i next rest
      rw [stands_cons_iff, @stands_cons_iff _ (.text next)]
      simp only [noText, false_or]
    · rw [stands_cons_iff]
      simp only [noText, false_or]

theorem stands_joinTexts_iff (holds : node.source? = some source) (nodes : List Node) :
    Stands node (joinTexts nodes) ↔ Stands node nodes := by
  induction nodes with
  | nil => rfl
  | cons first nodes ih =>
    rw [stands_cons_iff, ← ih]
    cases first with
    | text content =>
      rw [joinTexts, stands_putText_iff holds]
      simp only [stands_text holds, false_or]
    | _ => exact stands_cons_iff

/-- **In a group stands what stands between its tags.** -/
theorem Heading.Makes.stands_iff {heading : Heading} (makes : heading.Makes body made)
    (holds : node.source? = some source) : Stands node [made] ↔ Stands node body := by
  cases makes with
  | block name => rw [stands_block_iff holds, stands_joinTexts_iff holds]
  | definition name mode =>
    rw [stands_definition_iff holds]
    exact stands_joinTexts_iff holds body
  | inclusion file overrides => exact stands_inclusion_iff holds file overrides

end Standing

/-! ### Which tags they come from -/

section Saying

variable {node : Node} {tag : Tag} {source : String}

/-- **What a tag says** is one node. -/
theorem Tag.Says.unique {other : Node} (meant : tag.Says node) (also : tag.Says other) :
    node = other := by
  rcases meant.form with isForm | isForm | isForm
  · rw [← readStatement_iff isForm] at meant also
    exact Except.ok.inj (meant.symm.trans also)
  · rw [says_raw_iff isForm] at meant also
    rw [meant, also]
  · rw [says_inclusion_iff isForm] at meant also
    exact Except.ok.inj (meant.symm.trans also)

/-- What a tag says holds no other nodes. -/
theorem Tag.Says.stands_iff {first : Node} (meant : tag.Says first) :
    Stands node [first] ↔ tag.Says node := by
  constructor
  · intro stands
    cases stands with
    | top member =>
      cases List.mem_singleton.mp member
      exact meant
    | override member among =>
      cases List.mem_singleton.mp member
      cases meant
      cases among
    | _ member =>
      cases List.mem_singleton.mp member
      cases meant
  · intro also
    rw [meant.unique also]
    exact .top List.mem_cons_self

/-- **A node is said** by one of the tags among the pieces of a source. -/
def Said (node : Node) (pieces : List Piece) : Prop :=
  ∃ tag, .tag tag ∈ pieces ∧ tag.Says node

theorem said_append_iff {first second : List Piece} :
    Said node (first ++ second) ↔ Said node first ∨ Said node second := by
  simp only [Said, List.mem_append, or_and_right, exists_or]

theorem said_cons_iff {piece : Piece} {rest : List Piece} :
    Said node (piece :: rest) ↔ Said node [piece] ∨ Said node rest :=
  @said_append_iff node [piece] rest

theorem said_tag_iff : Said node [.tag tag] ↔ tag.Says node := by
  simp [Said]

theorem said_text {piece : Piece} {content : List Char} (spoken : piece.text? = some content) :
    ¬ Said node [piece] := by
  rintro ⟨tag, member, meant⟩
  cases List.mem_singleton.mp member
  have verbatim : tag.form = .verbatim := by
    by_contra other
    rw [Piece.text?, if_neg other] at spoken
    cases spoken
  simpa [verbatim] using meant.form

/-- **The expressions of a tree are those that its tags say**, at every nesting. -/
theorem Derives.stands_iff {place : Place} {pieces : List Piece} {nodes : List Node}
    (derives : Derives place pieces nodes) (holds : node.source? = some source) :
    Stands node nodes ↔ Said node pieces := by
  induction derives with
  | nil place => simp [stands_nil, Said]
  | text spoken _ ih =>
    rw [stands_cons_iff, said_cons_iff, ih]
    simp only [stands_text holds, said_text spoken]
  | blank spoken _ _ ih =>
    rw [said_cons_iff, ih]
    simp only [said_text spoken, false_or]
  | @comment place tag rest nodes isComment _ ih =>
    have silent : ¬ tag.Says node := fun meant => by simpa [isComment] using meant.form
    rw [said_cons_iff, said_tag_iff, ih]
    simp only [silent, false_or]
  | single meant _ _ ih => rw [stands_cons_iff, said_cons_iff, said_tag_iff, meant.stands_iff, ih]
  | @group place opening closing heading made inside rest body nodes opens _ closes makes _ _ inner
      outer =>
    have openingSilent : ¬ opening.Says node := fun meant => by simpa [opens.form] using meant.form
    have closingSilent : ¬ closing.Says node := fun meant => by simpa [closes.1] using meant.form
    rw [stands_cons_iff, makes.stands_iff holds, inner, outer, said_cons_iff, said_append_iff,
      @said_cons_iff _ _ rest, said_tag_iff, said_tag_iff]
    simp only [openingSilent, closingSilent, false_or]

/-- A text that is trimmed and not empty is what a node holds of a tag that is not blank. -/
theorem trimmed_source {text : List Char} (filled : isBlankText text = false) :
    trim (String.ofList (trim text)).toList = (String.ofList (trim text)).toList ∧
      String.ofList (trim text) ≠ "" := by
  rw [String.toList_ofList, trim_trim]
  refine ⟨rfl, fun empty => ?_⟩
  rw [← String.toList_eq_nil_iff, String.toList_ofList, trim_eq_nil_iff, filled] at empty
  cases empty

/-- **The expression that a tag says** has no blanks around it, and is empty exactly if the content of
the tag is blank. -/
theorem Tag.Says.trimmed (meant : tag.Says node) (holds : node.source? = some source) :
    trim source.toList = source.toList ∧ (source = "" ↔ isBlankText tag.content = true) := by
  have solid : ∀ {first : Char} {rest : List Char}, trim tag.content = first :: rest →
      isBlankText tag.content ≠ true := by
    intro first rest whole blank
    rw [trim_eq_nil_iff.mpr blank] at whole
    cases whole
  cases meant with
  | @«variable» gap binding blanks value name _ blank whole shape isName areBlank filled =>
    cases holds
    have split : trim binding = name.toList ++ (blanks ++ ['=']) ++ value := by
      rw [shape, List.append_assoc, List.append_assoc]
      rfl
    have ends : isBlankText value = false :=
      isBlankText_of_trimmed (by rw [← split, trim_trim]) filled
    obtain ⟨trimmed, nonempty⟩ := trimmed_source ends
    exact ⟨trimmed, iff_of_false nonempty (solid whole)⟩
  | @statement gap rest _ blank whole =>
    cases holds
    have ends : isBlankText (gap :: rest) = false :=
      isBlankText_of_trimmed (by rw [← whole, trim_trim]) (List.cons_ne_nil gap rest)
    rw [isBlankText, List.all_cons, blank, Bool.true_and] at ends
    obtain ⟨trimmed, nonempty⟩ := trimmed_source ends
    exact ⟨trimmed, iff_of_false nonempty (solid whole)⟩
  | output _ spoken | raw _ spoken =>
    cases holds
    refine ⟨by rw [spoken, trim_trim], ?_⟩
    rw [← String.toList_eq_nil_iff, spoken, trim_eq_nil_iff]
  | inclusion => cases holds

end Saying

/-! ### Where tags are looked for -/

/-- **Where the splitter looks for a tag**: at the start of a text and behind each tag in it. -/
def Tag.places (text : List Char) : List (List Char) :=
  text :: (walk text).tags.map Tag.after

section Places

variable {text rest lead body : List Char} {tag : Tag} {fault : Fault}

/-- **The tags of a text** are those found at these places. -/
theorem mem_tags_iff : tag ∈ (walk text).tags ↔
    ∃ rest ∈ Tag.places text, first? rest = .ok (some tag) := by
  unfold Tag.places
  fun_induction walk text with
  | case1 text fault failed => simp [failed]
  | case2 text nothing => simp [nothing]
  | case3 text first found more ih =>
    rw [List.mem_cons, List.map_cons, List.exists_mem_cons_iff, ← ih, found, Except.ok.injEq,
      Option.some.injEq, eq_comm]

/-- **What is refused at one of these places** ends the walk. -/
theorem fault_of_refused (isPlace : rest ∈ Tag.places text)
    (refused : first? rest = .error fault) : (walk text).fault = some fault := by
  unfold Tag.places at isPlace
  fun_induction walk text with
  | case1 text first failed =>
    obtain rfl := List.mem_singleton.mp isPlace
    rw [failed] at refused
    rw [Except.error.inj refused]
  | case2 text nothing =>
    obtain rfl := List.mem_singleton.mp isPlace
    rw [nothing] at refused
    cases refused
  | case3 text first found more ih =>
    rcases List.mem_cons.mp isPlace with rfl | later
    · rw [found] at refused
      cases refused
    · exact ih later

/-- A tag that is not verbatim is read behind braces that open a tag. -/
theorem opensTag_of_first? (found : first? rest = .ok (some tag)) (other : tag.form ≠ .verbatim) :
    ∃ lead body, OpensTag rest lead body ∧ ofBody lead body = .ok tag := by
  unfold first? at found
  split at found
  · cases found
  · rename_i lead body isCut
    split at found
    · cases found
      exact absurd rfl other
    · rename_i unguarded
      obtain ⟨made, isTag, same⟩ := map_eq_ok.mp found
      cases same
      exact ⟨lead, body, ⟨isCut, unguarded⟩, isTag⟩

/-- **A text has a blank output tag** where the splitter looks for a tag. -/
def HasBlank (marked : Bool) (text : List Char) : Prop :=
  ∃ rest ∈ Tag.places text, ∃ lead body written, OpensTag rest lead body ∧
    BlankOutput marked written ∧ written <+: openBraces ++ body

/-- **A blank output tag without a `~` of its own** before its closing braces ends the walk. -/
theorem fault_of_hasBlank (blank : HasBlank false text) :
    ∃ near, (walk text).fault = some ⟨.emptyTag, near⟩ := by
  obtain ⟨rest, isPlace, lead, body, written, opened, unmarked, after, whole⟩ := blank
  obtain ⟨near, refused⟩ := unmarked.refused whole.symm lead
  refine ⟨near, fault_of_refused isPlace ?_⟩
  rw [opened.first?, refused]
  rfl

/-- **The output tags with a blank content** are the blank ones with such a `~`. -/
theorem exists_blank_tag_iff : (∃ tag ∈ (walk text).tags, (tag.form = .escaped ∨ tag.form = .raw) ∧
    isBlankText tag.content = true) ↔ HasBlank true text := by
  constructor
  · rintro ⟨tag, member, isForm, blank⟩
    obtain ⟨rest, isPlace, found⟩ := mem_tags_iff.mp member
    have other : tag.form ≠ .verbatim := by rcases isForm with same | same <;> simp [same]
    obtain ⟨lead, body, opened, isTag⟩ := opensTag_of_first? found other
    obtain ⟨written, marked, starts⟩ := blankOutput_of_content isTag isForm blank
    exact ⟨rest, isPlace, lead, body, written, opened, marked, starts⟩
  · rintro ⟨rest, isPlace, lead, body, written, opened, marked, after, whole⟩
    obtain ⟨tag, isTag, isForm, blank⟩ := marked.taken whole.symm lead
    refine ⟨tag, mem_tags_iff.mpr ⟨rest, isPlace, ?_⟩, isForm, blank⟩
    rw [opened.first?, isTag]
    rfl

end Places

/-! ### The sources of a tree -/

section Sources

variable {node : Node} {tag : Tag} {source : String}

theorem tag_mem_pieces_iff {walk : Walk} : .tag tag ∈ walk.pieces ↔ tag ∈ walk.tags := by
  simp [Walk.pieces]

/-- Expressions are said by output tags. -/
theorem Tag.Says.isOutput (meant : tag.Says node) (holds : node.source? = some source) :
    tag.form = .escaped ∨ tag.form = .raw := by
  cases meant with
  | «variable» isForm | statement isForm | output isForm => exact .inl isForm
  | raw isForm => exact .inr isForm
  | inclusion => cases holds

/-- **An output tag with a blank content** says an empty expression. -/
theorem says_empty (isForm : tag.form = .escaped ∨ tag.form = .raw)
    (blank : isBlankText tag.content = true) :
    tag.Says (.expression "" .escaped) ∨ tag.Says (.expression "" .raw) := by
  have empty : "".toList = trim tag.content := (trim_eq_nil_iff.mpr blank).symm
  refine isForm.imp (fun isForm => .output isForm empty ?_ ?_) fun isForm => .raw isForm empty
  all_goals simp [StartsWith]

/-- **The source of an expression or a variable** has no blanks around it. A tree holds an empty source
exactly if a blank output tag of the template has a `~` of its own before its closing braces, and then
as output. A template with a blank output tag that has none is refused. -/
theorem parse_sources (source : String) :
    (HasBlank false source.toList → ∃ error, Node.parse source = .error error) ∧
      ∀ nodes, Node.parse source = .ok nodes →
        (∀ node written, Stands node nodes → node.source? = some written →
          trim written.toList = written.toList ∧
            (written = "" → node = .expression "" .escaped ∨ node = .expression "" .raw)) ∧
        ((∃ node, Stands node nodes ∧ node.source? = some "") ↔ HasBlank true source.toList) := by
  have grammar : ∀ nodes, Node.parse source = .ok nodes → (walk source.toList).fault = none ∧
      ∀ node written, node.source? = some written →
        (Stands node nodes ↔ ∃ tag ∈ (walk source.toList).tags, tag.Says node) := by
    intro nodes parsed
    obtain ⟨sound, made⟩ := buildFrom_eq_ok_iff.mp parsed
    obtain ⟨parts, derives, rfl⟩ := (addAll_root_iff (by simp)).mp made
    refine ⟨sound, fun node written holds => ?_⟩
    rw [show resume [] (joinTexts parts) = joinTexts parts from rfl, stands_joinTexts_iff holds,
      derives.stands_iff holds]
    simp only [Said, tag_mem_pieces_iff]
  constructor
  · intro blank
    cases parsed : Node.parse source with
    | error error => exact ⟨error, rfl⟩
    | ok nodes =>
      obtain ⟨near, failed⟩ := fault_of_hasBlank blank
      rw [(grammar nodes parsed).1] at failed
      cases failed
  · intro nodes parsed
    have said := (grammar nodes parsed).2
    refine ⟨fun node written stands holds => ?_, ?_⟩
    · obtain ⟨tag, -, meant⟩ := (said node written holds).mp stands
      obtain ⟨trimmed, empty⟩ := meant.trimmed holds
      exact ⟨trimmed, fun isEmpty =>
        (says_empty (meant.isOutput holds) (empty.mp isEmpty)).imp meant.unique meant.unique⟩
    · rw [← exists_blank_tag_iff]
      constructor
      · rintro ⟨node, stands, holds⟩
        obtain ⟨tag, member, meant⟩ := (said node "" holds).mp stands
        exact ⟨tag, member, meant.isOutput holds, (meant.trimmed holds).2.mp rfl⟩
      · rintro ⟨tag, member, isForm, blank⟩
        rcases says_empty isForm blank with meant | meant
        · exact ⟨_, (said _ "" rfl).mpr ⟨tag, member, meant⟩, rfl⟩
        · exact ⟨_, (said _ "" rfl).mpr ⟨tag, member, meant⟩, rfl⟩

end Sources

/-- A variable and blank output inside the groups of a template. -/
def nestedSource : String :=
  "\x7b\x7b#include \"p\"\x7d\x7d\x7b\x7b#def a\x7d\x7d\x7b\x7b~ var n = k + 1 ~\x7d\x7d" ++
    "\x7b\x7b\x7b~ ~\x7d\x7d\x7d\x7b\x7b/def\x7d\x7d\x7b\x7b/include\x7d\x7d"

/-- Output with blanks only. -/
def spacedSource : String :=
  "a \x7b\x7b~ \n\x7d\x7d"

theorem nestedSource_sources :
    (HasBlank true nestedSource.toList ∧ Node.parse nestedSource =
      .ok [.inclusion "p" [.mk "a" .override [.variable "n" "k + 1", .expression "" .raw]]]) ∧
    HasBlank false spacedSource.toList ∧
      ∃ error, Node.parse spacedSource = .error error := by
  have parsed : Node.parse nestedSource =
      .ok [.inclusion "p" [.mk "a" .override [.variable "n" "k + 1", .expression "" .raw]]] := by
    with_unfolding_all rfl
  have stands : Stands (.expression "" .raw)
      [.inclusion "p" [.mk "a" .override [.variable "n" "k + 1", .expression "" .raw]]] :=
    .override List.mem_cons_self List.mem_cons_self (.top (List.mem_of_getLast? rfl))
  have blank : HasBlank false spacedSource.toList :=
    ⟨_, List.mem_cons_self, ['a', ' '], ['~', ' ', '\n', '}', '}'], _, ⟨rfl, by decide⟩,
      ⟨openBraces, closeBraces, true, [' ', '\n'], .double, by decide, by simp, rfl⟩,
      List.prefix_rfl⟩
  exact ⟨⟨((parse_sources nestedSource).2 _ parsed).2.mp ⟨_, stands, rfl⟩, parsed⟩, blank,
    (parse_sources spacedSource).1 blank⟩

/-- Output with a blank and a `~` before its closing braces. -/
def markedSource : String :=
  "\x7b\x7b ~\x7d\x7d"

/-- **An empty source in a tree**, and a blank output tag that is not refused. -/
theorem markedSource_empty : Node.parse markedSource = .ok [.expression "" .escaped] ∧
    HasBlank true markedSource.toList := by
  have parsed : Node.parse markedSource = .ok [.expression "" .escaped] := by
    with_unfolding_all rfl
  refine ⟨parsed, _, List.mem_cons_self, [], [' ', '~', '}', '}'], _, ⟨rfl, by decide⟩,
    ⟨openBraces, closeBraces, false, [' '], .double, by decide, by simp, rfl⟩, List.prefix_rfl⟩

end Stencil.Markup
