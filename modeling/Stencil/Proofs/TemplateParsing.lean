/-
**The parser accepts the grammar of templates, and nothing else.**

The builder takes in pieces one after the other. Its open groups are what the recursive grammar does
not have; `Fills` says where the next piece goes, whatever lies around it.

* `buildFrom_eq_ok_iff`: the parser is the builder, run over the pieces of a source;
* `addTag_eq_ok_iff`: **what the builder does with one tag**, in the words of the grammar;
* `Derives.built`: the builder takes in what the grammar derives;
* `derives_of_built`: what the builder takes in is derived, up to the tag that closes the place;
* `addAll_root_iff`: outside all groups it takes in what the grammar derives, behind any nodes;
* `parse_grammar`: **the nodes of a source are those that its pieces derive**.
-/

import Stencil.Proofs.RoundTrip
import Stencil.Proofs.TagMeaning

namespace Stencil.Markup

open Text

/-! ### Piece after piece -/

/-- The builder takes in one piece. -/
def Builder.addPiece (builder : Builder) : Piece → Except Fault Builder
  | .text content => builder.addText content
  | .tag found => builder.addTag found

/-- **The builder takes in pieces**, one after the other. -/
def Builder.addAll : List Piece → Builder → Except Fault Builder
  | [], builder => .ok builder
  | piece :: rest, builder => (builder.addPiece piece).bind (addAll rest)

section Pieces

variable {builder after final : Builder} {piece : Piece} {rest : List Piece}

theorem addAll_cons_iff : Builder.addAll (piece :: rest) builder = .ok final ↔
    ∃ next, builder.addPiece piece = .ok next ∧ Builder.addAll rest next = .ok final :=
  bind_eq_ok

theorem addAll_cons (taken : builder.addPiece piece = .ok after) :
    Builder.addAll (piece :: rest) builder = Builder.addAll rest after := by
  rw [Builder.addAll, taken]
  rfl

theorem locating_eq_ok_iff {α : Type} {source rest : List Char} {step : Except Fault α} {made : α} :
    locating source rest step = .ok made ↔ step = .ok made := by
  cases step <;> simp [locating, Except.mapError]

theorem finish_eq_ok_iff {source : List Char} {nodes : List Node} :
    builder.finish source = .ok nodes ↔ builder.frames = [] ∧ builder.nodes.reverse = nodes := by
  unfold Builder.finish
  split
  · rename_i closed
    simp [closed]
  · rename_i opened
    simp [opened]

/-- **The parser is the builder, run over the pieces of the text.** -/
theorem buildFrom_eq_ok_iff {source text : List Char} {nodes : List Node} :
    buildFrom source text builder = .ok nodes ↔ (Tag.walk text).fault = none ∧
      ∃ final, Builder.addAll (Tag.walk text).pieces builder = .ok final ∧ final.frames = [] ∧
        final.nodes.reverse = nodes := by
  fun_induction Tag.walk text generalizing builder with
  | case1 text fault failed =>
    rw [buildFrom]
    split <;> simp_all
  | case2 text nothing =>
    have whole : buildFrom source text builder =
        (locating source text (builder.addText text)).bind fun after => after.finish source := by
      rw [buildFrom]
      split <;> simp_all
      rfl
    simp only [whole, bind_eq_ok, locating_eq_ok_iff, finish_eq_ok_iff, true_and]
    show _ ↔ ∃ final, Builder.addAll [.text text] builder = .ok final ∧ _
    simp only [Builder.addAll, bind_eq_ok, Except.ok.injEq, exists_eq_right]
    rfl
  | case3 text tag found =>
    rename_i ih
    have whole : buildFrom source text builder =
        (locating source text (builder.addText tag.before)).bind fun next =>
          (locating source tag.here (next.addTag tag)).bind fun after =>
            buildFrom source tag.after after := by
      rw [buildFrom]
      split <;> simp_all
      rfl
    have split : ∀ more : Tag.Walk, ({ more with tags := tag :: more.tags } : Tag.Walk).pieces =
        .text tag.before :: .tag tag :: more.pieces := fun _ => rfl
    simp only [whole, split, bind_eq_ok, locating_eq_ok_iff, ih, addAll_cons_iff]
    constructor
    · rintro ⟨next, before, after, taken, sound, final, run, closed⟩
      exact ⟨sound, final, ⟨next, before, after, taken, run⟩, closed⟩
    · rintro ⟨sound, final, ⟨next, before, after, taken, run⟩, closed⟩
      exact ⟨next, before, after, taken, sound, final, run, closed⟩

/-- The first tag of a text, and the text before it, are its first pieces. -/
theorem walk_of_first? {text : List Char} {tag : Tag}
    (found : Tag.first? text = .ok (some tag)) :
    (Tag.walk text).fault = (Tag.walk tag.after).fault ∧
      (Tag.walk text).pieces = .text tag.before :: .tag tag :: (Tag.walk tag.after).pieces := by
  rw [Tag.walk]
  split
  · rename_i failed
    rw [found] at failed
    cases failed
  · rename_i nothing
    rw [found] at nothing
    cases nothing
  · rename_i other isTag
    rw [found] at isTag
    cases isTag
    exact ⟨rfl, rfl⟩

end Pieces

/-! ### One tag -/

/-- **What the builder does with a tag.** -/
inductive Builder.Takes (tag : Tag) (builder after : Builder) : Prop
  | comment : tag.form = .comment → after = builder → Takes tag builder after
  | text : tag.form = .verbatim → builder.addText tag.content = .ok after → Takes tag builder after
  | single {node : Node} : tag.Says node → builder.addNode node tag.raw = .ok after →
      Takes tag builder after
  | opening {heading : Heading} : tag.OpensGroup heading →
      after = { builder with frames := ⟨heading.group [], tag.raw, tag.here⟩ :: builder.frames } →
      Takes tag builder after
  | closing {frame : Frame} {frames : List Frame} : builder.frames = frame :: frames →
      tag.ClosesGroup frame.group.opener →
      addNode frame.group.toNode tag.raw { builder with frames } = .ok after →
      Takes tag builder after

section Tags

variable {tag : Tag} {builder after : Builder}

theorem Tag.OpensGroup.form {heading : Heading} (opens : tag.OpensGroup heading) :
    tag.form = .opening := by
  cases opens <;> assumption

theorem Tag.Says.form {node : Node} (meant : tag.Says node) :
    tag.form = .escaped ∨ tag.form = .raw ∨ tag.form = .inclusion := by
  cases meant <;> simp_all

theorem Tag.Says.solid {node : Node} (meant : tag.Says node) : ¬ node.IsText := by
  cases meant <;> exact id

theorem closeGroup_eq_ok_iff : builder.closeGroup tag = .ok after ↔
    ∃ frame frames, builder.frames = frame :: frames ∧
      trim tag.content = frame.group.opener.word.toList ∧
      Builder.addNode frame.group.toNode tag.raw { builder with frames } = .ok after := by
  unfold Builder.closeGroup
  simp only
  split
  · rename_i none
    simp [none]
  · rename_i frame frames opened
    simp only [opened, List.cons.injEq]
    constructor
    · intro taken
      split at taken
      · rename_i same
        refine ⟨frame, frames, ⟨rfl, rfl⟩, ?_, taken⟩
        rw [← same, String.toList_ofList]
      · cases taken
    · rintro ⟨_, _, ⟨rfl, rfl⟩, same, taken⟩
      rw [same, String.ofList_toList, if_pos rfl]
      exact taken

theorem addTag_closing (isClosing : tag.form = .closing) :
    builder.addTag tag = builder.closeGroup tag := by
  unfold Builder.addTag
  rw [isClosing]

/-- **The builder does with a tag what the grammar says of it.** -/
theorem addTag_eq_ok_iff : builder.addTag tag = .ok after ↔ builder.Takes tag after := by
  unfold Builder.addTag
  constructor
  · intro taken
    split at taken
    · rename_i comment
      cases taken
      exact .comment comment rfl
    · rename_i escaped
      obtain ⟨node, read, taken⟩ := bind_eq_ok.mp taken
      exact .single ((readStatement_iff escaped).mp read) taken
    · rename_i raw
      exact .single ((says_raw_iff raw).mpr rfl) taken
    · rename_i opening
      obtain ⟨group, read, made⟩ := map_eq_ok.mp taken
      obtain ⟨heading, opens, rfl⟩ := (readOpening_iff opening).mp read
      exact .opening opens made.symm
    · rename_i closing
      obtain ⟨frame, frames, opened, word, taken⟩ := closeGroup_eq_ok_iff.mp taken
      exact .closing opened ⟨closing, word⟩ taken
    · rename_i inclusion
      obtain ⟨node, read, taken⟩ := bind_eq_ok.mp taken
      exact .single ((says_inclusion_iff inclusion).mpr read) taken
    · rename_i verbatim
      exact .text verbatim taken
  · intro takes
    cases takes with
    | comment comment same => rw [comment, same]
    | text verbatim taken => rw [verbatim]; exact taken
    | single meant taken =>
      rcases meant.form with form | form | form <;> rw [form]
      · exact bind_eq_ok.mpr ⟨_, (readStatement_iff form).mpr meant, taken⟩
      · rw [(says_raw_iff form).mp meant] at taken
        exact taken
      · exact bind_eq_ok.mpr ⟨_, (says_inclusion_iff form).mp meant, taken⟩
    | opening opens same =>
      rw [opens.form]
      exact map_eq_ok.mpr ⟨_, (readOpening_iff opens.form).mpr ⟨_, opens, rfl⟩, same.symm⟩
    | closing opened closes taken =>
      rw [closes.1]
      exact closeGroup_eq_ok_iff.mpr ⟨_, _, opened, closes.2, taken⟩

theorem addAll_tag {rest : List Piece} (takes : builder.Takes tag after) :
    Builder.addAll (.tag tag :: rest) builder = Builder.addAll rest after :=
  addAll_cons (addTag_eq_ok_iff.mpr takes)

end Tags

/-! ### Where pieces go -/

/-- **Puts a node behind nodes**, given the latest first; a text joins a text, and an empty one is
left out. -/
def push (kept : List Node) : Node → List Node
  | .text content => if content = "" then kept else appendText content.toList kept
  | node => node :: kept

theorem push_solid {node : Node} (solid : ¬ node.IsText) (kept : List Node) :
    push kept node = node :: kept := by
  cases node with
  | text content => exact absurd trivial solid
  | _ => rfl

/-- **Builders with a place that is open**, by the nodes in that place, the latest first. -/
inductive Fills : Place → (List Node → Builder) → Prop
  | anywhere {fill : List Node → Builder} : Holds fill → Fills .anywhere fill
  | inclusion (builder : Builder) (file : String) (raw here : List Char) :
      Fills .inclusion fun kept => { builder with
        frames := ⟨(Heading.inclusion file).group kept, raw, here⟩ :: builder.frames }

/-- The place inside a group that has just been opened. -/
theorem fills_group (heading : Heading) (builder : Builder) (raw here : List Char) :
    Fills heading.place fun kept =>
      { builder with frames := ⟨heading.group kept, raw, here⟩ :: builder.frames } := by
  cases heading with
  | block name => exact .anywhere (holds_block builder name raw here)
  | definition name mode => exact .anywhere (holds_definition builder name mode raw here)
  | inclusion file => exact .inclusion builder file raw here

section Fills

variable {place : Place} {fill : List Node → Builder} {after : Builder}

theorem Fills.addText_anywhere (fills : Fills .anywhere fill) (content : List Char)
    (kept : List Node) :
    (fill kept).addText content = .ok (fill (push kept (.text (String.ofList content)))) := by
  cases fills with
  | anywhere holds =>
    cases content with
    | nil => rfl
    | cons c content =>
      rw [holds.text (c :: content) kept (List.cons_ne_nil c content), push,
        if_neg (by simp [String.ofList_eq_empty_iff]), String.toList_ofList]

theorem Fills.addText_inclusion (fills : Fills .inclusion fill) (content : List Char)
    (kept : List Node) :
    (fill kept).addText content = .ok after ↔ isBlankText content = true ∧ after = fill kept := by
  cases fills with
  | inclusion builder file raw here =>
    unfold Builder.addText
    cases content with
    | nil => simp [isBlankText, eq_comm]
    | cons c content =>
      simp only [List.isEmpty_cons, Bool.false_eq_true, if_false, Heading.group, Group.addText]
      by_cases blank : isBlankText (c :: content) = true
      · simp [blank, Except.map, eq_comm]
      · simp [blank, Except.map]

/-- **A place takes the nodes that it admits.** -/
theorem Fills.addNode_iff (fills : Fills place fill) (node : Node) (near : List Char)
    (kept : List Node) : (fill kept).addNode node near = .ok after ↔
      place.Admits node ∧ after = fill (node :: kept) := by
  cases fills with
  | anywhere holds => simp [holds.node, Place.Admits, eq_comm]
  | inclusion builder file raw here =>
    cases node <;> simp [Builder.addNode, Heading.group, Group.addNode, Place.Admits,
      Node.definition?, Except.map, eq_comm]

end Fills

/-! ### Texts grow together -/

/-- Nodes behind the nodes in a place: the text that the place ends with joins the text that they
start with. -/
def resume (kept nodes : List Node) : List Node :=
  match kept with
  | .text last :: rest => rest.reverse ++ putText last nodes
  | kept => kept.reverse ++ nodes

section Joining

variable {kept : List Node}

theorem putText_putText {first second : String} (solid : second ≠ "") (nodes : List Node) :
    putText first (putText second nodes) = putText (first ++ second) nodes := by
  by_cases empty : first = ""
  · rw [empty, String.empty_append]
    rfl
  · have whole : first ++ second ≠ "" := fun none => empty (String.append_eq_empty_iff.mp none).1
    unfold putText
    rw [if_neg empty, if_neg solid, if_neg whole]
    cases nodes with
    | nil => rfl
    | cons next rest =>
      cases next with
      | text next => simp only [String.append_assoc]
      | _ => rfl

/-- A text is pushed behind a text that the place ends with, or stands on its own. -/
theorem push_text {content : String} (filled : content ≠ "") (kept : List Node) :
    (∃ last rest, kept = .text last :: rest ∧
        push kept (.text content) = .text (last ++ content) :: rest) ∨
      ((∀ nodes, resume kept nodes = kept.reverse ++ nodes) ∧
        push kept (.text content) = .text content :: kept) := by
  have pushed : push kept (.text content) = appendText content.toList kept := if_neg filled
  rw [pushed]
  cases kept with
  | nil => exact .inr ⟨fun _ => rfl, by simp [appendText]⟩
  | cons last rest =>
    cases last with
    | text last => exact .inl ⟨last, rest, rfl, by simp [appendText]⟩
    | _ => exact .inr ⟨fun _ => rfl, by simp [appendText]⟩

theorem resume_push_text (content : String) (kept nodes : List Node) :
    resume (push kept (.text content)) nodes = resume kept (putText content nodes) := by
  by_cases filled : content = ""
  · rw [push, if_pos filled]
    unfold putText
    rw [if_pos filled]
  · rcases push_text filled kept with ⟨last, rest, rfl, pushed⟩ | ⟨bare, pushed⟩
    · rw [pushed, resume, resume, putText_putText filled]
    · rw [pushed, bare, resume]

theorem resume_push_solid {node : Node} (solid : ¬ node.IsText)
    (ends : kept.head? ≠ some (.text "")) (nodes : List Node) :
    resume (push kept node) nodes = resume kept (node :: nodes) := by
  have behind : resume (node :: kept) nodes = kept.reverse ++ node :: nodes := by
    cases node with
    | text content => exact absurd trivial solid
    | _ => simp [resume]
  rw [push_solid solid, behind]
  cases kept with
  | nil => rfl
  | cons last rest =>
    cases last with
    | text last =>
      have filled : last ≠ "" := fun empty => ends (by rw [empty]; rfl)
      cases node with
      | text content => exact absurd trivial solid
      | _ => simp [resume, putText, filled]
    | _ => rfl

theorem head?_push (ends : kept.head? ≠ some (.text "")) (node : Node) :
    (push kept node).head? ≠ some (.text "") := by
  cases node with
  | text content =>
    by_cases filled : content = ""
    · rw [push, if_pos filled]
      exact ends
    · rcases push_text filled kept with ⟨last, rest, -, pushed⟩ | ⟨-, pushed⟩ <;> rw [pushed]
      · simp [filled]
      · simp [filled]
  | _ => simp [push]

theorem foldl_push (parts : List Node) (ends : kept.head? ≠ some (.text "")) :
    (parts.foldl push kept).reverse = resume kept (joinTexts parts) := by
  induction parts generalizing kept with
  | nil =>
    cases kept with
    | nil => rfl
    | cons last rest =>
      cases last with
      | text last =>
        have filled : last ≠ "" := fun empty => ends (by rw [empty]; rfl)
        simp [resume, joinTexts, putText, filled]
      | _ => simp [resume, joinTexts]
  | cons node parts ih =>
    rw [List.foldl_cons, ih (head?_push ends node)]
    cases node with
    | text content => rw [resume_push_text, joinTexts]
    | _ => rw [resume_push_solid id ends]; rfl

/-- **Pushing nodes one after the other joins their texts.** -/
theorem foldl_push_nil (parts : List Node) : (parts.foldl push []).reverse = joinTexts parts :=
  foldl_push parts (by simp)

end Joining

/-! ### What the grammar derives is taken in -/

/-- Nodes without texts have no texts to join. -/
theorem joinTexts_definitions (overrides : List Definition) :
    joinTexts (overrides.map .definition) = overrides.map .definition := by
  induction overrides with
  | nil => rfl
  | cons first overrides ih => rw [List.map_cons, joinTexts, ih]; simp

theorem Heading.Makes.toNode {heading : Heading} {body : List Node} {node : Node}
    (makes : heading.Makes body node) : (heading.group (body.foldl push [])).toNode = node := by
  cases makes with
  | block name => rw [Heading.group, Group.toNode, foldl_push_nil]
  | definition name mode => rw [Heading.group, Group.toNode, foldl_push_nil]
  | inclusion file overrides =>
    rw [Heading.group, Group.toNode, ← List.filterMap_reverse, foldl_push_nil,
      joinTexts_definitions, List.filterMap_map]
    exact congrArg _ (List.filterMap_some)

/-- Directly inside an include stand definitions. -/
theorem Derives.definitions {pieces : List Piece} {nodes : List Node}
    (derives : Derives .inclusion pieces nodes) :
    ∃ overrides : List Definition, nodes = overrides.map .definition := by
  generalize isPlace : Place.inclusion = place at derives
  induction derives with
  | nil => exact ⟨[], rfl⟩
  | text => cases isPlace
  | blank _ _ _ ih => exact ih isPlace
  | comment _ _ ih => exact ih isPlace
  | single _ admits _ ih =>
    cases isPlace
    obtain ⟨held, rfl⟩ := admits
    obtain ⟨overrides, rfl⟩ := ih rfl
    exact ⟨held :: overrides, rfl⟩
  | group _ _ _ _ admits _ _ ih =>
    cases isPlace
    obtain ⟨held, rfl⟩ := admits
    obtain ⟨overrides, rfl⟩ := ih rfl
    exact ⟨held :: overrides, rfl⟩

/-- **What is derived inside a group makes a node of it.** -/
theorem Derives.makes {heading : Heading} {inside : List Piece} {body : List Node}
    (derives : Derives heading.place inside body) :
    heading.Makes body (heading.group (body.foldl push [])).toNode := by
  have made : ∃ node, heading.Makes body node := by
    cases heading with
    | block name => exact ⟨_, .block name body⟩
    | definition name mode => exact ⟨_, .definition name mode body⟩
    | inclusion file =>
      obtain ⟨overrides, rfl⟩ := Derives.definitions derives
      exact ⟨_, .inclusion file overrides⟩
  obtain ⟨node, makes⟩ := made
  rw [makes.toNode]
  exact makes

theorem addPiece_text {piece : Piece} {content : List Char} (spoken : piece.text? = some content)
    (builder : Builder) : builder.addPiece piece = builder.addText content := by
  cases piece with
  | text content => cases spoken; rfl
  | tag found =>
    unfold Piece.text? at spoken
    simp only at spoken
    split_ifs at spoken with verbatim
    cases spoken
    show builder.addTag found = _
    unfold Builder.addTag
    rw [verbatim]

theorem Heading.group_opener (heading : Heading) (kept : List Node) :
    (heading.group kept).opener = heading.opener := by
  cases heading <;> rfl

theorem Heading.Makes.solid {heading : Heading} {body : List Node} {node : Node}
    (makes : heading.Makes body node) : ¬ node.IsText := by
  cases makes <;> exact id

/-- **The builder takes in what the grammar derives**, in every place that is open. -/
theorem Derives.built {place : Place} {pieces : List Piece} {parts : List Node}
    (derives : Derives place pieces parts) {fill : List Node → Builder} (fills : Fills place fill)
    (kept : List Node) (rest : List Piece) :
    Builder.addAll (pieces ++ rest) (fill kept) =
      Builder.addAll rest (fill (parts.foldl push kept)) := by
  induction derives generalizing fill kept rest with
  | nil place => rfl
  | @text piece content after nodes spoken _ ih =>
    have taken := fills.addText_anywhere content kept
    rw [← addPiece_text spoken] at taken
    rw [List.cons_append, addAll_cons taken, ih fills, List.foldl_cons]
  | @blank piece content after nodes spoken blank _ ih =>
    have taken := (fills.addText_inclusion content kept).mpr ⟨blank, rfl⟩
    rw [← addPiece_text spoken] at taken
    rw [List.cons_append, addAll_cons taken, ih fills]
  | comment comment _ ih => rw [List.cons_append, addAll_tag (.comment comment rfl), ih fills]
  | @single place tag node after nodes meant admits _ ih =>
    have taken := (fills.addNode_iff node tag.raw kept).mpr ⟨admits, rfl⟩
    rw [List.cons_append, addAll_tag (.single meant taken), ih fills, List.foldl_cons,
      push_solid meant.solid]
  | @group place opening closing heading node inside after body nodes opens _ closes makes admits
      _ inner outer =>
    have within := fills_group heading (fill kept) opening.raw opening.here
    have taken := (fills.addNode_iff node closing.raw kept).mpr ⟨admits, rfl⟩
    rw [← makes.toNode] at taken
    rw [← heading.group_opener (body.foldl push [])] at closes
    rw [List.cons_append, addAll_tag (.opening opens rfl), List.append_assoc, inner within [],
      List.cons_append, addAll_tag (.closing rfl closes taken), makes.toNode, outer fills,
      List.foldl_cons, push_solid makes.solid]

/-! ### What is taken in is derived -/

/-- Pieces that start with a closing tag, or none at all. -/
def Stops : List Piece → Prop
  | [] => True
  | piece :: _ => ∃ tag, piece = .tag tag ∧ tag.form = .closing

section Derived

variable {place : Place} {fill : List Node → Builder}

/-- A text that a place takes in adds a text, or nothing. -/
theorem text_taken (fills : Fills place fill) {piece : Piece} {content : List Char}
    (spoken : piece.text? = some content) {kept : List Node} {next : Builder}
    (taken : (fill kept).addText content = .ok next) :
    ∃ part : List Node, next = fill (part.foldl push kept) ∧
      ∀ rest parts, Derives place rest parts → Derives place (piece :: rest) (part ++ parts) := by
  cases place with
  | anywhere =>
    rw [fills.addText_anywhere] at taken
    cases taken
    exact ⟨[.text (String.ofList content)], rfl, fun rest parts => .text spoken⟩
  | inclusion =>
    obtain ⟨blank, rfl⟩ := (fills.addText_inclusion content kept).mp taken
    exact ⟨[], rfl, fun rest parts => .blank spoken blank⟩

/-- **One piece adds to the place that is open**, or opens a place in it, or closes it. -/
theorem piece_taken (fills : Fills place fill) {piece : Piece} {kept : List Node} {next : Builder}
    (taken : (fill kept).addPiece piece = .ok next) :
    (∃ part : List Node, next = fill (part.foldl push kept) ∧
        ∀ rest parts, Derives place rest parts → Derives place (piece :: rest) (part ++ parts)) ∨
      (∃ opening heading, piece = .tag opening ∧ opening.OpensGroup heading ∧
        next = { fill kept with
          frames := ⟨heading.group [], opening.raw, opening.here⟩ :: (fill kept).frames }) ∨
      (∃ tag, piece = .tag tag ∧ tag.form = .closing) := by
  cases piece with
  | text content => exact .inl (text_taken fills rfl taken)
  | tag found =>
    cases addTag_eq_ok_iff.mp taken with
    | comment comment same =>
      subst same
      exact .inl ⟨[], rfl, fun rest parts => .comment comment⟩
    | text verbatim taken =>
      have spoken : (Piece.tag found).text? = some found.content := if_pos verbatim
      exact .inl (text_taken fills spoken taken)
    | @single node meant taken =>
      obtain ⟨admits, rfl⟩ := (fills.addNode_iff node found.raw kept).mp taken
      refine .inl ⟨[node], ?_, fun rest parts => .single meant admits⟩
      rw [List.foldl_cons, push_solid meant.solid, List.foldl_nil]
    | @opening heading opens same => exact .inr (.inl ⟨found, heading, rfl, opens, same⟩)
    | closing _ closes => exact .inr (.inr ⟨found, rfl, closes.1⟩)

/-- A tag that closes the group that has just been opened makes a node of it. -/
theorem group_taken (fills : Fills place fill) {heading : Heading} {inside : List Piece}
    {body kept : List Node} (derives : Derives heading.place inside body) {closing : Tag}
    {raw here : List Char} {next : Builder} (isClosing : closing.form = .closing)
    (taken : Builder.addTag closing { fill kept with
      frames := ⟨heading.group (body.foldl push []), raw, here⟩ :: (fill kept).frames } =
        .ok next) :
    ∃ node, closing.ClosesGroup heading.opener ∧ heading.Makes body node ∧ place.Admits node ∧
      next = fill (node :: kept) := by
  rw [addTag_closing isClosing] at taken
  obtain ⟨frame, frames, opened, word, taken⟩ := closeGroup_eq_ok_iff.mp taken
  cases opened
  obtain ⟨admits, same⟩ := (fills.addNode_iff _ _ kept).mp taken
  rw [heading.group_opener] at word
  exact ⟨_, ⟨isClosing, word⟩, Derives.makes derives, admits, same⟩

/-- **What the builder takes in is derived**, from a place that is open up to the tag that closes
it. -/
theorem derives_of_built {final : Builder} (closed : final.frames = []) (pieces : List Piece)
    {place : Place} {fill : List Node → Builder} (fills : Fills place fill) (kept : List Node)
    (run : Builder.addAll pieces (fill kept) = .ok final) :
    ∃ inside tail parts, pieces = inside ++ tail ∧ Derives place inside parts ∧ Stops tail ∧
      Builder.addAll tail (fill (parts.foldl push kept)) = .ok final := by
  match pieces with
  | [] => exact ⟨[], [], [], rfl, .nil place, trivial, run⟩
  | piece :: rest =>
    obtain ⟨next, taken, more⟩ := addAll_cons_iff.mp run
    rcases piece_taken fills taken with
      ⟨part, rfl, derives⟩ | ⟨opening, heading, rfl, opens, rfl⟩ | ⟨tag, rfl, isClosing⟩
    · obtain ⟨inside, tail, parts, split, derived, stops, ends⟩ :=
        derives_of_built closed rest fills _ more
      refine ⟨piece :: inside, tail, part ++ parts, by rw [split]; rfl,
        derives inside parts derived, stops, ?_⟩
      rw [List.foldl_append]
      exact ends
    · have within := fills_group heading (fill kept) opening.raw opening.here
      obtain ⟨inside, tail, body, split, derived, stops, ends⟩ :=
        derives_of_built closed rest within [] more
      match tail, stops with
      | [], _ =>
        -- a group that is never closed is still there in the end
        cases ends
        cases closed
      | .tag closing :: behind, ⟨_, rfl, isClosing⟩ =>
        obtain ⟨next, taken, more⟩ := addAll_cons_iff.mp ends
        obtain ⟨node, closes, makes, admits, rfl⟩ := group_taken fills derived isClosing taken
        have shorter : behind.length < rest.length := by
          rw [split, List.length_append, List.length_cons]
          omega
        obtain ⟨after, tail, parts, rfl, derivedAfter, stops, ends⟩ :=
          derives_of_built closed behind fills (node :: kept) more
        refine ⟨.tag opening :: (inside ++ .tag closing :: after), tail, node :: parts,
          by simp [split], .group opens derived closes makes admits derivedAfter, stops, ?_⟩
        rw [List.foldl_cons, push_solid makes.solid]
        exact ends
    · exact ⟨[], .tag tag :: rest, [], rfl, .nil place, ⟨tag, rfl, isClosing⟩, run⟩
termination_by pieces.length

/-- **What is made of pieces outside all groups**, behind nodes that are there already: the nodes that
the pieces derive. -/
theorem addAll_root_iff {pieces : List Piece} {kept nodes : List Node}
    (ends : kept.head? ≠ some (.text "")) :
    (∃ final, Builder.addAll pieces ⟨[], kept⟩ = .ok final ∧ final.frames = [] ∧
        final.nodes.reverse = nodes) ↔
      ∃ parts, Derives .anywhere pieces parts ∧ nodes = resume kept (joinTexts parts) := by
  have root : Fills .anywhere fun nodes => ⟨[], nodes⟩ := .anywhere holds_root
  constructor
  · rintro ⟨final, run, closed, rfl⟩
    obtain ⟨inside, tail, parts, whole, derives, stops, finished⟩ :=
      derives_of_built closed _ root kept run
    match tail, stops with
    | [], _ =>
      cases finished
      rw [whole, List.append_nil]
      exact ⟨parts, derives, foldl_push parts ends⟩
    | .tag closing :: _, ⟨_, rfl, isClosing⟩ =>
      -- outside all groups there is nothing to close
      obtain ⟨next, taken, -⟩ := addAll_cons_iff.mp finished
      obtain ⟨frame, frames, opened, -⟩ :=
        closeGroup_eq_ok_iff.mp ((addTag_closing isClosing).symm.trans taken)
      cases opened
  · rintro ⟨parts, derives, rfl⟩
    have run := derives.built root kept []
    rw [List.append_nil] at run
    exact ⟨_, run, rfl, foldl_push parts ends⟩

end Derived

/-! ### Sources -/

/-- **The nodes of a source are those that its pieces derive**, with neighbouring texts joined. -/
theorem parse_grammar (source : String) (nodes : List Node) :
    Node.parse source = .ok nodes ↔ (Tag.walk source.toList).fault = none ∧
      ∃ parts, Derives .anywhere (Tag.walk source.toList).pieces parts ∧
        nodes = joinTexts parts := by
  show buildFrom source.toList source.toList ⟨[], []⟩ = _ ↔ _
  rw [buildFrom_eq_ok_iff, addAll_root_iff (by simp)]
  rfl

end Stencil.Markup
