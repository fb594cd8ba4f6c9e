/-
**What open scopes hold.**

While a source is parsed, each open scope holds what the pieces behind its opening tag derive, with
their texts joined. Every piece keeps that: it adds to the innermost scope, opens one in it, or
folds it to a node of the scope around it. So every scope is in normal form at any time, and an
include holds nothing but definitions when it is folded.

* `Collects`, `Collects.grow`: **what open scopes hold**, and what more pieces add to it;
* `addPiece_collects`, `addAll_collects`: **each piece keeps it**, and so do many;
* `build_of_taken`: where the parser stands when it comes to a tag;
* `parse_normal`: **trees are in normal form, and includes are folded whole**.
-/

import Stencil.Proofs.NormalTrees
import Stencil.Proofs.OpenScopes

namespace Stencil.Markup

open Text

/-! ### What open scopes hold -/

namespace Scopes

/-- Puts nodes behind those of the innermost scope; texts join. -/
def put (added : List Node) (scopes : Scopes) : Scopes :=
  scopes.modify fun nodes => (added.foldl push nodes.reverse).reverse

/-- **What open scopes hold** once pieces are taken in: each the nodes that the pieces behind its
opening tag derive, with their texts joined. -/
inductive Collects : List Piece → Scopes → Prop
  | root {passed : List Piece} {parts : List Node} :
      Derives .anywhere passed parts → Collects passed (root (joinTexts parts))
  | inside {before within : List Piece} {opening : Tag} {heading : Heading} {parts : List Node}
      {outer : Scopes} :
      Collects before outer → opening.OpensGroup heading → Derives heading.place within parts →
      Collects (before ++ .tag opening :: within)
        (inside heading (joinTexts parts) opening.raw opening.here outer)

/-- **A scope inside a group** holds what the pieces behind its opening tag derive. -/
theorem Collects.opened {heading : Heading} {nodes : List Node} {raw here : List Char}
    {outer : Scopes} {passed : List Piece}
    (collects : (Scopes.inside heading nodes raw here outer).Collects passed) :
    ∃ before within opening parts, passed = before ++ .tag opening :: within ∧
      nodes = joinTexts parts ∧ outer.Collects before ∧ opening.OpensGroup heading ∧
      Derives heading.place within parts := by
  cases collects with
  | @inside before within opening _ parts _ around opens derived =>
    exact ⟨before, within, opening, parts, rfl, rfl, around, opens, derived⟩

end Scopes

theorem Derives.append {place : Place} {passed more : List Piece} {nodes added : List Node}
    (first : Derives place passed nodes) (second : Derives place more added) :
    Derives place (passed ++ more) (nodes ++ added) := by
  induction first with
  | nil place => exact second
  | text spoken _ ih => exact .text spoken (ih second)
  | blank spoken blank _ ih => exact .blank spoken blank (ih second)
  | comment comment _ ih => exact .comment comment (ih second)
  | single meant admits _ ih => exact .single meant admits (ih second)
  | group opens within closes makes admits _ _ ih =>
    rw [List.cons_append, List.append_assoc]
    exact .group opens within closes makes admits (ih second)

theorem joinTexts_append (parts added : List Node) :
    joinTexts (parts ++ added) = (added.foldl push (joinTexts parts).reverse).reverse := by
  rw [← foldl_push_nil, List.foldl_append, ← foldl_push_nil parts, List.reverse_reverse]

section Holding

variable {scopes after : Scopes} {passed more : List Piece} {piece : Piece} {node : Node}
  {added : List Node} {content near : List Char}

theorem put_nil (scopes : Scopes) : scopes.put [] = scopes := by
  cases scopes <;> simp [Scopes.put, Scopes.modify]

/-- An empty text is left out. -/
theorem put_empty (scopes : Scopes) : scopes.put [.text (String.ofList [])] = scopes :=
  put_nil scopes

theorem put_text (filled : content ≠ []) (scopes : Scopes) :
    scopes.put [.text (String.ofList content)] = scopes.modify (extendText content) := by
  refine congrArg (Scopes.modify · scopes) (funext fun nodes => ?_)
  have solid : String.ofList content ≠ "" := by simpa [String.ofList_eq_empty_iff] using filled
  rw [List.foldl_cons, List.foldl_nil, push, if_neg solid, String.toList_ofList,
    ← extendText_reverse, List.reverse_reverse]

theorem put_solid (solid : ¬ node.IsText) (scopes : Scopes) :
    scopes.put [node] = scopes.modify (· ++ [node]) := by
  refine congrArg (Scopes.modify · scopes) (funext fun nodes => ?_)
  rw [List.foldl_cons, List.foldl_nil, push_solid solid, List.reverse_cons, List.reverse_reverse]

/-- **What the innermost scope derives from more pieces** is put behind what it holds. -/
theorem Scopes.Collects.grow (collects : scopes.Collects passed)
    (derives : Derives scopes.place more added) :
    (scopes.put added).Collects (passed ++ more) := by
  cases collects with
  | root derived =>
    have whole := Scopes.Collects.root (derived.append derives)
    rwa [joinTexts_append] at whole
  | inside around opens derived =>
    have whole := Scopes.Collects.inside around opens (derived.append derives)
    rw [joinTexts_append] at whole
    rw [List.append_assoc]
    exact whole

/-- Directly inside an include only a blank text is taken in, and it is dropped. -/
theorem addText_inclusion (inInclude : scopes.place = .inclusion)
    (taken : scopes.addText content = .ok after) :
    isBlankText content = true ∧ after = scopes := by
  unfold Scopes.addText at taken
  rw [inInclude] at taken
  dsimp only at taken
  split_ifs at taken with nothing blank
  · cases taken
    exact ⟨by rw [List.isEmpty_iff.mp nothing]; rfl, rfl⟩
  · cases taken
    exact ⟨blank, rfl⟩

/-- A text that is taken in adds a text to the innermost scope, or nothing. -/
theorem addText_takes (spoken : piece.text? = some content)
    (taken : scopes.addText content = .ok after) :
    ∃ added, Derives scopes.place [piece] added ∧ after = scopes.put added := by
  cases isPlace : scopes.place with
  | anywhere =>
    refine ⟨[.text (String.ofList content)], .text spoken (.nil _), ?_⟩
    unfold Scopes.addText at taken
    cases content with
    | nil =>
      cases taken
      exact (put_empty scopes).symm
    | cons c content =>
      rw [isPlace] at taken
      cases taken
      exact (put_text (List.cons_ne_nil c content) scopes).symm
  | inclusion =>
    obtain ⟨blank, rfl⟩ := addText_inclusion isPlace taken
    exact ⟨[], .blank spoken blank (.nil _), (put_nil after).symm⟩

/-- **A node that is taken in** may stand in the innermost scope and is put there. -/
theorem addNode_takes (solid : ¬ node.IsText) (taken : scopes.addNode node near = .ok after) :
    scopes.place.Admits node ∧ after = scopes.put [node] := by
  rw [put_solid solid]
  unfold Scopes.addNode at taken
  cases isPlace : scopes.place with
  | anywhere =>
    rw [isPlace] at taken
    cases taken
    exact ⟨trivial, rfl⟩
  | inclusion =>
    rw [isPlace] at taken
    cases node with
    | definition definition =>
      cases taken
      exact ⟨⟨definition, rfl⟩, rfl⟩
    | _ => cases taken

/-- What a scope derives makes the node that it is folded to. -/
theorem Derives.makes_fold {heading : Heading} {within : List Piece} {parts : List Node}
    (derives : Derives heading.place within parts) :
    heading.Makes parts (heading.fold (joinTexts parts)) := by
  cases heading with
  | block name => exact .block name parts
  | definition name mode => exact .definition name mode parts
  | inclusion file =>
    obtain ⟨overrides, rfl⟩ := Derives.definitions derives
    rw [joinTexts_definitions, Heading.fold, definitions_of_map]
    exact .inclusion file overrides

variable {builder next : Builder} {tag : Tag}

/-- A node that the running parser takes in is put into the innermost scope. -/
theorem addNode_collects (collects : builder.scopes.Collects passed) (solid : ¬ node.IsText)
    (made : ∀ place : Place, place.Admits node → Derives place more [node])
    (taken : builder.addNode node near = .ok next) : next.scopes.Collects (passed ++ more) := by
  have put : builder.scopes.addNode node near = .ok next.scopes := by
    rw [addNode_scopes, taken]
    rfl
  obtain ⟨admits, same⟩ := addNode_takes solid put
  rw [same]
  exact collects.grow (made _ admits)

theorem addText_collects (collects : builder.scopes.Collects passed)
    (spoken : piece.text? = some content) (taken : builder.addText content = .ok next) :
    next.scopes.Collects (passed ++ [piece]) := by
  have put : builder.scopes.addText content = .ok next.scopes := by
    rw [addText_scopes, taken]
    rfl
  obtain ⟨added, derives, same⟩ := addText_takes spoken put
  rw [same]
  exact collects.grow derives

/-- **Each piece that is taken in** keeps what open scopes hold. -/
theorem addPiece_collects (collects : builder.scopes.Collects passed)
    (taken : builder.addPiece piece = .ok next) : next.scopes.Collects (passed ++ [piece]) := by
  cases piece with
  | text content => exact addText_collects collects rfl taken
  | tag found =>
    cases addTag_eq_ok_iff.mp taken with
    | comment isComment same =>
      have whole := collects.grow (.comment isComment (.nil _))
      rw [same]
      rwa [put_nil] at whole
    | text verbatim taken => exact addText_collects collects (if_pos verbatim) taken
    | single meant taken =>
      exact addNode_collects collects meant.solid
        (fun place admits => .single meant admits (.nil place)) taken
    | @opening heading opens same =>
      rw [same]
      have begun := Scopes.Collects.inside collects opens (.nil heading.place)
      cases heading <;> exact begun
    | @closing frame frames opened closes taken =>
      have around : builder.scopes = .inside frame.group.heading frame.group.collected frame.raw
          frame.here { builder with frames }.scopes := by
        rw [Builder.scopes, opened]
        rfl
      rw [around] at collects
      obtain ⟨before, within, opening, parts, rfl, same, outside, opens, derived⟩ := collects.opened
      have folded := derived.makes_fold
      rw [← same, fold_collected] at folded
      rw [← opener_heading] at closes
      rw [List.append_assoc]
      exact addNode_collects outside folded.solid
        (fun place admits => .group opens derived closes folded admits (.nil place)) taken

/-- **Pieces that are taken in** one after the other keep what open scopes hold. -/
theorem addAll_collects (pieces : List Piece) (collects : builder.scopes.Collects passed)
    (run : Builder.addAll pieces builder = .ok next) : next.scopes.Collects (passed ++ pieces) := by
  induction pieces generalizing builder passed with
  | nil =>
    cases run
    rwa [List.append_nil]
  | cons piece pieces ih =>
    obtain ⟨between, taken, run⟩ := addAll_cons_iff.mp run
    have whole := ih (addPiece_collects collects taken) run
    rwa [List.append_assoc] at whole

/-- **Every open scope** is in normal form. -/
theorem levels_normal (collects : scopes.Collects passed) :
    ∀ level ∈ scopes.levels, Node.AllNormal level.2 := by
  induction collects with
  | root derives => exact List.forall_mem_singleton.mpr (joinTexts_normal derives.normal)
  | inside _ _ derives ih => exact List.forall_mem_cons.mpr ⟨joinTexts_normal derives.normal, ih⟩

end Holding

/-! ### The parser at a tag -/

/-- **The parser comes to a tag** of a source with these scopes open, once it has taken in the
pieces before the tag. -/
structure Scopes.Meets (source : List Char) (passed : List Piece) (tag : Tag) (scopes : Scopes) :
    Prop where
  split : ∃ left, (Tag.walk source).pieces = passed ++ .tag tag :: left
  taken : Scopes.addAll passed (.root []) = .ok scopes

section Meeting

variable {source text : List Char} {passed left : List Piece} {tag : Tag} {scopes after : Scopes}

/-- A text alone has no tag among its pieces. -/
theorem no_tag_in_text : [Piece.text text] ≠ passed ++ .tag tag :: left := by
  cases passed <;> simp

/-- **The loop stands before a tag** with the scopes that it has when the pieces before the tag are
taken in. -/
theorem build_of_taken (source : List Char)
    (split : (Tag.walk text).pieces = passed ++ .tag tag :: left)
    (taken : Scopes.addAll passed scopes = .ok after) : scopes.build source text =
      (locating source tag.here (after.addTag tag)).bind fun next =>
        next.build source tag.after := by
  fun_induction Tag.walk text generalizing passed scopes with
  | case1 text fault failed => exact absurd split no_tag_in_text
  | case2 text nothing => exact absurd split no_tag_in_text
  | case3 text first found more =>
    rename_i ih
    have pieces : .text first.before :: .tag first :: (Tag.walk first.after).pieces =
        passed ++ .tag tag :: left := split
    rw [build_eq, found]
    show (locating source text (scopes.addText first.before)).bind _ = _
    rcases passed with _ | ⟨_, _ | ⟨_, passed⟩⟩
    · cases pieces
    · obtain ⟨rfl, tail⟩ := List.cons.inj pieces
      obtain ⟨⟨⟩, -⟩ := List.cons.inj tail
      obtain ⟨_, before, same⟩ := bind_eq_ok.mp taken
      cases same
      have spoken : scopes.addText tag.before = .ok after := before
      rw [spoken]
      rfl
    · obtain ⟨rfl, tail⟩ := List.cons.inj pieces
      obtain ⟨rfl, rest⟩ := List.cons.inj tail
      obtain ⟨between, before, taken⟩ := bind_eq_ok.mp taken
      obtain ⟨next, isTaken, taken⟩ := bind_eq_ok.mp taken
      have spoken : scopes.addText first.before = .ok between := before
      have tagged : between.addTag first = .ok next := isTaken
      rw [spoken]
      show (locating source first.here (between.addTag first)).bind _ = _
      rw [tagged]
      exact ih rest taken

theorem Scopes.Meets.collects (meets : Scopes.Meets source passed tag scopes) :
    scopes.Collects passed := by
  have run : (Builder.addAll passed Builder.empty).map Builder.scopes = .ok scopes :=
    (addAll_scopes passed Builder.empty).symm.trans meets.taken
  obtain ⟨builder, built, rfl⟩ := map_eq_ok.mp run
  exact addAll_collects passed (.root (.nil .anywhere)) built

end Meeting

/-- **Trees are in normal form, and includes are folded whole.** The nodes of a source are in normal
form at every nesting. The parser with its scopes all alike is the running parser; whenever it comes
to a tag, every open scope is in normal form, and if the tag closes an include, then all nodes
collected in the include are definitions, which go into the scope around it as its overrides, in the
order in which the pieces between its tags derive them. -/
theorem parse_normal (source : String) :
    (∀ nodes, Node.parse source = .ok nodes → Node.AllNormal nodes) ∧
      Scopes.parse source = Node.parse source ∧
      ∀ passed tag scopes, Scopes.Meets source.toList passed tag scopes →
        (Scopes.parse source =
            (locating source.toList tag.here (scopes.addTag tag)).bind fun next =>
              next.build source.toList tag.after) ∧
          (∀ level ∈ scopes.levels, Node.AllNormal level.2) ∧
          ∀ file nodes raw here outer, scopes = .inside (.inclusion file) nodes raw here outer →
            tag.ClosesGroup .inclusion →
            ∃ overrides, nodes = overrides.map .definition ∧
              scopes.addTag tag = outer.addNode (.inclusion file overrides) tag.raw ∧
              ∃ before opening within, passed = before ++ .tag opening :: within ∧
                opening.OpensGroup (.inclusion file) ∧ Derives .inclusion within nodes := by
  refine ⟨fun nodes => allNormal_of_parse, parse_scopes source, fun passed tag scopes meets => ?_⟩
  obtain ⟨left, split⟩ := meets.split
  refine ⟨build_of_taken source.toList split meets.taken, levels_normal meets.collects, ?_⟩
  rintro file nodes raw here outer rfl ⟨closing, word⟩
  obtain ⟨before, within, opening, parts, rfl, rfl, -, opens, derives⟩ := meets.collects.opened
  obtain ⟨overrides, rfl⟩ := Derives.definitions derives
  have whole := joinTexts_definitions overrides
  refine ⟨overrides, whole, ?_, before, opening, within, rfl, opens, by rwa [whole]⟩
  unfold Scopes.addTag
  rw [closing]
  show (if String.ofList (trim tag.content) = Opener.inclusion.word then
    outer.addNode (.inclusion file _) tag.raw else _) = _
  rw [word, String.ofList_toList, if_pos rfl, whole, definitions_of_map]

/-- An include with two definitions, a blank between them and a comment in the text of the first. -/
def cardSource : String :=
  "\x7b\x7b#include c\x7d\x7d\x7b\x7b#def a\x7d\x7dx\x7b\x7b!c\x7d\x7dy\x7b\x7b/def\x7d\x7d " ++
    "\x7b\x7b#def b\x7d\x7d\x7b\x7b/def\x7d\x7d\x7b\x7b/include\x7d\x7d"

/-- The tag that closes it. -/
def cardClosing : Tag :=
  ⟨.closing, [], "include".toList, [], "include\x7d\x7d".toList, "include\x7d\x7d".toList⟩

/-- The definitions of the include. -/
def cardOverrides : List Definition :=
  [.mk "a" .override [.text "xy"], .mk "b" .override []]

/-- What is open in front of that tag. -/
def cardScopes : Scopes :=
  .inside (.inclusion "c") (cardOverrides.map .definition) "include c\x7d\x7d".toList
    (cardSource.toList.drop 3) (.root [])

theorem cardSource_normal :
    Node.parse cardSource = .ok [.inclusion "c" cardOverrides] ∧
      Node.AllNormal [.inclusion "c" cardOverrides] ∧
      ∃ passed, Scopes.Meets cardSource.toList passed cardClosing cardScopes ∧
        cardClosing.ClosesGroup .inclusion ∧
        ∃ overrides, cardOverrides.map Node.definition = overrides.map .definition ∧
          cardScopes.addTag cardClosing =
            (Scopes.root []).addNode (.inclusion "c" overrides) cardClosing.raw := by
  have parsed : Node.parse cardSource = .ok [.inclusion "c" cardOverrides] := by
    with_unfolding_all rfl
  have closes : cardClosing.ClosesGroup .inclusion := ⟨rfl, by decide⟩
  have split : (Tag.walk cardSource.toList).pieces =
      (Tag.walk cardSource.toList).pieces.take 13 ++ .tag cardClosing :: [.text []] := by
    with_unfolding_all rfl
  have taken : Scopes.addAll ((Tag.walk cardSource.toList).pieces.take 13) (.root []) =
      .ok cardScopes := by with_unfolding_all rfl
  have meets : Scopes.Meets cardSource.toList _ cardClosing cardScopes := ⟨⟨_, split⟩, taken⟩
  obtain ⟨normal, -, atTag⟩ := parse_normal cardSource
  obtain ⟨-, -, folded⟩ := atTag _ _ _ meets
  obtain ⟨overrides, same, closed, -⟩ := folded _ _ _ _ _ rfl closes
  exact ⟨parsed, normal _ parsed, _, meets, closes, overrides, same, closed⟩

end Stencil.Markup
