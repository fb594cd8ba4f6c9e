/-
**Reading single tags.**

* `walkFrom_nil_iff`, `walkFrom_cons_iff`: the arguments of a text, one after the other;
* `afterKeyword?_eq_some_iff`, `readVariable?_eq_some_iff`: keywords and bindings;
* `readStatement_iff`, `readInclusion_iff`: **output tags, statements and includes say what the
  grammar says**;
* `readOpening_iff`: **opening tags open the groups of the grammar**.
-/

import Stencil.Proofs.PrintedArguments
import Stencil.Proofs.TemplateGrammar
import Mathlib.Data.List.TakeWhile

namespace Stencil.Markup

open Text

section Steps

variable {ε α β : Type} {first : Except ε α}

theorem bind_eq_ok {next : α → Except ε β} {result : β} :
    first.bind next = .ok result ↔ ∃ middle, first = .ok middle ∧ next middle = .ok result := by
  cases first <;> simp [Except.bind]

theorem map_eq_ok {make : α → β} {result : β} :
    first.map make = .ok result ↔ ∃ middle, first = .ok middle ∧ make middle = result := by
  cases first <;> simp [Except.map]

end Steps

/-! ### Arguments -/

section Arguments

open Argument

variable {content near : List Char} {argument : Argument}

theorem walkFrom_nil_iff : walkFrom content = ⟨[], none⟩ ↔ read? content = .ok none := by
  rw [walkFrom]
  split
  · rename_i failed
    simp [failed]
  · rename_i nothing
    simp [nothing]
  · rename_i found
    simp [found]

theorem walkFrom_cons_iff {more : List Argument} :
    walkFrom content = ⟨argument :: more, none⟩ ↔
      read? content = .ok (some argument) ∧ walkFrom argument.tail = ⟨more, none⟩ := by
  rw [walkFrom]
  split
  · rename_i failed
    simp [failed]
  · rename_i nothing
    simp [nothing]
  · rename_i first found
    rw [found]
    constructor
    · intro whole
      simp only [Walk.mk.injEq, List.cons.injEq] at whole
      obtain ⟨⟨rfl, rfl⟩, sound⟩ := whole
      exact ⟨rfl, by rw [← sound]⟩
    · rintro ⟨same, rest⟩
      cases same
      rw [rest]

theorem needArgument_iff {needed : Needed} {found : Argument} :
    needArgument argument needed near = .ok found ↔ read? argument.tail = .ok (some found) := by
  show (read? argument.tail).bind _ = _ ↔ _
  rw [bind_eq_ok]
  constructor
  · rintro ⟨_ | next, isNext, taken⟩
    · cases taken
    · cases taken
      exact isNext
  · intro isNext
    exact ⟨some found, isNext, rfl⟩

theorem noMoreArguments_iff {done : Unit} :
    noMoreArguments argument near = .ok done ↔ walkFrom argument.tail = ⟨[], none⟩ := by
  rw [walkFrom_nil_iff]
  show (read? argument.tail).bind _ = _ ↔ _
  rw [bind_eq_ok]
  constructor
  · rintro ⟨_ | extra, isNext, taken⟩
    · exact isNext
    · cases taken
  · intro isNext
    exact ⟨none, isNext, rfl⟩

theorem ofName_iff {word : String} {mode : Mode} :
    Mode.ofName word = .ok mode ↔ word = mode.name := by
  constructor
  · intro made
    unfold Mode.ofName at made
    repeat'
      split at made
      · cases made
        assumption
    cases made
  · rintro rfl
    exact Mode.ofName_name mode

/-- The argument that gives a mode is the last one. -/
theorem readMode_iff {mode : Mode} : readMode argument near = .ok mode ↔
    (walkFrom argument.tail = ⟨[], none⟩ ∧ mode = .override) ∨
      ∃ how : Argument, walkFrom argument.tail = ⟨[how], none⟩ ∧ how.value = mode.name.toList := by
  simp only [walkFrom_cons_iff]
  show (read? argument.tail).bind _ = _ ↔ _
  rw [bind_eq_ok, walkFrom_nil_iff]
  constructor
  · rintro ⟨_ | how, isNext, taken⟩
    · cases taken
      exact .inl ⟨isNext, rfl⟩
    · obtain ⟨_, last, isMode⟩ := bind_eq_ok.mp taken
      refine .inr ⟨how, ⟨isNext, noMoreArguments_iff.mp last⟩, ?_⟩
      rw [← ofName_iff.mp isMode, String.toList_ofList]
  · rintro (⟨isNext, rfl⟩ | ⟨how, ⟨isNext, last⟩, isMode⟩)
    · exact ⟨none, isNext, rfl⟩
    · refine ⟨some how, isNext, bind_eq_ok.mpr ⟨(), noMoreArguments_iff.mpr last, ?_⟩⟩
      rw [isMode, String.ofList_toList]
      exact Mode.ofName_name mode

/-- **An argument that is the last one**, given to what makes something of it. -/
theorem loneArgument_iff {α : Type} {needed : Needed} {make : Argument → α} {made : α} :
    (do
      let found ← needArgument argument needed near
      noMoreArguments found near
      .ok (make found) : Except Fault α) = .ok made ↔
      ∃ found, walkFrom argument.tail = ⟨[found], none⟩ ∧ made = make found := by
  show (needArgument argument needed near).bind (fun found =>
    (noMoreArguments found near).bind fun _ => .ok (make found)) = _ ↔ _
  simp only [bind_eq_ok, needArgument_iff, noMoreArguments_iff, walkFrom_cons_iff, Except.ok.injEq]
  constructor
  · rintro ⟨found, isNext, _, last, rfl⟩
    exact ⟨found, ⟨isNext, last⟩, rfl⟩
  · rintro ⟨found, ⟨isNext, last⟩, rfl⟩
    exact ⟨found, isNext, (), last, rfl⟩

end Arguments

/-! ### Groups -/

/-- The node that stands for a definition. -/
def Node.definition? : Node → Option Definition
  | .definition held => some held
  | _ => none

/-- **The group that a heading stands for**, with what it holds so far, the latest first. -/
def Heading.group : Heading → List Node → Group
  | .block name, kept => .block name kept
  | .definition name mode, kept => .definition name mode kept
  | .inclusion file, kept => .inclusion file (kept.filterMap Node.definition?)

section Groups

variable {tag : Tag}

theorem lists_iff {first : Argument} {more : List Argument} :
    tag.Lists (first :: more) ↔ Argument.first? tag.content = .ok (some first) ∧
      Argument.walkFrom first.tail = ⟨more, none⟩ :=
  walkFrom_cons_iff

theorem readInclusion_iff {node : Node} : readInclusion tag = .ok node ↔
    ∃ file, tag.Lists [file] ∧ node = .inclusion (String.ofList file.text) [] := by
  show (Argument.first? tag.content).bind _ = _ ↔ _
  simp only [bind_eq_ok, lists_iff]
  constructor
  · rintro ⟨_ | file, isFirst, taken⟩
    · cases taken
    · obtain ⟨_, last, same⟩ := bind_eq_ok.mp taken
      cases same
      exact ⟨file, ⟨isFirst, noMoreArguments_iff.mp last⟩, rfl⟩
  · rintro ⟨file, ⟨isFirst, last⟩, rfl⟩
    exact ⟨some file, isFirst, bind_eq_ok.mpr ⟨(), noMoreArguments_iff.mpr last, rfl⟩⟩

/-- **An opening tag opens a group exactly if the grammar has a heading for it.** -/
theorem readOpening_iff (opening : tag.form = .opening) {group : Group} :
    readOpening tag = .ok group ↔ ∃ heading, tag.OpensGroup heading ∧ group = heading.group [] := by
  show (Argument.first? tag.content).bind _ = _ ↔ _
  rw [bind_eq_ok]
  constructor
  · rintro ⟨_ | word, isFirst, taken⟩
    · cases taken
    have spelled : ∀ {text : String}, String.ofList word.value = text →
        word.value = text.toList := by
      rintro _ rfl
      rw [String.toList_ofList]
    simp only at taken
    split_ifs at taken with isBlock isDefinition isInclusion
    · obtain ⟨name, last, rfl⟩ := loneArgument_iff.mp taken
      exact ⟨_, .block opening (lists_iff.mpr ⟨isFirst, last⟩)
        (spelled isBlock), rfl⟩
    · obtain ⟨name, isNext, taken⟩ := bind_eq_ok.mp taken
      obtain ⟨mode, isMode, same⟩ := bind_eq_ok.mp taken
      cases same
      have follows := needArgument_iff.mp isNext
      rcases readMode_iff.mp isMode with ⟨last, rfl⟩ | ⟨how, last, isMode⟩
      · exact ⟨_, .definition opening
          (lists_iff.mpr ⟨isFirst, walkFrom_cons_iff.mpr ⟨follows, last⟩⟩)
          (spelled isDefinition), rfl⟩
      · exact ⟨_, .definitionWith mode opening
          (lists_iff.mpr ⟨isFirst, walkFrom_cons_iff.mpr ⟨follows, last⟩⟩)
          (spelled isDefinition) isMode, rfl⟩
    · obtain ⟨file, last, rfl⟩ := loneArgument_iff.mp taken
      exact ⟨_, .inclusion opening (lists_iff.mpr ⟨isFirst, last⟩)
        (spelled isInclusion), rfl⟩
  · rintro ⟨heading, opens, rfl⟩
    cases opens with
    | @block word name _ listed isWord =>
      obtain ⟨isFirst, last⟩ := lists_iff.mp listed
      refine ⟨some word, isFirst, ?_⟩
      simp only [isWord]
      exact loneArgument_iff.mpr ⟨name, last, rfl⟩
    | @definition word name _ listed isWord =>
      obtain ⟨isFirst, last⟩ := lists_iff.mp listed
      obtain ⟨follows, last⟩ := walkFrom_cons_iff.mp last
      refine ⟨some word, isFirst, ?_⟩
      simp only [isWord]
      exact bind_eq_ok.mpr ⟨name, needArgument_iff.mpr follows,
        bind_eq_ok.mpr ⟨.override, readMode_iff.mpr (.inl ⟨last, rfl⟩), rfl⟩⟩
    | @definitionWith word name how mode _ listed isWord isMode =>
      obtain ⟨isFirst, last⟩ := lists_iff.mp listed
      obtain ⟨follows, last⟩ := walkFrom_cons_iff.mp last
      refine ⟨some word, isFirst, ?_⟩
      simp only [isWord]
      exact bind_eq_ok.mpr ⟨name, needArgument_iff.mpr follows,
        bind_eq_ok.mpr ⟨mode, readMode_iff.mpr (.inr ⟨how, last, isMode⟩), rfl⟩⟩
    | @inclusion word file _ listed isWord =>
      obtain ⟨isFirst, last⟩ := lists_iff.mp listed
      refine ⟨some word, isFirst, ?_⟩
      simp only [isWord]
      exact loneArgument_iff.mpr ⟨file, last, rfl⟩

end Groups

/-! ### Statements -/

section Statements

variable {content : List Char}

theorem afterKeyword?_eq_some_iff {keyword binding : List Char} :
    afterKeyword? keyword content = some binding ↔
      ∃ gap rest, isBlank gap = true ∧ content = keyword ++ gap :: rest ∧ binding = trim rest := by
  unfold afterKeyword?
  constructor
  · intro found
    split at found
    · rename_i gap rest isStart
      split at found
      · cases found
        exact ⟨gap, rest, ‹_›, (List.isPrefixOf?_eq_some_iff_append_eq.mp isStart).symm, rfl⟩
      · cases found
    · cases found
  · rintro ⟨gap, rest, blank, rfl, rfl⟩
    rw [List.isPrefixOf?_eq_some_iff_append_eq.mpr rfl]
    exact if_pos blank

theorem afterKeyword?_eq_none_iff {keyword source : String} :
    afterKeyword? keyword.toList source.toList = none ↔ ¬ StartsWith keyword source := by
  refine ⟨fun absent starts => ?_, afterKeyword?_eq_none⟩
  obtain ⟨gap, rest, blank, whole⟩ := starts
  have found := afterKeyword?_eq_some_iff.mpr ⟨gap, rest, blank, whole, rfl⟩
  rw [absent] at found
  cases found

theorem takeWhile_name {name : List Char} (isName : IsVariableName (String.ofList name))
    {blanks : List Char} (blank : ∀ c ∈ blanks, isBlank c = true) (rest : List Char) :
    (name ++ (blanks ++ '=' :: rest)).takeWhile isVariablePart = name ∧
      (name ++ (blanks ++ '=' :: rest)).dropWhile isVariablePart = blanks ++ '=' :: rest := by
  have parts := isName.parts
  rw [String.toList_ofList] at parts
  have stops : ∀ c ∈ (blanks ++ '=' :: rest).head?, isVariablePart c = false := by
    intro c isHead
    by_contra part
    have solid := isBlank_eq_false_of_isVariablePart (by simpa using part)
    cases blanks with
    | nil =>
      cases isHead
      exact part rfl
    | cons first blanks =>
      cases isHead
      rw [blank c List.mem_cons_self] at solid
      cases solid
  exact ⟨takeWhile_stops parts stops, dropWhile_stops parts stops⟩

/-- **A binding** is a name, blanks, an equals sign and a value. -/
theorem readVariable?_eq_some_iff {binding name value : List Char} :
    readVariable? binding = some (name, value) ↔
      ∃ blanks rest, binding = name ++ (blanks ++ '=' :: rest) ∧
        IsVariableName (String.ofList name) ∧ (∀ c ∈ blanks, isBlank c = true) ∧ rest ≠ [] ∧
        value = trim rest := by
  constructor
  · intro found
    unfold readVariable? at found
    simp only at found
    split at found
    · rename_i first rest starts equals
      split_ifs at found with valid
      cases found
      have behind := takeWhile_append_trimStart (binding.dropWhile isVariablePart)
      rw [equals] at behind
      refine ⟨(binding.dropWhile isVariablePart).takeWhile isBlank, rest, ?_, ?_, ?_, valid.2, rfl⟩
      · rw [behind, List.takeWhile_append_dropWhile]
      · cases binding with
        | nil => cases starts
        | cons c binding =>
          cases starts
          have part := isVariablePart_of_isVariableStart valid.1
          refine ⟨first, binding.takeWhile isVariablePart, ?_, valid.1, fun c member => ?_⟩
          · rw [String.toList_ofList, List.takeWhile_cons, if_pos part]
          · exact List.mem_takeWhile_imp member
      · exact fun c member => List.mem_takeWhile_imp member
    · cases found
  · rintro ⟨blanks, rest, rfl, isName, blank, solid, rfl⟩
    obtain ⟨taken, left⟩ := takeWhile_name isName blank rest
    have equals : trimStart (blanks ++ '=' :: rest) = '=' :: rest :=
      List.dropWhile_append_of_pos blank
    obtain ⟨first, more, whole, starts, -⟩ := isName
    rw [String.toList_ofList] at whole
    unfold readVariable?
    rw [taken, left, equals]
    simp only [whole, List.cons_append, List.head?_cons, starts, solid, true_and, ne_eq,
      not_false_eq_true, if_true]

variable {tag : Tag} {node : Node}

/-- **An output tag or statement says what the grammar says.** -/
theorem readStatement_iff (escaped : tag.form = .escaped) :
    readStatement tag = .ok node ↔ tag.Says node := by
  constructor
  · intro read
    unfold readStatement at read
    simp only at read
    split at read
    · rename_i binding isVariable
      obtain ⟨gap, rest, blank, whole, rfl⟩ := afterKeyword?_eq_some_iff.mp isVariable
      split at read
      · rename_i name value isBinding
        cases read
        obtain ⟨blanks, rest, shape, isName, blanks', solid, rfl⟩ :=
          readVariable?_eq_some_iff.mp isBinding
        exact .variable escaped blank whole (by rw [String.toList_ofList]; exact shape) isName
          blanks' solid
      · cases read
    · rename_i noVariable
      split at read
      · rename_i source isStatement
        cases read
        obtain ⟨gap, rest, blank, whole, rfl⟩ := afterKeyword?_eq_some_iff.mp isStatement
        exact .statement escaped blank whole
      · rename_i noStatement
        cases read
        have spoken := String.toList_ofList (l := trim tag.content)
        rw [← spoken] at noVariable noStatement
        exact .output escaped spoken (afterKeyword?_eq_none_iff.mp noVariable)
          (afterKeyword?_eq_none_iff.mp noStatement)
  · intro meant
    unfold readStatement
    cases meant with
    | @«variable» gap binding blanks value name _ blank whole shape isName areBlank solid =>
      rw [← @String.ofList_toList name] at isName
      have isVariable := afterKeyword?_eq_some_iff.mpr ⟨gap, binding, blank, whole, rfl⟩
      have isBinding := readVariable?_eq_some_iff.mpr
        ⟨blanks, value, shape, isName, areBlank, solid, rfl⟩
      simp only [isVariable, isBinding, String.ofList_toList]
    | statement _ blank whole =>
      have isStatement := afterKeyword?_eq_some_iff.mpr ⟨_, _, blank, whole, rfl⟩
      have noVariable : afterKeyword? "var".toList (trim tag.content) = none := by
        rw [whole]
        rfl
      simp only [noVariable, isStatement]
    | output _ spoken noVariable noStatement =>
      rw [← afterKeyword?_eq_none_iff] at noVariable noStatement
      simp only [← spoken, noVariable, noStatement, String.ofList_toList]
    | _ => simp_all

theorem says_raw_iff (raw : tag.form = .raw) :
    tag.Says node ↔ node = .expression (String.ofList (trim tag.content)) .raw := by
  constructor
  · intro meant
    cases meant with
    | raw _ spoken => rw [← spoken, String.ofList_toList]
    | _ => simp_all
  · rintro rfl
    exact .raw raw String.toList_ofList

theorem says_inclusion_iff (inclusion : tag.form = .inclusion) :
    tag.Says node ↔ readInclusion tag = .ok node := by
  rw [readInclusion_iff]
  constructor
  · intro meant
    cases meant with
    | inclusion _ listed => exact ⟨_, listed, rfl⟩
    | _ => simp_all
  · rintro ⟨file, listed, rfl⟩
    exact .inclusion inclusion listed

end Statements

end Stencil.Markup
