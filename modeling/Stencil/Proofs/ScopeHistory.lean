/-
**Scopes answer from their history.**

What a name stands for can be read off the requests that a scope has got, without the scopes
themselves: it is the last value that was set for the name in the innermost scope that is still open and
has one. A scope keeps lists of bindings instead. That these tell the same is proved along the requests,
for any scope to begin with; what is not set among them is left to that scope, or to one around it.

* `Request`, `Scope.after`, `Scope.answers`: **requests**, and what a scope makes of them;
* `closing`, `opened`: how many scopes requests close that they have not opened, and how many more they
  open than they close;
* `LastSet`: **the value that a history has for a name**; `lastSet?_eq_some_iff`: how it is found;
* `after_isSome`, `after_leads`: when requests can be served, and what they lead to;
* `Alike`, `answers_alike`: scopes that look alike from inside answer alike;
* `history_answers`: **outermost scopes answer from their history**, in whatever way they were made.
-/

import Mathlib.Tactic.SplitIfs
import Stencil.Scope

namespace Stencil.Scope

/-! ### Requests -/

/-- **A request**: bind a name in the innermost scope, open a scope in it, leave it, or ask what a name
stands for. -/
inductive Request
  | set (name : String) (value : Value)
  | push
  | pop
  | get (name : String)

/-- The scope after a request. The outermost scope cannot be left. -/
def serve (scope : Scope) : Request → Option Scope
  | .set name value => some (scope.set name value)
  | .push => some scope.nested
  | .pop => scope.leave
  | .get _ => some scope

/-- **The scope after requests.** -/
def after (scope : Scope) : List Request → Option Scope
  | [] => some scope
  | request :: rest => (scope.serve request).bind (·.after rest)

/-- What a request is answered. -/
def reply (scope : Scope) : Request → List (Option Value)
  | .get name => [scope.get name]
  | _ => []

/-- **All answers to requests**, in order. -/
def answers (scope : Scope) : List Request → Option (List (Option Value))
  | [] => some []
  | request :: rest =>
    (scope.serve request).bind fun next => (next.answers rest).map (scope.reply request ++ ·)

/-- **How many scopes requests close that they have not opened.** -/
def closing : List Request → Nat
  | [] => 0
  | .push :: rest => closing rest - 1
  | .pop :: rest => closing rest + 1
  | .set _ _ :: rest => closing rest
  | .get _ :: rest => closing rest

/-- **How many more scopes requests open than they close.** -/
def opened : List Request → Int
  | [] => 0
  | .push :: rest => opened rest + 1
  | .pop :: rest => opened rest - 1
  | .set _ _ :: rest => opened rest
  | .get _ :: rest => opened rest

variable {name : String} {value other : Value} {request : Request}
  {history rest before earlier : List Request}

theorem opened_cons (request : Request) (rest : List Request) :
    opened (request :: rest) = opened [request] + opened rest := by
  cases request <;> simp only [opened] <;> omega

theorem opened_add_closing (before rest : List Request) :
    0 ≤ opened before + closing (before ++ rest) := by
  induction before with
  | nil => exact Int.add_nonneg (Int.le_refl 0) (Int.natCast_nonneg _)
  | cons request before ih =>
    cases request <;> simp only [opened, closing, List.cons_append] <;> omega

/-! ### The history -/

/-- The value that a request binds a name to. -/
def Request.sets? (name : String) : Request → Option Value
  | .set word value => if word = name then some value else none
  | _ => none

theorem Request.sets?_eq_some : request.sets? name = some value ↔ request = .set name value := by
  cases request <;> simp [Request.sets?]

/-- **A binding in a scope that is still open**, made behind the requests `before`. -/
def Standing (history : List Request) (name : String) (before : List Request) (value : Value) :
    Prop :=
  ∃ later, history = before ++ .set name value :: later ∧ closing later = 0

/-- **The value that a history has for a name**: of the scopes still open that bind it the innermost
counts, and there the last binding. Two bindings with as many scopes open before them, both in scopes
still open, are in the same scope. -/
def LastSet (history : List Request) (name : String) (value : Value) : Prop :=
  ∃ before, Standing history name before value ∧
    ∀ earlier other, Standing history name earlier other →
      opened earlier < opened before ∨
        opened earlier = opened before ∧ earlier.length ≤ before.length

/-- The value that a history has for a name, found from its end. -/
def lastSet? (name : String) : List Request → Option Value
  | [] => none
  | request :: rest =>
    (lastSet? name rest).or (if closing rest = 0 then request.sets? name else none)

/-- Opening a scope binds nothing, nor does leaving one. -/
theorem lastSet?_push : lastSet? name (.push :: rest) = lastSet? name rest := by
  show (lastSet? name rest).or (if closing rest = 0 then none else none) = _
  rw [ite_self, Option.or_none]

theorem lastSet?_pop : lastSet? name (.pop :: rest) = lastSet? name rest := by
  show (lastSet? name rest).or (if closing rest = 0 then none else none) = _
  rw [ite_self, Option.or_none]

theorem standing_nil : ¬ Standing [] name before value := by
  rintro ⟨later, same, -⟩
  exact absurd same (by simp)

theorem standing_cons : Standing (request :: rest) name before value ↔
    before = [] ∧ request = .set name value ∧ closing rest = 0 ∨
      ∃ tail, before = request :: tail ∧ Standing rest name tail value := by
  constructor
  · rintro ⟨later, same, kept⟩
    cases before with
    | nil =>
      obtain ⟨rfl, rfl⟩ := List.cons.inj same
      exact .inl ⟨rfl, rfl, kept⟩
    | cons first tail =>
      obtain ⟨rfl, rfl⟩ := List.cons.inj same
      exact .inr ⟨tail, rfl, later, rfl, kept⟩
  · rintro (⟨rfl, rfl, kept⟩ | ⟨tail, rfl, later, rfl, kept⟩)
    · exact ⟨rest, rfl, kept⟩
    · exact ⟨later, rfl, kept⟩

theorem not_standing (nothing : lastSet? name history = none) :
    ¬ Standing history name before value := by
  induction history generalizing before with
  | nil => exact standing_nil
  | cons request rest ih =>
    rw [lastSet?, Option.or_eq_none_iff] at nothing
    rw [standing_cons]
    rintro (⟨-, binds, kept⟩ | ⟨tail, -, standing⟩)
    · rw [if_pos kept, Request.sets?_eq_some.mpr binds] at nothing
      exact absurd nothing.2 (Option.some_ne_none value)
    · exact ih nothing.1 standing

/-- What stands behind a binding is further inside, or later in the same scope. -/
theorem lastSet_of_lastSet? (found : lastSet? name history = some value) :
    LastSet history name value := by
  induction history with
  | nil => cases found
  | cons request rest ih =>
    rw [lastSet?, Option.or_eq_some_iff] at found
    rcases found with found | ⟨nothing, found⟩
    · obtain ⟨before, standing, last⟩ := ih found
      refine ⟨request :: before, standing_cons.mpr (.inr ⟨before, rfl, standing⟩), ?_⟩
      intro earlier other otherStanding
      rcases standing_cons.mp otherStanding with ⟨rfl, rfl, kept⟩ | ⟨tail, rfl, inRest⟩
      · obtain ⟨later, rfl, -⟩ := standing
        have inside := opened_add_closing before (.set name value :: later)
        rw [kept] at inside
        show 0 < opened before ∨ 0 = opened before ∧ 0 ≤ before.length + 1
        omega
      · have order := last tail other inRest
        rw [opened_cons request tail, opened_cons request before, List.length_cons,
          List.length_cons]
        omega
    · split_ifs at found with kept
      refine ⟨[], standing_cons.mpr (.inl ⟨rfl, Request.sets?_eq_some.mp found, kept⟩), ?_⟩
      intro earlier other otherStanding
      rcases standing_cons.mp otherStanding with ⟨rfl, -, -⟩ | ⟨tail, -, inRest⟩
      · exact .inr ⟨rfl, Nat.le_refl 0⟩
      · exact absurd inRest (not_standing nothing)

theorem LastSet.unique (one : LastSet history name value) (two : LastSet history name other) :
    value = other := by
  obtain ⟨before, ⟨later, same, kept⟩, last⟩ := one
  obtain ⟨earlier, ⟨later', same', kept'⟩, last'⟩ := two
  have order := last earlier other ⟨later', same', kept'⟩
  have order' := last' before value ⟨later, same, kept⟩
  have length : before.length = earlier.length := by omega
  have parts := List.append_inj (same.symm.trans same') length
  exact (Request.set.inj (List.cons.inj parts.2).1).2

/-- **The value that a history has for a name** is found from its end. -/
theorem lastSet?_eq_some_iff : lastSet? name history = some value ↔ LastSet history name value := by
  refine ⟨lastSet_of_lastSet?, fun last => ?_⟩
  cases found : lastSet? name history with
  | none =>
    obtain ⟨before, standing, -⟩ := last
    exact absurd standing (not_standing found)
  | some other => rw [last.unique (lastSet_of_lastSet? found)]

/-! ### What requests lead to -/

/-- The scope that is left after leaving some. -/
def leaveAll (scope : Scope) : Nat → Option Scope
  | 0 => some scope
  | count + 1 => scope.leave.bind (·.leaveAll count)

variable {scope next : Scope}

theorem leave_set (scope : Scope) (name : String) (value : Value) :
    (scope.set name value).leave = scope.leave := by
  cases scope.around <;> rfl

/-- **Requests can be served** if they do not leave more scopes than there are. -/
theorem after_isSome (scope : Scope) (history : List Request) :
    (scope.after history).isSome = true ↔ closing history ≤ scope.around.length := by
  induction history generalizing scope with
  | nil => exact iff_of_true rfl (Nat.zero_le _)
  | cons request rest ih =>
    cases request with
    | set name value => exact ih (scope.set name value)
    | push =>
      refine (ih scope.nested).trans ?_
      show closing rest ≤ scope.around.length + 1 ↔ closing rest - 1 ≤ scope.around.length
      omega
    | pop =>
      obtain ⟨own, around, given⟩ := scope
      cases around with
      | nil => exact iff_of_false Bool.false_ne_true (Nat.not_succ_le_zero _)
      | cons outer around =>
        exact (ih ⟨outer, around, given⟩).trans Nat.succ_le_succ_iff.symm
    | get name => exact ih scope

/-- **What requests lead to.** They leave `base`, a scope around the first one or this one itself, open
scopes in it, and change nothing outside. A name that the history has no value for stands for what it
stood for in `base`. -/
structure Leads (scope : Scope) (history : List Request) (next base : Scope) : Prop where
  left : scope.leaveAll (closing history) = some base
  get : ∀ name, next.get name = (lastSet? name history).or (base.get name)
  around : ∃ inner, next.around = inner ++ base.around ∧
    (inner.length : Int) = opened history + closing history
  given : next.given = scope.given

/-- A request that opens and closes no scope. -/
theorem Leads.stay {scope served next base : Scope} (leads : Leads served rest next base)
    (leave : served.leave = scope.leave) (around : served.around = scope.around)
    (given : served.given = scope.given)
    (get : ∀ name, served.get name = (request.sets? name).or (scope.get name))
    (closes : closing (request :: rest) = closing rest)
    (opens : opened (request :: rest) = opened rest) :
    ∃ base, Leads scope (request :: rest) next base := by
  obtain ⟨left, getNext, ⟨inner, aroundNext, length⟩, givenNext⟩ := leads
  rw [given] at givenNext
  rw [← opens, ← closes] at length
  cases count : closing rest with
  | zero =>
    rw [count] at left
    cases left
    refine ⟨scope, ?_, fun name => ?_, ⟨inner, around ▸ aroundNext, length⟩, givenNext⟩
    · rw [closes, count]
      rfl
    · rw [getNext, lastSet?, if_pos count, Option.or_assoc, get]
  | succ count =>
    refine ⟨base, ?_, fun name => ?_, ⟨inner, aroundNext, length⟩, givenNext⟩
    · rw [count, leaveAll, leave] at left
      rw [closes, count]
      exact left
    · rw [getNext, lastSet?, if_neg (by omega), Option.or_none]

theorem Leads.push {scope next base : Scope} (leads : Leads scope.nested rest next base) :
    ∃ base, Leads scope (.push :: rest) next base := by
  obtain ⟨left, getNext, ⟨inner, aroundNext, length⟩, givenNext⟩ := leads
  cases count : closing rest with
  | zero =>
    rw [count] at left length
    cases left
    refine ⟨scope, ?_, fun name => ?_, ⟨inner ++ [scope.own], ?_, ?_⟩, givenNext⟩
    · rw [closing, count]
      rfl
    · rw [getNext, lastSet?_push]
      rfl
    · rw [aroundNext, List.append_assoc]
      rfl
    · rw [opened, closing, count, List.length_append, List.length_singleton]
      omega
  | succ count =>
    rw [count] at left length
    refine ⟨base, ?_, fun name => ?_, ⟨inner, aroundNext, ?_⟩, givenNext⟩
    · rw [closing, count]
      exact left
    · rw [getNext, lastSet?_push]
    · rw [opened, closing, count]
      omega

theorem Leads.pop {scope outer next base : Scope} (leaves : scope.leave = some outer)
    (leads : Leads outer rest next base) : ∃ base, Leads scope (.pop :: rest) next base := by
  obtain ⟨left, getNext, ⟨inner, aroundNext, length⟩, givenNext⟩ := leads
  have given : outer.given = scope.given := by
    rw [leave] at leaves
    split at leaves <;> cases leaves
    rfl
  refine ⟨base, ?_, fun name => ?_, ⟨inner, aroundNext, ?_⟩, givenNext.trans given⟩
  · rw [closing, leaveAll, leaves]
    exact left
  · rw [getNext, lastSet?_pop]
  · rw [opened, closing]
    omega

theorem after_leads (reached : scope.after history = some next) :
    ∃ base, Leads scope history next base := by
  induction history generalizing scope with
  | nil =>
    cases reached
    exact ⟨_, rfl, fun _ => rfl, ⟨[], rfl, rfl⟩, rfl⟩
  | cons request rest ih =>
    obtain ⟨served, serves, reached⟩ := Option.bind_eq_some_iff.mp reached
    obtain ⟨base, leads⟩ := ih reached
    cases request with
    | set word value =>
      cases serves
      refine leads.stay (leave_set scope word value) rfl rfl (fun name => ?_) rfl rfl
      rw [get_set, Request.sets?]
      split_ifs <;> rfl
    | push =>
      cases serves
      exact leads.push
    | pop => exact leads.pop serves
    | get word =>
      cases serves
      exact leads.stay rfl rfl rfl (fun _ => rfl) rfl rfl

/-! ### Scopes that look alike -/

/-- **Two scopes look alike** if names stand for the same in both, and in the scopes that are left
after leaving as many of each. -/
def Alike (scope other : Scope) : Prop :=
  ∀ count, (scope.leaveAll count).map get = (other.leaveAll count).map get

namespace Alike

variable {scope other : Scope}

theorem get (alike : Alike scope other) : scope.get = other.get :=
  Option.some.inj (alike 0)

theorem set (alike : Alike scope other) (name : String) (value : Value) :
    Alike (scope.set name value) (other.set name value) := by
  intro count
  cases count with
  | zero =>
    refine congrArg some (funext fun word => ?_)
    rw [get_set, get_set, alike.get]
  | succ count =>
    rw [leaveAll, leaveAll, leave_set, leave_set]
    exact alike (count + 1)

theorem nested (alike : Alike scope other) : Alike scope.nested other.nested := by
  intro count
  cases count with
  | zero => exact alike 0
  | succ count => exact alike count

/-- One of them can be left if the other can, and again they look alike. -/
theorem leave (alike : Alike scope other) :
    scope.leave = none ∧ other.leave = none ∨
      ∃ outer outerOther, scope.leave = some outer ∧ other.leave = some outerOther ∧
        Alike outer outerOther := by
  have one := alike 1
  have more := fun count => alike (count + 1)
  simp only [leaveAll] at one more
  cases first : scope.leave <;> cases second : other.leave <;>
    rw [first, second] at one <;> simp only [first, second] at more
  · exact .inl ⟨rfl, rfl⟩
  · cases one
  · cases one
  · exact .inr ⟨_, _, rfl, rfl, more⟩

end Alike

/-- **Scopes that look alike answer alike.** -/
theorem answers_alike {scope other : Scope} (alike : Alike scope other) (requests : List Request) :
    scope.answers requests = other.answers requests := by
  induction requests generalizing scope other with
  | nil => rfl
  | cons request rest ih =>
    rw [answers, answers]
    cases request with
    | set name value => exact congrArg (·.map ([] ++ ·)) (ih (alike.set name value))
    | push => exact congrArg (·.map ([] ++ ·)) (ih alike.nested)
    | pop =>
      rw [serve, serve]
      rcases alike.leave with ⟨one, two⟩ | ⟨outer, outerOther, one, two, outside⟩
      · rw [one, two]
        rfl
      · rw [one, two]
        exact congrArg (·.map ([] ++ ·)) (ih outside)
    | get name =>
      rw [reply, reply, alike.get]
      exact congrArg (·.map ([other.get name] ++ ·)) (ih alike)

/-! ### Requests in a scope of their own -/

theorem after_append (scope : Scope) (before rest : List Request) :
    scope.after (before ++ rest) = (scope.after before).bind (·.after rest) := by
  induction before generalizing scope with
  | nil => rfl
  | cons request before ih =>
    rw [List.cons_append, after, after, Option.bind_assoc]
    exact congrArg (Option.bind _) (funext ih)

/-- **Leaving a scope restores the one that it was opened in**, whatever was requested in between. -/
theorem after_block (scope : Scope) {body : List Request} (inside : closing body = 0)
    (level : opened body = 0) : scope.after (.push :: (body ++ [.pop])) = some scope := by
  obtain ⟨inner, reached⟩ := Option.isSome_iff_exists.mp
    ((after_isSome scope.nested body).mpr (inside ▸ Nat.zero_le _))
  obtain ⟨base, left, -, ⟨more, around, length⟩, given⟩ := after_leads reached
  rw [inside] at left length
  cases left
  obtain rfl : more = [] := List.eq_nil_of_length_eq_zero (by omega)
  have leaves : inner.leave = some scope := by
    rw [leave, around, given]
    rfl
  calc scope.after (.push :: (body ++ [Request.pop]))
      = (scope.nested.after body).bind (·.after [.pop]) := after_append scope.nested body [.pop]
    _ = inner.leave.bind some := by rw [reached]; rfl
    _ = some scope := by rw [leaves]; rfl

/-! ### Outermost scopes -/

/-- **The ways to make an outermost scope** over some bindings: it owns them, or reads them, or there
are none. -/
inductive Opens (known : Assoc Value) : Scope → Prop
  | owned : Opens known (ofBindings known)
  | borrowed : Opens known (reading known)
  | plain : known = [] → Opens known empty

namespace Opens

variable {known : Assoc Value} {scope other : Scope}

theorem around_eq (opens : Opens known scope) : scope.around = [] := by
  cases opens <;> rfl

theorem get_eq (opens : Opens known scope) (name : String) : scope.get name = known.find? name := by
  cases opens with
  | owned => simp [get, ofBindings]
  | borrowed => simp [get, reading]
  | plain none => simp [get, empty, ofBindings, none]

theorem alike (opens : Opens known scope) (opensOther : Opens known other) : Alike scope other := by
  intro count
  cases count with
  | zero =>
    exact congrArg some (funext fun name => (opens.get_eq name).trans (opensOther.get_eq name).symm)
  | succ count => rw [leaveAll, leaveAll, leave, leave, opens.around_eq, opensOther.around_eq]

end Opens

theorem answers_isSome (scope : Scope) (history : List Request) :
    (scope.answers history).isSome = (scope.after history).isSome := by
  induction history generalizing scope with
  | nil => rfl
  | cons request rest ih =>
    rw [answers, after]
    cases scope.serve request with
    | none => rfl
    | some next => rw [Option.bind_some, Option.bind_some, Option.isSome_map, ih]

/-- **Outermost scopes answer from their history.** As long as the outermost scope is not left, a name
stands for the value that the history has for it, and for what the bindings say where it has none. All
scopes over the same bindings give the same answers, leaving a scope restores the one it was opened in,
and the bindings that are read stay what they were. -/
theorem history_answers {known : Assoc Value} {start : Scope} (opens : Opens known start)
    {history : List Request} (inside : closing history = 0) :
    ∃ scope replies, start.after history = some scope ∧
      (∀ name value, scope.get name = some value ↔
        LastSet history name value ∨
          (∀ other, ¬ LastSet history name other) ∧ known.find? name = some value) ∧
      (∀ other, Opens known other → other.answers history = some replies) ∧
      (∀ body, closing body = 0 → opened body = 0 →
        scope.after (.push :: (body ++ [.pop])) = some scope) ∧
      scope.given = start.given := by
  have served := (after_isSome start history).mpr (inside ▸ Nat.zero_le _)
  have replied := (answers_isSome start history).trans served
  obtain ⟨scope, reached⟩ := Option.isSome_iff_exists.mp served
  obtain ⟨replies, answered⟩ := Option.isSome_iff_exists.mp replied
  obtain ⟨base, left, getScope, -, given⟩ := after_leads reached
  rw [inside] at left
  cases left
  refine ⟨scope, replies, reached, fun name value => ?_, fun other opensOther => ?_,
    fun body inside level => after_block scope inside level, given⟩
  · rw [getScope, opens.get_eq, Option.or_eq_some_iff, lastSet?_eq_some_iff,
      Option.eq_none_iff_forall_ne_some]
    simp only [ne_eq, lastSet?_eq_some_iff]
  · rw [← answered]
    exact answers_alike (opensOther.alike opens) history

/-- Requests that bind a name again, bind null over a value, and open a scope after another. -/
def shadowing : List Request :=
  [.set "page" (.int 2), .push, .set "title" .null, .get "title", .pop, .push, .set "page" (.int 3),
    .set "page" (.int 4), .get "title"]

/-- The page is that of the last scope, the title that of the bindings, which have kept theirs. -/
theorem shadowing_answers :
    ∃ scope, (reading [("title", .text "Home"), ("page", .int 1)]).after shadowing = some scope ∧
      scope.get "page" = some (.int 4) ∧ scope.get "title" = some (.text "Home") ∧
      scope.given = [("title", .text "Home"), ("page", .int 1)] := by
  have inside : closing shadowing = 0 := rfl
  have opens : Opens [("title", .text "Home"), ("page", .int 1)] (reading _) := .borrowed
  obtain ⟨scope, replies, reached, answers, -, -, given⟩ := history_answers opens inside
  refine ⟨scope, reached, (answers _ _).mpr (.inl ?_), (answers _ _).mpr (.inr ⟨?_, rfl⟩), given⟩
  · exact lastSet?_eq_some_iff.mp rfl
  · intro other last
    exact Option.some_ne_none other (lastSet?_eq_some_iff.mpr last).symm

end Stencil.Scope
