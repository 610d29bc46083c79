import ObjectIds.Conditions

/-!
# Branches of one conditional

Directives come in any order: several `#else` lines in one conditional, an `#elif` after an
`#else`, lines without a conditional, conditionals that are never closed.  Whatever comes, a
conditional passes through stretches, one for each of its branches, and is satisfied in at
most one of them.

A run is cut into these stretches by looking at its conditionals only from the outside: the
conditional in question is the one at a fixed height, a line acts on it when no other one
stands above it, and it is closed when the run falls below that height.
-/

namespace ObjectIds

/-- A directive and where its line stands. -/
structure DirectiveLine where
  directive : Directive
  span : Span
deriving DecidableEq, Repr

/-- Whether a directive starts another branch of a conditional. -/
def Directive.divides : Directive → Bool
  | .elseIfDefined _ | .elseBranch => true
  | .define _ | .undefine _ | .ifDefined _ | .endIf | .other _ => false

/-- A stretch of a run in which a conditional stays at one branch: the directive that starts
the branch, and the conditional after that directive and after each later one. -/
structure Stretch where
  start : Directive
  states : List (Option Conditional)
deriving DecidableEq, Repr

namespace Stretch

/-- Whether the conditional is satisfied somewhere in a stretch. -/
def isSatisfied (stretch : Stretch) : Bool :=
  stretch.states.any fun state => state.any Conditional.satisfied

/-- A stretch after one more directive that leaves the conditional at its branch. -/
def extend (stretch : Stretch) (state : Option Conditional) : Stretch :=
  { stretch with states := stretch.states ++ [state] }

/-- A stretch in which the conditional of a line is satisfied everywhere or nowhere. -/
structure Steady (opening : Span) (satisfied : Bool) (stretch : Stretch) : Prop where
  not_empty : stretch.states ≠ []
  states : ∀ state ∈ stretch.states, ∃ conditional, state = some conditional ∧
    conditional.opening = opening ∧ conditional.satisfied = satisfied

end Stretch

namespace Conditions

/-- The conditions after a line. -/
def afterLine (conditions : Conditions) (line : DirectiveLine) : Conditions :=
  conditions.apply line.directive line.span

/-- The conditions after lines. -/
def afterLines (conditions : Conditions) (lines : List DirectiveLine) : Conditions :=
  lines.foldl afterLine conditions

/-- The open conditional around which `height` others are open. -/
def conditionalAt? (conditions : Conditions) (height : Nat) : Option Conditional :=
  conditions.conditionals.reverse[height]?

/-- The stretches of the conditional at a height, from the current one to the line that closes
the conditional or to the end of the lines. -/
def stretchesFrom (height : Nat) (current : Stretch) (conditions : Conditions) :
    List DirectiveLine → List Stretch
  | [] => [current]
  | line :: lines =>
      let next := conditions.afterLine line
      let state := next.conditionalAt? height
      if next.depth ≤ height then [current]
      else if line.directive.divides = true ∧ conditions.depth = height + 1 then
        current :: stretchesFrom height ⟨line.directive, [state]⟩ next lines
      else stretchesFrom height (current.extend state) next lines

/-- The stretches of the conditional that a line opens. -/
def stretches (conditions : Conditions) (opening : DirectiveLine)
    (lines : List DirectiveLine) : List Stretch :=
  let opened := conditions.afterLine opening
  stretchesFrom conditions.depth
    ⟨opening.directive, [opened.conditionalAt? conditions.depth]⟩ opened lines

/-- The conditional at a height after each of the lines. -/
def history (height : Nat) (conditions : Conditions) :
    List DirectiveLine → List (Option Conditional)
  | [] => []
  | line :: lines =>
      let next := conditions.afterLine line
      next.conditionalAt? height :: next.history height lines

/-- The open conditionals to which directives can lead from none, whatever symbols are
defined at each of them. -/
inductive Reachable : List Conditional → Prop
  | none : Reachable []
  | step {conditionals : List Conditional} (reachable : Reachable conditionals)
      (symbols : SymbolTable) (line : DirectiveLine) :
      Reachable (afterLine ⟨symbols, conditionals⟩ line).conditionals

end Conditions

/-- Stretches of which at most one is satisfied, and none if an earlier one has been
`chosen`.  A stretch that starts with `#else` is satisfied unless one before it was. -/
inductive Exclusive (opening : Span) : Bool → List Stretch → Prop
  | nil {chosen : Bool} : Exclusive opening chosen []
  | cons {chosen satisfied : Bool} {stretch : Stretch} {later : List Stretch}
      (steady : stretch.Steady opening satisfied) (once : satisfied = true → chosen = false)
      (sure : stretch.start = .elseBranch → chosen = false → satisfied = true)
      (others : Exclusive opening (chosen || satisfied) later) :
      Exclusive opening chosen (stretch :: later)

/-- A conditional at the end of its current stretch.  An earlier stretch of it was satisfied
when it has been `chosen` before. -/
structure Stretch.Tracks (current : Stretch) (chosen : Bool) (conditional : Conditional) :
    Prop where
  steady : current.Steady conditional.opening conditional.satisfied
  chosen_eq : conditional.chosen = (chosen || conditional.satisfied)
  once : conditional.satisfied = true → chosen = false
  sure : current.start = .elseBranch → chosen = false → conditional.satisfied = true

namespace Stretch

variable {opening : Span} {satisfied : Bool} {stretch : Stretch}

theorem Steady.isSatisfied_eq (steady : stretch.Steady opening satisfied) :
    stretch.isSatisfied = satisfied := by
  obtain ⟨first, others, isStates⟩ := List.exists_cons_of_ne_nil steady.not_empty
  obtain ⟨conditional, isFirst, -, isSatisfied⟩ :=
    steady.states first (by rw [isStates]; exact List.mem_cons_self)
  cases satisfied with
  | true =>
      rw [Stretch.isSatisfied, isStates, isFirst]
      simp [isSatisfied]
  | false =>
      rw [Stretch.isSatisfied, List.any_eq_false]
      intro state member
      obtain ⟨other, rfl, -, isOther⟩ := steady.states state member
      simp [isOther]

theorem steady_singleton (start : Directive) (conditional : Conditional) :
    Steady conditional.opening conditional.satisfied ⟨start, [some conditional]⟩ :=
  ⟨List.cons_ne_nil _ _, fun _ member => ⟨conditional, List.mem_singleton.1 member, rfl, rfl⟩⟩

variable {chosen : Bool} {conditional : Conditional}

theorem Tracks.extend (tracks : stretch.Tracks chosen conditional) :
    (stretch.extend (some conditional)).Tracks chosen conditional := by
  refine ⟨⟨by simp [Stretch.extend], fun state member => ?_⟩, tracks.chosen_eq, tracks.once,
    tracks.sure⟩
  rcases List.mem_append.1 member with isEarlier | isLast
  · exact tracks.steady.states state isEarlier
  · exact ⟨conditional, List.mem_singleton.1 isLast, rfl, rfl⟩

/-- The next branch starts a stretch that is satisfied only if none before it was. -/
theorem Tracks.branch (tracks : stretch.Tracks chosen conditional) {holds : Bool}
    {start : Directive} (isElse : start = .elseBranch → holds = true) :
    Tracks ⟨start, [some (conditional.branch holds)]⟩ (chosen || conditional.satisfied)
      (conditional.branch holds) := by
  have branchSatisfied : (conditional.branch holds).satisfied =
      (!(chosen || conditional.satisfied) && holds) := by
    rw [← tracks.chosen_eq]
    rfl
  refine ⟨steady_singleton _ _, ?_, fun isSatisfied => ?_, fun startsElse notChosen => ?_⟩
  · rw [branchSatisfied, ← tracks.chosen_eq, Conditional.branch]
    cases conditional.chosen <;> rfl
  · rw [branchSatisfied, Bool.and_eq_true] at isSatisfied
    simpa using isSatisfied.1
  · rw [branchSatisfied, notChosen, isElse startsElse]
    rfl

theorem tracks_opened (symbol : String) (isDefined : Bool) (opening : Span) :
    Tracks ⟨.ifDefined symbol, [some (.opened isDefined opening)]⟩ false
      (.opened isDefined opening) :=
  ⟨steady_singleton _ _, rfl, fun _ => rfl, fun startsElse => by contradiction⟩

theorem Tracks.exclusive (tracks : stretch.Tracks chosen conditional) {later : List Stretch}
    (others : Exclusive conditional.opening (chosen || conditional.satisfied) later) :
    Exclusive conditional.opening chosen (stretch :: later) :=
  .cons tracks.steady tracks.once tracks.sure others

end Stretch

namespace Exclusive

variable {opening : Span} {chosen : Bool} {stretches : List Stretch}

theorem steady (exclusive : Exclusive opening chosen stretches) :
    ∀ stretch ∈ stretches, ∃ satisfied, stretch.Steady opening satisfied := by
  induction exclusive with
  | nil => simp
  | cons steady once sure others ih =>
      exact List.forall_mem_cons.2 ⟨⟨_, steady⟩, ih⟩

/-- No stretch is satisfied after one that was. -/
theorem not_satisfied (exclusive : Exclusive opening true stretches) :
    ∀ stretch ∈ stretches, stretch.isSatisfied = false := by
  generalize isChosen : true = chosen at exclusive
  induction exclusive with
  | nil => simp
  | @cons chosen satisfied stretch later steady once sure others ih =>
      subst isChosen
      refine List.forall_mem_cons.2 ⟨?_, ih rfl⟩
      rw [steady.isSatisfied_eq]
      cases satisfied with
      | false => rfl
      | true => exact absurd (once rfl) (by simp)

theorem pairwise (exclusive : Exclusive opening chosen stretches) :
    stretches.Pairwise fun earlier later =>
      earlier.isSatisfied = true → later.isSatisfied = false := by
  induction exclusive with
  | nil => exact .nil
  | @cons chosen satisfied stretch later steady once sure others ih =>
      refine List.pairwise_cons.2 ⟨fun other member isSatisfied => ?_, ih⟩
      rw [steady.isSatisfied_eq] at isSatisfied
      rw [isSatisfied, Bool.or_true] at others
      exact others.not_satisfied other member

theorem countP_eq_zero (exclusive : Exclusive opening true stretches) :
    stretches.countP Stretch.isSatisfied = 0 := by
  refine List.countP_eq_zero.2 fun stretch member => ?_
  simp [exclusive.not_satisfied stretch member]

theorem countP_le_one (exclusive : Exclusive opening chosen stretches) :
    stretches.countP Stretch.isSatisfied ≤ 1 := by
  induction exclusive with
  | nil => simp
  | @cons chosen satisfied stretch later steady once sure others ih =>
      rw [List.countP_cons, steady.isSatisfied_eq]
      cases satisfied with
      | false => simpa using ih
      | true =>
          rw [Bool.or_true] at others
          simp [others.countP_eq_zero]

/-- Up to a stretch that starts with `#else`, one is satisfied. -/
theorem countP_eq_one {earlier later : List Stretch} {stretch : Stretch}
    (exclusive : Exclusive opening false (earlier ++ stretch :: later))
    (isElse : stretch.start = .elseBranch) :
    (earlier ++ [stretch]).countP Stretch.isSatisfied = 1 := by
  generalize isChosen : false = chosen at exclusive
  generalize isList : earlier ++ stretch :: later = stretches at exclusive
  induction exclusive generalizing earlier with
  | nil => simp at isList
  | @cons chosen satisfied first rest steady once sure others ih =>
      subst isChosen
      cases earlier with
      | nil =>
          obtain ⟨rfl, rfl⟩ := List.cons.inj isList
          rw [List.nil_append, List.countP_singleton, steady.isSatisfied_eq, sure isElse rfl]
          rfl
      | cons other earlier =>
          obtain ⟨rfl, rfl⟩ := List.cons.inj isList
          rw [List.cons_append, List.countP_cons, steady.isSatisfied_eq]
          cases satisfied with
          | false => simpa using ih rfl rfl
          | true =>
              rw [Bool.or_true] at others
              have noneThere : (earlier ++ [stretch]).countP Stretch.isSatisfied = 0 := by
                refine List.countP_eq_zero.2 fun other member => ?_
                have isThere : other ∈ earlier ++ stretch :: later := by
                  rw [List.append_cons]
                  exact List.mem_append_left _ member
                simp [others.not_satisfied other isThere]
              rw [noneThere]
              rfl

end Exclusive

namespace Conditions

variable {height : Nat} {conditions : Conditions} {conditional : Conditional}

theorem depth_of_conditionalAt? (isThere : conditions.conditionalAt? height = some conditional) :
    height < conditions.depth := by
  obtain ⟨isInside, -⟩ := List.getElem?_eq_some_iff.1 isThere
  simpa [depth] using isInside

theorem isSome_conditionalAt?_iff (conditions : Conditions) (height : Nat) :
    (conditions.conditionalAt? height).isSome = true ↔ height < conditions.depth := by
  simp [conditionalAt?, depth]

theorem conditionalAt?_innermost (symbols : SymbolTable) (conditional : Conditional)
    (outer : List Conditional) :
    conditionalAt? ⟨symbols, conditional :: outer⟩ outer.length = some conditional := by
  simp [conditionalAt?]

/-- Conditionals further inside do not matter to one at a height. -/
theorem conditionalAt?_cons {outer : List Conditional} (isInside : height < outer.length)
    (symbols other : SymbolTable) (innermost : Conditional) :
    conditionalAt? ⟨symbols, innermost :: outer⟩ height =
      conditionalAt? ⟨other, outer⟩ height := by
  simp only [conditionalAt?, List.reverse_cons]
  exact List.getElem?_append_left (by simpa using isInside)

/-- A line that divides the innermost conditional moves it to its next branch. -/
theorem conditionalAt?_afterLine_of_divides {line : DirectiveLine}
    (isThere : conditions.conditionalAt? height = some conditional)
    (divides : line.directive.divides = true) (isInnermost : conditions.depth = height + 1) :
    ∃ holds : Bool, (line.directive = .elseBranch → holds = true) ∧
      (conditions.afterLine line).conditionalAt? height = some (conditional.branch holds) := by
  obtain ⟨symbols, conditionals⟩ := conditions
  obtain ⟨directive, span⟩ := line
  cases conditionals with
  | nil => simp [depth] at isInnermost
  | cons innermost outer =>
      obtain rfl : outer.length = height := by simpa [depth] using isInnermost
      obtain rfl : innermost = conditional := by
        simpa [conditionalAt?_innermost] using isThere
      cases directive with
      | elseIfDefined symbol =>
          exact ⟨symbols.isDefined symbol, by simp, conditionalAt?_innermost _ _ _⟩
      | elseBranch => exact ⟨true, fun _ => rfl, conditionalAt?_innermost _ _ _⟩
      | define _ | undefine _ | ifDefined _ | endIf | other _ => simp [Directive.divides] at divides

/-- Any other line leaves a conditional as it is, unless it closes it. -/
theorem conditionalAt?_afterLine {line : DirectiveLine}
    (isThere : conditions.conditionalAt? height = some conditional)
    (isOpen : height < (conditions.afterLine line).depth)
    (notDivided : ¬(line.directive.divides = true ∧ conditions.depth = height + 1)) :
    (conditions.afterLine line).conditionalAt? height = some conditional := by
  have isInside := depth_of_conditionalAt? isThere
  obtain ⟨symbols, conditionals⟩ := conditions
  obtain ⟨directive, span⟩ := line
  cases directive with
  | define _ | undefine _ | other _ => exact isThere
  | ifDefined symbol => exact (conditionalAt?_cons isInside _ symbols _).trans isThere
  | endIf =>
      cases conditionals with
      | nil => exact isThere
      | cons innermost outer =>
          exact (conditionalAt?_cons isOpen symbols symbols innermost).symm.trans isThere
  | elseIfDefined _ | elseBranch =>
      cases conditionals with
      | nil => exact isThere
      | cons innermost outer =>
          -- The line divides a conditional that stands further inside.
          have isFurther : height < outer.length := by
            simp only [Directive.divides, depth, List.length_cons, true_and] at notDivided isInside
            omega
          rw [conditionalAt?_cons isFurther symbols symbols innermost] at isThere
          exact (conditionalAt?_cons isFurther _ symbols _).trans isThere

/-- Stretches leave out no state of a conditional from its current stretch until it is closed. -/
theorem states_stretchesFrom (height : Nat) (current : Stretch) (conditions : Conditions)
    (lines : List DirectiveLine) :
    (stretchesFrom height current conditions lines).flatMap Stretch.states =
      current.states ++ (conditions.history height lines).takeWhile Option.isSome := by
  induction lines generalizing current conditions with
  | nil => simp [stretchesFrom, history]
  | cons line lines ih =>
      rw [stretchesFrom, history]
      by_cases isClosed : (conditions.afterLine line).depth ≤ height
      · have isGone := mt (isSome_conditionalAt?_iff _ height).1 (Nat.not_lt.2 isClosed)
        rw [if_pos isClosed, List.takeWhile_cons_of_neg isGone]
        simp
      have isOpen := (isSome_conditionalAt?_iff _ height).2 (Nat.lt_of_not_le isClosed)
      rw [if_neg isClosed, List.takeWhile_cons_of_pos isOpen]
      split
      · simp [ih]
      · simp [ih, Stretch.extend]

theorem exclusive_stretchesFrom {chosen : Bool} {current : Stretch}
    (isThere : conditions.conditionalAt? height = some conditional)
    (tracks : current.Tracks chosen conditional) (lines : List DirectiveLine) :
    Exclusive conditional.opening chosen (stretchesFrom height current conditions lines) := by
  induction lines generalizing conditions conditional chosen current with
  | nil => exact tracks.exclusive .nil
  | cons line lines ih =>
      rw [stretchesFrom]
      by_cases isClosed : (conditions.afterLine line).depth ≤ height
      · rw [if_pos isClosed]
        exact tracks.exclusive .nil
      rw [if_neg isClosed]
      by_cases isDivided : line.directive.divides = true ∧ conditions.depth = height + 1
      · obtain ⟨holds, isElse, isNext⟩ :=
          conditionalAt?_afterLine_of_divides isThere isDivided.1 isDivided.2
        rw [if_pos isDivided, isNext]
        have later := ih isNext (tracks.branch isElse)
        -- The conditional keeps its opening line at its next branch.
        exact tracks.exclusive later
      · have isNext := conditionalAt?_afterLine isThere (Nat.lt_of_not_le isClosed) isDivided
        rw [if_neg isDivided, isNext]
        exact ih isNext tracks.extend

/-- The stretches of a conditional exclude each other, whatever comes after its line. -/
theorem exclusive_stretches (conditions : Conditions) (symbol : String) (opening : Span)
    (lines : List DirectiveLine) :
    Exclusive opening false (conditions.stretches ⟨.ifDefined symbol, opening⟩ lines) := by
  have isThere : (conditions.afterLine ⟨.ifDefined symbol, opening⟩).conditionalAt?
      conditions.depth =
        some (Conditional.opened (conditions.symbols.isDefined symbol) opening) :=
    conditionalAt?_innermost _ _ _
  rw [stretches, isThere]
  exact exclusive_stretchesFrom isThere (Stretch.tracks_opened _ _ _) lines

theorem states_stretches (conditions : Conditions) (symbol : String) (opening : Span)
    (lines : List DirectiveLine) :
    (conditions.stretches ⟨.ifDefined symbol, opening⟩ lines).flatMap Stretch.states =
      (conditions.history conditions.depth (⟨.ifDefined symbol, opening⟩ :: lines)).takeWhile
        Option.isSome := by
  have deeper : conditions.depth < (conditions.afterLine ⟨.ifDefined symbol, opening⟩).depth :=
    Nat.lt_succ_self _
  have isOpen := (isSome_conditionalAt?_iff _ _).2 deeper
  rw [stretches, states_stretchesFrom, history, List.takeWhile_cons_of_pos isOpen]
  rfl

/-- A line keeps that satisfied conditionals have been chosen. -/
theorem chosen_afterLine (symbols : SymbolTable) {conditionals : List Conditional}
    (areChosen : ∀ conditional ∈ conditionals,
      conditional.satisfied = true → conditional.chosen = true) (line : DirectiveLine) :
    ∀ conditional ∈ (afterLine ⟨symbols, conditionals⟩ line).conditionals,
      conditional.satisfied = true → conditional.chosen = true := by
  obtain ⟨directive, span⟩ := line
  have branched : ∀ holds, ∀ conditional ∈ branch holds conditionals,
      conditional.satisfied = true → conditional.chosen = true := by
    intro holds
    cases conditionals with
    | nil => exact areChosen
    | cons innermost outer =>
        refine List.forall_mem_cons.2 ⟨fun isSatisfied => ?_, (List.forall_mem_cons.1 areChosen).2⟩
        simp only [Conditional.branch, Bool.and_eq_true] at isSatisfied
        simp [Conditional.branch, isSatisfied.2]
  cases directive with
  | define _ | undefine _ | other _ => exact areChosen
  | ifDefined symbol => exact List.forall_mem_cons.2 ⟨id, areChosen⟩
  | elseIfDefined symbol => exact branched _
  | elseBranch => exact branched true
  | endIf => exact fun conditional member => areChosen conditional (List.mem_of_mem_tail member)

theorem Reachable.chosen {conditionals : List Conditional} (reachable : Reachable conditionals) :
    ∀ conditional ∈ conditionals,
      conditional.satisfied = true → conditional.chosen = true := by
  induction reachable with
  | none => simp
  | step reachable symbols line ih => exact chosen_afterLine symbols ih line

theorem Reachable.afterLines (reachable : Reachable conditions.conditionals)
    (lines : List DirectiveLine) : Reachable (conditions.afterLines lines).conditionals := by
  induction lines generalizing conditions with
  | nil => exact reachable
  | cons line lines ih => exact ih (reachable.step conditions.symbols line)

end Conditions

/-- A conditional is satisfied in at most one of its stretches, in none after one in which it
was satisfied, and in exactly one of those up to an `#else`.  The directives around its
line are arbitrary, and so are the conditionals that are open before them.  Open conditionals
that are satisfied have been chosen. -/
theorem branches_exclusive (start : Conditions) (before : List DirectiveLine)
    (symbol : String) (opening : Span) (after : List DirectiveLine) :
    let reached := start.afterLines before
    let line : DirectiveLine := ⟨.ifDefined symbol, opening⟩
    let stretches := reached.stretches line after
    stretches.flatMap Stretch.states =
        (reached.history reached.depth (line :: after)).takeWhile Option.isSome ∧
      (∀ stretch ∈ stretches, ∃ satisfied, stretch.Steady opening satisfied) ∧
      stretches.countP Stretch.isSatisfied ≤ 1 ∧
      (stretches.Pairwise fun earlier later =>
        earlier.isSatisfied = true → later.isSatisfied = false) ∧
      (∀ earlier stretch later, stretches = earlier ++ stretch :: later →
        stretch.start = .elseBranch →
          (earlier ++ [stretch]).countP Stretch.isSatisfied = 1) ∧
      (Conditions.Reachable start.conditionals → ∀ conditional ∈ reached.conditionals,
        conditional.satisfied = true → conditional.chosen = true) := by
  intro reached line stretches
  have exclusive : Exclusive opening false stretches :=
    reached.exclusive_stretches symbol opening after
  refine ⟨reached.states_stretches symbol opening after, exclusive.steady,
    exclusive.countP_le_one, exclusive.pairwise, ?_, ?_⟩
  · intro earlier stretch later isSplit isElse
    exact Exclusive.countP_eq_one (isSplit ▸ exclusive) isElse
  · intro reachable
    exact (reachable.afterLines before).chosen

/-- An `#elif` is chosen because its symbol has been defined meanwhile.  Of the branches after
it two start with `#else` and the one between them with an `#elif` whose symbol is defined. -/
theorem branches_exclusive_after_else :
    let before : List DirectiveLine :=
      [⟨.elseBranch, ⟨0, 5⟩⟩, ⟨.define "A", ⟨6, 15⟩⟩, ⟨.ifDefined "A", ⟨16, 21⟩⟩]
    let after : List DirectiveLine :=
      [⟨.ifDefined "C", ⟨28, 33⟩⟩, ⟨.elseBranch, ⟨34, 39⟩⟩, ⟨.endIf, ⟨40, 46⟩⟩,
        ⟨.define "B", ⟨47, 56⟩⟩, ⟨.elseIfDefined "B", ⟨57, 64⟩⟩, ⟨.elseBranch, ⟨65, 70⟩⟩,
        ⟨.elseIfDefined "A", ⟨71, 78⟩⟩, ⟨.elseBranch, ⟨79, 84⟩⟩, ⟨.endIf, ⟨85, 91⟩⟩,
        ⟨.elseBranch, ⟨92, 97⟩⟩]
    let reached := (Conditions.initial .empty).afterLines before
    let stretches := reached.stretches ⟨.ifDefined "B", ⟨22, 27⟩⟩ after
    stretches.map Stretch.start =
        [.ifDefined "B", .elseIfDefined "B", .elseBranch, .elseIfDefined "A", .elseBranch] ∧
      stretches.map Stretch.isSatisfied = [false, true, false, false, false] ∧
      (stretches.take 3).countP Stretch.isSatisfied = 1 ∧
      ∀ conditional ∈ reached.conditionals,
        conditional.satisfied = true → conditional.chosen = true := by
  intro before after reached stretches
  obtain ⟨-, -, -, -, untilElse, areChosen⟩ :=
    branches_exclusive (.initial .empty) before "B" ⟨22, 27⟩ after
  refine ⟨by decide +kernel, by decide +kernel, ?_, areChosen .none⟩
  let firstElse := stretches.get ⟨2, by decide +kernel⟩
  have isSplit : stretches = stretches.take 2 ++ firstElse :: stretches.drop 3 := by
    decide +kernel
  have isElse : firstElse.start = .elseBranch := by decide +kernel
  have isTake : stretches.take 2 ++ [firstElse] = stretches.take 3 := by decide +kernel
  rw [← isTake]
  exact untilElse _ _ _ isSplit isElse

end ObjectIds
