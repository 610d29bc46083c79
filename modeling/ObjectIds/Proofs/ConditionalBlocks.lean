import Mathlib.Data.List.Forall2
import ObjectIds.Proofs.PreprocessedRuns

/-!
# Conditionals as blocks

In a text whose conditionals are well nested every piece stands in branches, one for
each conditional around it.  Such a branch is taken when its own symbol was defined
where its line stands and no symbol of an earlier branch of the same conditional was
defined where the line of that branch stands; an `#else` branch needs only the latter.

Preprocessing instead keeps two flags for each open conditional.  This file proves that
what it shows are the tokens all of whose branches are taken.
-/

namespace ObjectIds

/-- The symbols that are defined after a piece, whether or not it can be seen. -/
def SymbolSet.after (defined : SymbolSet) (piece : Piece) : SymbolSet :=
  match piece.directive? with
  | some (.define symbol) => if symbol = "" then defined else defined.insert symbol
  | some (.undefine symbol) => defined.erase symbol
  | _ => defined

/-- The symbols that are defined after pieces. -/
def SymbolSet.afterAll (defined : SymbolSet) (pieces : List Piece) : SymbolSet :=
  pieces.foldl SymbolSet.after defined

/-- Whether a piece opens, divides or closes a conditional. -/
def Piece.isConditionalLine (piece : Piece) : Bool :=
  match piece.directive? with
  | some (.ifDefined _) | some (.elseIfDefined _) | some .elseBranch | some .endIf => true
  | _ => false

/-- Whether something is wrong because a conditional is not opened or not closed. -/
def Issue.Cause.isUnbalanced : Issue.Cause → Bool
  | .unmatchedEndIf | .unmatchedElseIf | .unmatchedElse | .unclosedConditional => true
  | .unterminatedString | .unterminatedQuotedIdentifier | .unterminatedComment => false

mutual

/-- Pieces whose conditionals are well nested. -/
inductive Nested where
  | nil
  | plain (piece : Piece) (isPlain : piece.isConditionalLine = false) (rest : Nested)
  | conditional (line : Piece) (symbol : String)
      (opens : line.directive? = some (.ifDefined symbol))
      (body : Nested) (others : Branches) (rest : Nested)

/-- The branches of a conditional after the first one, and the line that closes it.  An
`#else` branch is the last. -/
inductive Branches where
  | close (line : Piece) (closes : line.directive? = some .endIf)
  | elseIf (line : Piece) (symbol : String)
      (divides : line.directive? = some (.elseIfDefined symbol))
      (body : Nested) (others : Branches)
  | otherwise (line : Piece) (divides : line.directive? = some .elseBranch)
      (body : Nested) (last : Piece) (closes : last.directive? = some .endIf)

end

mutual

def Nested.pieces : Nested → List Piece
  | .nil => []
  | .plain piece _ rest => piece :: rest.pieces
  | .conditional line _ _ body others rest =>
      line :: (body.pieces ++ (others.pieces ++ rest.pieces))

def Branches.pieces : Branches → List Piece
  | .close line _ => [line]
  | .elseIf line _ _ body others => line :: (body.pieces ++ others.pieces)
  | .otherwise line _ body last _ => line :: (body.pieces ++ [last])

end

/-- A line that starts a branch: the pieces before it and the symbol that it asks for,
unless it is an `#else` line. -/
structure BranchLine where
  before : List Piece
  symbol : Option String

/-- A branch of a conditional: its line and the lines of the branches before it. -/
structure Branch where
  earlier : List BranchLine
  line : BranchLine

/-- Whether the symbol of a line was defined when the line was reached. -/
def BranchLine.holds (defined : SymbolSet) (line : BranchLine) : Bool :=
  match line.symbol with
  | some symbol => decide (symbol ∈ defined.afterAll line.before)
  | none => true

/-- Whether a branch is the first of its conditional whose line holds. -/
def Branch.isTaken (defined : SymbolSet) (branch : Branch) : Bool :=
  branch.line.holds defined && !branch.earlier.any (BranchLine.holds defined)

/-- The branch after a branch of the same conditional. -/
def Branch.next (previous : Branch) (line : BranchLine) : Branch :=
  ⟨previous.earlier ++ [previous.line], line⟩

/-- A piece and the branches around it, innermost first. -/
structure PlacedPiece where
  piece : Piece
  within : List Branch

/-- Whether every branch around a piece is taken. -/
def PlacedPiece.isTaken (defined : SymbolSet) (placed : PlacedPiece) : Bool :=
  placed.within.all (Branch.isTaken defined)

mutual

/-- The pieces that are no lines of conditionals, in their branches.  The pieces
`before` come first, and all of this stands within further branches. -/
def Nested.placed (before : List Piece) (within : List Branch) :
    Nested → List PlacedPiece
  | .nil => []
  | .plain piece _ rest => ⟨piece, within⟩ :: rest.placed (before ++ [piece]) within
  | .conditional line symbol _ body others rest =>
      let first : Branch := ⟨[], ⟨before, some symbol⟩⟩
      body.placed (before ++ [line]) (first :: within) ++
        (others.placed (before ++ [line] ++ body.pieces) first within ++
          rest.placed (before ++ [line] ++ body.pieces ++ others.pieces) within)

/-- The pieces in the branches of a conditional after a branch. -/
def Branches.placed (before : List Piece) (previous : Branch) (within : List Branch) :
    Branches → List PlacedPiece
  | .close _ _ => []
  | .elseIf line symbol _ body others =>
      let next := previous.next ⟨before, some symbol⟩
      body.placed (before ++ [line]) (next :: within) ++
        others.placed (before ++ [line] ++ body.pieces) next within
  | .otherwise line _ body _ _ =>
      body.placed (before ++ [line]) (previous.next ⟨before, none⟩ :: within)

end

namespace SymbolSet

@[simp]
theorem afterAll_nil (defined : SymbolSet) : defined.afterAll [] = defined := rfl

@[simp]
theorem afterAll_append (defined : SymbolSet) (first second : List Piece) :
    defined.afterAll (first ++ second) = (defined.afterAll first).afterAll second :=
  List.foldl_append

@[simp]
theorem afterAll_cons (defined : SymbolSet) (piece : Piece) (pieces : List Piece) :
    defined.afterAll (piece :: pieces) = (defined.after piece).afterAll pieces := rfl

end SymbolSet

namespace Conditions

@[simp]
theorem check_defined (symbols : SymbolTable) (symbol : String) :
    (check symbols symbol).defined = symbols.defined := by
  unfold check
  split <;> rfl

/-- The defined symbols change in the same way in every branch. -/
theorem after_defined (conditions : Conditions) (piece : Piece) :
    (conditions.after piece).symbols.defined =
      conditions.symbols.defined.after piece := by
  unfold after SymbolSet.after
  cases piece.directive? with
  | none => rfl
  | some directive =>
      cases directive with
      | define symbol =>
          by_cases isEmpty : symbol = ""
          · simp [apply, define, isEmpty]
          · simp [apply, define, isEmpty, SymbolTable.define]
      | undefine symbol => rfl
      | ifDefined symbol => simp [apply]
      | elseIfDefined symbol => simp [apply]
      | elseBranch => rfl
      | endIf => rfl
      | other name => rfl

theorem afterAll_defined (conditions : Conditions) (pieces : List Piece) :
    (conditions.afterAll pieces).symbols.defined =
      conditions.symbols.defined.afterAll pieces := by
  induction pieces generalizing conditions with
  | nil => rfl
  | cons piece pieces ih => simp [ih, after_defined]

theorem after_of_not_line (conditions : Conditions) {piece : Piece}
    (isPlain : piece.isConditionalLine = false) :
    (conditions.after piece).conditionals = conditions.conditionals := by
  unfold after
  unfold Piece.isConditionalLine at isPlain
  cases isDirective : piece.directive? with
  | none => rfl
  | some directive =>
      rw [isDirective] at isPlain
      cases directive with
      | define symbol => rfl
      | undefine symbol => rfl
      | other name => rfl
      | ifDefined symbol => contradiction
      | elseIfDefined symbol => contradiction
      | elseBranch => contradiction
      | endIf => contradiction

theorem after_if (conditions : Conditions) {line : Piece} {symbol : String}
    (opens : line.directive? = some (.ifDefined symbol)) :
    (conditions.after line).conditionals =
      Conditional.opened (conditions.symbols.isDefined symbol) line.span ::
        conditions.conditionals := by
  simp [after, opens, apply]

theorem after_elseIf (conditions : Conditions) {line : Piece} {symbol : String}
    (divides : line.directive? = some (.elseIfDefined symbol)) :
    (conditions.after line).conditionals =
      branch (conditions.symbols.isDefined symbol) conditions.conditionals := by
  simp [after, divides, apply]

theorem after_else (conditions : Conditions) {line : Piece}
    (divides : line.directive? = some .elseBranch) :
    (conditions.after line).conditionals = branch true conditions.conditionals := by
  simp [after, divides, apply]

theorem after_endIf (conditions : Conditions) {line : Piece}
    (closes : line.directive? = some .endIf) :
    (conditions.after line).conditionals = conditions.conditionals.tail := by
  simp [after, closes, apply]

theorem visible?_of_directive (conditions : Conditions) {line : Piece}
    {directive : Directive} (isDirective : line.directive? = some directive) :
    conditions.visible? line = none := by
  obtain ⟨shape, text, start⟩ := line
  cases shape with
  | directive => simp [visible?, Piece.token?]
  | spacing => contradiction
  | lineComment => contradiction
  | blockComment closed => contradiction
  | token kind closed => contradiction

/-- The flags of an open conditional say whether its current branch is taken, and whether
the line of a branch up to the current one holds. -/
structure Reflects (defined : SymbolSet) (conditional : Conditional) (branch : Branch) :
    Prop where
  satisfied : conditional.satisfied = branch.isTaken defined
  chosen : conditional.chosen =
    (branch.earlier.any (BranchLine.holds defined) || branch.line.holds defined)

/-- The conditions after the pieces `before`, within branches. -/
structure Agrees (defined : SymbolSet) (conditions : Conditions) (before : List Piece)
    (within : List Branch) : Prop where
  symbols : conditions.symbols.defined = defined.afterAll before
  conditionals : List.Forall₂ (Reflects defined) conditions.conditionals within

variable {defined : SymbolSet} {conditions : Conditions} {before : List Piece}
  {within : List Branch}

theorem all_satisfied_eq {conditionals : List Conditional}
    (reflects : List.Forall₂ (Reflects defined) conditionals within) :
    conditionals.all Conditional.satisfied = within.all (Branch.isTaken defined) := by
  induction reflects with
  | nil => rfl
  | cons reflects later ih => simp [reflects.satisfied, ih]

theorem Agrees.isVisible (agrees : Agrees defined conditions before within) :
    conditions.isVisible = within.all (Branch.isTaken defined) :=
  all_satisfied_eq agrees.conditionals

theorem Agrees.isEmpty_eq_false {previous : Branch}
    (agrees : Agrees defined conditions before (previous :: within)) :
    conditions.conditionals.isEmpty = false := by
  have lengths := agrees.conditionals.length_eq
  cases isOpen : conditions.conditionals with
  | nil => simp [isOpen] at lengths
  | cons innermost outer => rfl

theorem Agrees.symbols_after (agrees : Agrees defined conditions before within)
    (piece : Piece) :
    (conditions.after piece).symbols.defined = defined.afterAll (before ++ [piece]) := by
  simp [after_defined, agrees.symbols]

theorem Agrees.isDefined_eq (agrees : Agrees defined conditions before within)
    (symbol : String) :
    conditions.symbols.isDefined symbol =
      BranchLine.holds defined ⟨before, some symbol⟩ := by
  simp [SymbolTable.isDefined, BranchLine.holds, agrees.symbols]

theorem Agrees.plain (agrees : Agrees defined conditions before within) {piece : Piece}
    (isPlain : piece.isConditionalLine = false) :
    Agrees defined (conditions.after piece) (before ++ [piece]) within :=
  ⟨agrees.symbols_after piece, conditions.after_of_not_line isPlain ▸ agrees.conditionals⟩

theorem Agrees.opened (agrees : Agrees defined conditions before within) {line : Piece}
    {symbol : String} (opens : line.directive? = some (.ifDefined symbol)) :
    Agrees defined (conditions.after line) (before ++ [line])
      (⟨[], ⟨before, some symbol⟩⟩ :: within) := by
  refine ⟨agrees.symbols_after line, ?_⟩
  rw [conditions.after_if opens, agrees.isDefined_eq symbol]
  exact .cons ⟨by simp [Conditional.opened, Branch.isTaken],
    by simp [Conditional.opened]⟩ agrees.conditionals

/-- A further branch is chosen when its line holds and no earlier one was chosen. -/
theorem Reflects.next {conditional : Conditional} {previous : Branch}
    (reflects : Reflects defined conditional previous) (line : BranchLine) :
    Reflects defined (conditional.branch (line.holds defined)) (previous.next line) := by
  constructor
  · simp [Conditional.branch, Branch.isTaken, Branch.next, reflects.chosen, Bool.and_comm]
  · simp [Conditional.branch, Branch.next, reflects.chosen]

theorem Agrees.divided {previous : Branch}
    (agrees : Agrees defined conditions before (previous :: within)) {line : Piece}
    {symbol : Option String}
    (divides : (conditions.after line).conditionals =
      branch (BranchLine.holds defined ⟨before, symbol⟩) conditions.conditionals) :
    Agrees defined (conditions.after line) (before ++ [line])
      (previous.next ⟨before, symbol⟩ :: within) := by
  refine ⟨agrees.symbols_after line, ?_⟩
  rw [divides]
  cases isOpen : conditions.conditionals with
  | nil => simpa [isOpen] using agrees.conditionals
  | cons innermost outer =>
      obtain ⟨reflects, later⟩ := List.forall₂_cons.1 (isOpen ▸ agrees.conditionals)
      exact .cons (reflects.next _) later

theorem Agrees.divided_elseIf {previous : Branch}
    (agrees : Agrees defined conditions before (previous :: within)) {line : Piece}
    {symbol : String} (divides : line.directive? = some (.elseIfDefined symbol)) :
    Agrees defined (conditions.after line) (before ++ [line])
      (previous.next ⟨before, some symbol⟩ :: within) := by
  apply agrees.divided
  rw [conditions.after_elseIf divides, agrees.isDefined_eq symbol]

theorem Agrees.divided_else {previous : Branch}
    (agrees : Agrees defined conditions before (previous :: within)) {line : Piece}
    (divides : line.directive? = some .elseBranch) :
    Agrees defined (conditions.after line) (before ++ [line])
      (previous.next ⟨before, none⟩ :: within) :=
  agrees.divided (conditions.after_else divides)

theorem Agrees.closed {previous : Branch}
    (agrees : Agrees defined conditions before (previous :: within)) {line : Piece}
    (closes : line.directive? = some .endIf) :
    Agrees defined (conditions.after line) (before ++ [line]) within := by
  refine ⟨agrees.symbols_after line, ?_⟩
  rw [conditions.after_endIf closes]
  cases isOpen : conditions.conditionals with
  | nil => simpa [isOpen] using agrees.conditionals
  | cons innermost outer =>
      exact (List.forall₂_cons.1 (isOpen ▸ agrees.conditionals)).2

theorem issue?_of_if (conditions : Conditions) {line : Piece} {symbol : String}
    (opens : line.directive? = some (.ifDefined symbol)) :
    conditions.issue? line = none := by
  simp [issue?, opens, fault?, Issue.Cause.ofUnmatched?]

theorem issue?_of_open {line : Piece} {directive : Directive}
    (isDirective : line.directive? = some directive)
    (isOpen : conditions.conditionals.isEmpty = false) :
    conditions.issue? line = none := by
  simp [issue?, isDirective, fault?, isOpen]

theorem isUnbalanced_of_fault? {piece : Piece} {cause : Issue.Cause}
    (isFault : piece.fault? = some cause) : cause.isUnbalanced = false := by
  have unterminated {kind : Token.Kind}
      (isCause : Issue.Cause.ofUnterminated? kind = some cause) :
      cause.isUnbalanced = false := by
    cases kind <;> cases isCause <;> rfl
  unfold Piece.fault? at isFault
  split at isFault
  · rw [← Option.some.inj isFault]
    rfl
  · exact unterminated isFault
  · contradiction

theorem fault?_of_not_line {piece : Piece} {directive : Directive}
    (isPlain : piece.isConditionalLine = false)
    (isDirective : piece.directive? = some directive) : conditions.fault? directive = none := by
  unfold Piece.isConditionalLine at isPlain
  rw [isDirective] at isPlain
  cases directive with
  | define symbol => simp [fault?, Issue.Cause.ofUnmatched?]
  | undefine symbol => simp [fault?, Issue.Cause.ofUnmatched?]
  | other name => simp [fault?, Issue.Cause.ofUnmatched?]
  | ifDefined symbol => contradiction
  | elseIfDefined symbol => contradiction
  | elseBranch => contradiction
  | endIf => contradiction

theorem isUnbalanced_of_issue? {piece : Piece} {issue : Issue}
    (isPlain : piece.isConditionalLine = false)
    (noted : conditions.issue? piece = some issue) : issue.cause.isUnbalanced = false := by
  unfold issue? at noted
  cases isDirective : piece.directive? with
  | some directive => simp [isDirective, fault?_of_not_line isPlain isDirective] at noted
  | none =>
      simp only [isDirective] at noted
      obtain ⟨cause, isFault, rfl⟩ := Option.map_eq_some_iff.1 noted
      exact isUnbalanced_of_fault? isFault

end Conditions

mutual

/-- Well nested pieces leave the branches around them as they are. -/
theorem Nested.agrees_afterAll {defined : SymbolSet} {conditions : Conditions}
    {before : List Piece} {within : List Branch} :
    (nested : Nested) → conditions.Agrees defined before within →
      (conditions.afterAll nested.pieces).Agrees defined (before ++ nested.pieces) within
  | .nil, agrees => by simpa [Nested.pieces] using agrees
  | .plain piece isPlain rest, agrees => by
      simpa [Nested.pieces] using rest.agrees_afterAll (agrees.plain isPlain)
  | .conditional line symbol opens body others rest, agrees => by
      have bodyAgrees := body.agrees_afterAll (agrees.opened opens)
      have othersAgree := others.agrees_afterAll bodyAgrees
      simpa [Nested.pieces] using rest.agrees_afterAll othersAgree

theorem Branches.agrees_afterAll {defined : SymbolSet} {conditions : Conditions}
    {before : List Piece} {previous : Branch} {within : List Branch} :
    (branches : Branches) → conditions.Agrees defined before (previous :: within) →
      (conditions.afterAll branches.pieces).Agrees defined (before ++ branches.pieces) within
  | .close line closes, agrees => by
      simpa [Branches.pieces] using agrees.closed closes
  | .elseIf line symbol divides body others, agrees => by
      have bodyAgrees := body.agrees_afterAll (agrees.divided_elseIf divides)
      simpa [Branches.pieces] using others.agrees_afterAll bodyAgrees
  | .otherwise line divides body last closes, agrees => by
      have bodyAgrees := body.agrees_afterAll (agrees.divided_else divides)
      simpa [Branches.pieces] using bodyAgrees.closed closes

end

mutual

/-- What well nested pieces show are the tokens all of whose branches are taken. -/
theorem Nested.visibleTokens_eq {defined : SymbolSet} {conditions : Conditions}
    {before : List Piece} {within : List Branch} :
    (nested : Nested) → conditions.Agrees defined before within →
      conditions.visibleTokens nested.pieces =
        ((nested.placed before within).filter (·.isTaken defined)).filterMap (·.piece.token?)
  | .nil, agrees => rfl
  | .plain piece isPlain rest, agrees => by
      have later := rest.visibleTokens_eq (agrees.plain isPlain)
      have visible : conditions.visible? piece =
          if PlacedPiece.isTaken defined ⟨piece, within⟩ then piece.token? else none := by
        rw [Conditions.visible?, agrees.isVisible]
        rfl
      rw [Nested.pieces, Nested.placed, Conditions.visibleTokens_cons, later, visible]
      cases taken : PlacedPiece.isTaken defined ⟨piece, within⟩ with
      | false => simp [taken]
      | true => cases isToken : piece.token? <;> simp [taken, isToken]
  | .conditional line symbol opens body others rest, agrees => by
      have opened := agrees.opened opens
      have bodyAgrees := body.agrees_afterAll opened
      have othersAgree := others.agrees_afterAll bodyAgrees
      simp only [Nested.pieces, Nested.placed, Conditions.visibleTokens_cons,
        Conditions.visibleTokens_append, conditions.visible?_of_directive opens,
        body.visibleTokens_eq opened, others.visibleTokens_eq bodyAgrees,
        rest.visibleTokens_eq othersAgree, List.filter_append, List.filterMap_append]
      rfl

theorem Branches.visibleTokens_eq {defined : SymbolSet} {conditions : Conditions}
    {before : List Piece} {previous : Branch} {within : List Branch} :
    (branches : Branches) → conditions.Agrees defined before (previous :: within) →
      conditions.visibleTokens branches.pieces =
        ((branches.placed before previous within).filter (·.isTaken defined)).filterMap
          (·.piece.token?)
  | .close line closes, agrees => by
      simp [Branches.pieces, Branches.placed, conditions.visible?_of_directive closes]
  | .elseIf line symbol divides body others, agrees => by
      have divided := agrees.divided_elseIf divides
      have bodyAgrees := body.agrees_afterAll divided
      simp only [Branches.pieces, Branches.placed, Conditions.visibleTokens_cons,
        Conditions.visibleTokens_append, conditions.visible?_of_directive divides,
        body.visibleTokens_eq divided, others.visibleTokens_eq bodyAgrees,
        List.filter_append, List.filterMap_append]
      rfl
  | .otherwise line divides body last closes, agrees => by
      have divided := agrees.divided_else divides
      simp [Branches.pieces, Branches.placed, Conditions.visibleTokens_append,
        Conditions.visible?_of_directive _ divides, Conditions.visible?_of_directive _ closes,
        body.visibleTokens_eq divided]

end

mutual

theorem Nested.isUnbalanced_metIssues {defined : SymbolSet} {conditions : Conditions}
    {before : List Piece} {within : List Branch} :
    (nested : Nested) → conditions.Agrees defined before within →
      ∀ issue ∈ conditions.metIssues nested.pieces, issue.cause.isUnbalanced = false
  | .nil, agrees => by simp [Nested.pieces]
  | .plain piece isPlain rest, agrees => by
      intro issue member
      rw [Nested.pieces, Conditions.metIssues_cons] at member
      rcases List.mem_append.1 member with noted | later
      · exact Conditions.isUnbalanced_of_issue? isPlain (Option.mem_toList.1 noted)
      · exact rest.isUnbalanced_metIssues (agrees.plain isPlain) issue later
  | .conditional line symbol opens body others rest, agrees => by
      intro issue member
      have opened := agrees.opened opens
      have bodyAgrees := body.agrees_afterAll opened
      have othersAgree := others.agrees_afterAll bodyAgrees
      simp only [Nested.pieces, Conditions.metIssues_cons, Conditions.metIssues_append,
        conditions.issue?_of_if opens, Option.toList_none, List.nil_append,
        List.mem_append] at member
      rcases member with inBody | inOthers | inRest
      · exact body.isUnbalanced_metIssues opened issue inBody
      · exact others.isUnbalanced_metIssues bodyAgrees issue inOthers
      · exact rest.isUnbalanced_metIssues othersAgree issue inRest

theorem Branches.isUnbalanced_metIssues {defined : SymbolSet} {conditions : Conditions}
    {before : List Piece} {previous : Branch} {within : List Branch} :
    (branches : Branches) → conditions.Agrees defined before (previous :: within) →
      ∀ issue ∈ conditions.metIssues branches.pieces, issue.cause.isUnbalanced = false
  | .close line closes, agrees => by
      simp [Branches.pieces, Conditions.issue?_of_open closes agrees.isEmpty_eq_false]
  | .elseIf line symbol divides body others, agrees => by
      intro issue member
      have divided := agrees.divided_elseIf divides
      have bodyAgrees := body.agrees_afterAll divided
      simp only [Branches.pieces, Conditions.metIssues_cons, Conditions.metIssues_append,
        Conditions.issue?_of_open divides agrees.isEmpty_eq_false, Option.toList_none,
        List.nil_append, List.mem_append] at member
      rcases member with inBody | inOthers
      · exact body.isUnbalanced_metIssues divided issue inBody
      · exact others.isUnbalanced_metIssues bodyAgrees issue inOthers
  | .otherwise line divides body last closes, agrees => by
      intro issue member
      have divided := agrees.divided_else divides
      have bodyAgrees := body.agrees_afterAll divided
      simp only [Branches.pieces, Conditions.metIssues_cons, Conditions.metIssues_append,
        Conditions.issue?_of_open divides agrees.isEmpty_eq_false,
        Conditions.issue?_of_open closes bodyAgrees.isEmpty_eq_false, Option.toList_none,
        Conditions.metIssues_nil, List.nil_append, List.append_nil] at member
      exact body.isUnbalanced_metIssues divided issue member

end

mutual

/-- Placing pieces in their branches leaves out the lines of conditionals only. -/
theorem Nested.map_piece_placed {before : List Piece} {within : List Branch} :
    (nested : Nested) →
      (nested.placed before within).map PlacedPiece.piece =
        nested.pieces.filter (!·.isConditionalLine)
  | .nil => rfl
  | .plain piece isPlain rest => by
      simp [Nested.placed, Nested.pieces, isPlain, rest.map_piece_placed]
  | .conditional line symbol opens body others rest => by
      simp [Nested.placed, Nested.pieces, Piece.isConditionalLine, opens,
        body.map_piece_placed, others.map_piece_placed, rest.map_piece_placed]

theorem Branches.map_piece_placed {before : List Piece} {previous : Branch}
    {within : List Branch} :
    (branches : Branches) →
      (branches.placed before previous within).map PlacedPiece.piece =
        branches.pieces.filter (!·.isConditionalLine)
  | .close line closes => by
      simp [Branches.placed, Branches.pieces, Piece.isConditionalLine, closes]
  | .elseIf line symbol divides body others => by
      simp [Branches.placed, Branches.pieces, Piece.isConditionalLine, divides,
        body.map_piece_placed, others.map_piece_placed]
  | .otherwise line divides body last closes => by
      simp [Branches.placed, Branches.pieces, Piece.isConditionalLine, divides, closes,
        body.map_piece_placed]

end

theorem Conditions.agrees_initial (symbols : SymbolTable) :
    (Conditions.initial symbols).Agrees symbols.defined [] [] := ⟨rfl, .nil⟩

/-- Reading a well nested text to its end gives the tokens all of whose branches are
taken.  No conditional is left open, and none is noted as unbalanced. -/
theorem drain_nested (source : String) (symbols : SymbolTable) (nested : Nested)
    (isSource : nested.pieces = Piece.listOfText source) :
    let placed := nested.placed [] []
    let drained := (TokenStream.ofText source symbols).drain []
    placed.map PlacedPiece.piece =
        (Piece.listOfText source).filter (!·.isConditionalLine) ∧
      drained.1 =
        (placed.filter (·.isTaken symbols.defined)).filterMap (·.piece.token?) ∧
      drained.2.conditions.symbols.defined =
        symbols.defined.afterAll (Piece.listOfText source) ∧
      drained.2.conditions.conditionals = [] ∧
      ∀ issue ∈ drained.2.issues, issue.cause.isUnbalanced = false := by
  intro placed drained
  have agrees := Conditions.agrees_initial symbols
  have atEnd := nested.agrees_afterAll agrees
  have noneOpen := List.forall₂_nil_right_iff.1 atEnd.conditionals
  obtain ⟨tokens, conditions, issues⟩ := TokenStream.drain_ofText source symbols
  rw [Preprocessed.ofText, Preprocessed.ofPieces_eq, ← isSource] at tokens issues
  rw [← isSource] at conditions ⊢
  refine ⟨nested.map_piece_placed, ?_, ?_, ?_, ?_⟩
  · rw [tokens]
    exact nested.visibleTokens_eq agrees
  · rw [conditions, Conditions.afterAll_defined]
    rfl
  · rw [conditions, noneOpen]
  · intro issue member
    rw [issues] at member
    rw [Conditions.unclosed, noneOpen, List.reverse_nil, List.map_nil, List.append_nil] at member
    exact nested.isUnbalanced_metIssues agrees issue member

/-- A definition in the first branch, which is not taken, makes the second one taken. -/
theorem drain_nested_definition_in_hidden_branch :
    ∃ nested : Nested,
      nested.pieces = Piece.listOfText "#if A\n#define B\n#elif B\nb\n#endif" ∧
        ((TokenStream.ofText "#if A\n#define B\n#elif B\nb\n#endif" .empty).drain
            []).1.map Token.text = ["b"] ∧
          ((TokenStream.ofText "#if A\n#define B\n#elif B\nb\n#endif" .empty).drain
            []).2.conditions.conditionals = [] := by
  let definition : Nested :=
    .plain ⟨.spacing, ['\n'], ⟨0, 5, 5⟩⟩ rfl
      (.plain ⟨.directive, "#define B".toList, ⟨1, 0, 6⟩⟩ (by decide)
        (.plain ⟨.spacing, ['\n'], ⟨1, 9, 15⟩⟩ rfl .nil))
  let token : Nested :=
    .plain ⟨.spacing, ['\n'], ⟨2, 7, 23⟩⟩ rfl
      (.plain ⟨.token .word true, ['b'], ⟨3, 0, 24⟩⟩ rfl
        (.plain ⟨.spacing, ['\n'], ⟨3, 1, 25⟩⟩ rfl .nil))
  let nested : Nested :=
    .conditional ⟨.directive, "#if A".toList, ⟨0, 0, 0⟩⟩ "A" (by decide) definition
      (.elseIf ⟨.directive, "#elif B".toList, ⟨2, 0, 16⟩⟩ "B" (by decide) token
        (.close ⟨.directive, "#endif".toList, ⟨4, 0, 26⟩⟩ (by decide))) .nil
  have isSource : nested.pieces =
      Piece.listOfText "#if A\n#define B\n#elif B\nb\n#endif" := by decide +kernel
  obtain ⟨_, shown, _, noneOpen, _⟩ := drain_nested _ SymbolTable.empty nested isSource
  refine ⟨nested, isSource, ?_, noneOpen⟩
  rw [shown]
  decide +kernel

end ObjectIds
