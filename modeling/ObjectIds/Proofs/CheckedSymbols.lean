import ObjectIds.Proofs.ConditionalBlocks
import ObjectIds.Proofs.OpenConditionals
import ObjectIds.Scan

/-!
# What the seed can influence

A run asks only for the symbols on `#if` and `#elif` lines, and it marks each of them as
checked, also where the line cannot be seen.  Two seeds that define the same of these
symbols therefore show the same tokens, whatever else they define, and what is noted does
not depend on the seed at all.
-/

namespace ObjectIds

namespace Piece

/-- Whether a piece is an `#if` or `#elif` line that asks for a symbol. -/
def AsksFor (piece : Piece) (symbol : String) : Prop :=
  piece.directive? = some (.ifDefined symbol) ∨
    piece.directive? = some (.elseIfDefined symbol)

instance (piece : Piece) (symbol : String) : Decidable (piece.AsksFor symbol) :=
  inferInstanceAs (Decidable (_ ∨ _))

/-- Whether a symbol that is not empty stands on an `#if` or `#elif` line among pieces. -/
def Tested (pieces : List Piece) (symbol : String) : Prop :=
  symbol ≠ "" ∧ ∃ line ∈ pieces, line.AsksFor symbol

theorem tested_cons {piece : Piece} {pieces : List Piece} {symbol : String} :
    Tested (piece :: pieces) symbol ↔
      (symbol ≠ "" ∧ piece.AsksFor symbol) ∨ Tested pieces symbol := by
  simp only [Tested, List.mem_cons, exists_eq_or_imp, and_or_left]

end Piece

namespace Conditions

theorem mem_checked_check {symbols : SymbolTable} {asked symbol : String} :
    symbol ∈ (check symbols asked).checked ↔
      symbol ∈ symbols.checked ∨ (symbol ≠ "" ∧ symbol = asked) := by
  unfold check
  by_cases isEmpty : asked = ""
  · subst isEmpty
    simp
  · have noEmpty : asked.isEmpty = false := by simpa using isEmpty
    rw [noEmpty, if_neg Bool.false_ne_true, SymbolTable.markChecked, SymbolSet.mem_insert]
    constructor
    · rintro (rfl | checked)
      · exact Or.inr ⟨isEmpty, rfl⟩
      · exact Or.inl checked
    · rintro (checked | ⟨-, rfl⟩)
      · exact Or.inr checked
      · exact Or.inl rfl

/-- A piece checks the symbol that it asks for and no other. -/
theorem mem_checked_after {conditions : Conditions} {piece : Piece} {symbol : String} :
    symbol ∈ (conditions.after piece).symbols.checked ↔
      symbol ∈ conditions.symbols.checked ∨ (symbol ≠ "" ∧ piece.AsksFor symbol) := by
  unfold after Piece.AsksFor
  cases piece.directive? with
  | none => simp
  | some directive =>
      cases directive with
      | ifDefined asked => simp [apply, mem_checked_check, eq_comm]
      | elseIfDefined asked => simp [apply, mem_checked_check, eq_comm]
      | define defined =>
          by_cases isEmpty : defined = ""
          · simp [apply, define, isEmpty]
          · simp [apply, define, isEmpty, SymbolTable.define]
      | undefine removed => simp [apply, SymbolTable.undefine]
      | elseBranch => simp [apply]
      | endIf => simp [apply]
      | other name => simp [apply]

theorem mem_checked_afterAll {conditions : Conditions} {pieces : List Piece}
    {symbol : String} :
    symbol ∈ (conditions.afterAll pieces).symbols.checked ↔
      symbol ∈ conditions.symbols.checked ∨ Piece.Tested pieces symbol := by
  induction pieces generalizing conditions with
  | nil => simp [Piece.Tested]
  | cons piece pieces ih =>
      rw [afterAll_cons, ih, mem_checked_after, Piece.tested_cons, or_assoc]

/-- Conditions that define the same of the relevant symbols, in conditionals whose branches
are chosen alike. -/
structure AgreeOn (relevant : String → Prop) (first second : Conditions) : Prop where
  defined : ∀ symbol, relevant symbol →
    (symbol ∈ first.symbols.defined ↔ symbol ∈ second.symbols.defined)
  conditionals : first.conditionals = second.conditionals

namespace AgreeOn

variable {relevant : String → Prop} {first second : Conditions}

theorem isDefined_eq (agree : AgreeOn relevant first second) {symbol : String}
    (isRelevant : relevant symbol) :
    first.symbols.isDefined symbol = second.symbols.isDefined symbol := by
  unfold SymbolTable.isDefined
  exact decide_eq_decide.2 (agree.defined symbol isRelevant)

theorem visible?_eq (agree : AgreeOn relevant first second) (piece : Piece) :
    first.visible? piece = second.visible? piece := by
  unfold visible? isVisible
  rw [agree.conditionals]

theorem mem_defined_after (agree : AgreeOn relevant first second) (piece : Piece)
    {symbol : String} (isRelevant : relevant symbol) :
    symbol ∈ (first.after piece).symbols.defined ↔
      symbol ∈ (second.after piece).symbols.defined := by
  have same := agree.defined symbol isRelevant
  rw [after_defined, after_defined]
  unfold SymbolSet.after
  split
  · split
    · exact same
    · rw [SymbolSet.mem_insert, SymbolSet.mem_insert, same]
  · rw [SymbolSet.mem_erase, SymbolSet.mem_erase, same]
  · exact same

/-- A piece that asks for relevant symbols only keeps conditions in agreement. -/
theorem after (agree : AgreeOn relevant first second) {piece : Piece}
    (asksRelevant : ∀ symbol, piece.AsksFor symbol → relevant symbol) :
    AgreeOn relevant (first.after piece) (second.after piece) := by
  refine ⟨fun symbol isRelevant => agree.mem_defined_after piece isRelevant, ?_⟩
  have same := agree.conditionals
  cases isDirective : piece.directive? with
  | none =>
      rw [first.after_of_no_directive isDirective, second.after_of_no_directive isDirective]
      exact same
  | some directive =>
      cases directive with
      | ifDefined symbol =>
          have isRelevant := asksRelevant symbol (Or.inl isDirective)
          rw [first.after_if isDirective, second.after_if isDirective,
            agree.isDefined_eq isRelevant, same]
      | elseIfDefined symbol =>
          have isRelevant := asksRelevant symbol (Or.inr isDirective)
          rw [first.after_elseIf isDirective, second.after_elseIf isDirective,
            agree.isDefined_eq isRelevant, same]
      | elseBranch => rw [first.after_else isDirective, second.after_else isDirective, same]
      | endIf => rw [first.after_endIf isDirective, second.after_endIf isDirective, same]
      | define _ | undefine _ | other _ =>
          have isPlain : piece.isConditionalLine = false := by
            simp [Piece.isConditionalLine, isDirective]
          rw [first.after_of_not_line isPlain, second.after_of_not_line isPlain, same]

/-- Conditions in agreement show the same tokens of pieces that ask for relevant symbols. -/
theorem visibleTokens_eq (agree : AgreeOn relevant first second) {pieces : List Piece}
    (askRelevant : ∀ piece ∈ pieces, ∀ symbol, piece.AsksFor symbol → relevant symbol) :
    first.visibleTokens pieces = second.visibleTokens pieces := by
  induction pieces generalizing first second with
  | nil => rfl
  | cons piece pieces ih =>
      obtain ⟨asksRelevant, laterRelevant⟩ := List.forall_mem_cons.1 askRelevant
      rw [visibleTokens_cons, visibleTokens_cons, agree.visible?_eq,
        ih (agree.after asksRelevant) laterRelevant]

end AgreeOn

end Conditions

namespace Preprocessed

variable (source : String) (first second : SymbolTable)

theorem issues_ofText_congr :
    (ofText source first).issues = (ofText source second).issues := by
  have same : (Conditions.initial first).openings = (Conditions.initial second).openings := rfl
  obtain ⟨sameMet, sameEnd⟩ := Conditions.metIssues_congr same (Piece.listOfText source)
  rw [ofText, ofText, ofPieces_eq, ofPieces_eq]
  simp only [sameMet, Conditions.unclosed_eq, sameEnd]

theorem mem_checked_ofText (seed : SymbolTable) (symbol : String) :
    symbol ∈ (ofText source seed).symbols.checked ↔
      symbol ∈ seed.checked ∨ Piece.Tested (Piece.listOfText source) symbol := by
  rw [ofText, ofPieces_eq]
  exact Conditions.mem_checked_afterAll

variable {source first second}

/-- The empty symbol counts too, because a branch can ask for it without checking it. -/
theorem tokens_ofText_congr
    (sameDefined : ∀ symbol, Piece.Tested (Piece.listOfText source) symbol ∨ symbol = "" →
      (symbol ∈ first.defined ↔ symbol ∈ second.defined)) :
    (ofText source first).tokens = (ofText source second).tokens := by
  have agree : Conditions.AgreeOn
      (fun symbol => Piece.Tested (Piece.listOfText source) symbol ∨ symbol = "")
      (Conditions.initial first) (Conditions.initial second) := ⟨sameDefined, rfl⟩
  rw [ofText, ofText, ofPieces_eq, ofPieces_eq]
  apply agree.visibleTokens_eq
  intro line member symbol asks
  by_cases isEmpty : symbol = ""
  · exact Or.inr isEmpty
  · exact Or.inl ⟨isEmpty, line, member, asks⟩

end Preprocessed

/-- What the symbols of a seed can change: nothing about the issues, of the checked symbols
only those that it brings along, and of tokens and declarations only as far as it defines
the tested symbols or the empty one. -/
theorem run_determined_by_tested (source : String) (first second : SymbolTable) :
    let tested := Piece.Tested (Piece.listOfText source)
    let drained := fun seed => (TokenStream.ofText source seed).drain []
    (drained first).2.issues = (drained second).2.issues ∧
      (Scan.ofText source first).issues = (Scan.ofText source second).issues ∧
      (∀ seed symbol,
        (symbol ∈ (drained seed).2.symbols.checked ↔
          symbol ∈ seed.checked ∨ tested symbol) ∧
        (symbol ∈ (Scan.ofText source seed).symbols.checked ↔
          symbol ∈ seed.checked ∨ tested symbol)) ∧
      ((∀ symbol, tested symbol ∨ symbol = "" →
          (symbol ∈ first.defined ↔ symbol ∈ second.defined)) →
        (drained first).1 = (drained second).1 ∧
          (Scan.ofText source first).declarations =
            (Scan.ofText source second).declarations) := by
  intro tested drained
  obtain ⟨drainedTokens, -, drainedIssues⟩ := TokenStream.drain_ofText source first
  obtain ⟨otherTokens, -, otherIssues⟩ := TokenStream.drain_ofText source second
  have sameIssues := Preprocessed.issues_ofText_congr source first second
  refine ⟨?_, sameIssues, fun seed symbol => ⟨?_, ?_⟩, fun sameDefined => ?_⟩
  · rw [drainedIssues, otherIssues, sameIssues]
  · have conditions : (drained seed).2.conditions = _ :=
      (TokenStream.drain_ofText source seed).2.1
    rw [TokenStream.symbols, conditions]
    exact Conditions.mem_checked_afterAll
  · exact Preprocessed.mem_checked_ofText source seed symbol
  · have sameTokens := Preprocessed.tokens_ofText_congr sameDefined
    constructor
    · rw [drainedTokens, otherTokens, sameTokens]
    · rw [Scan.ofText, Scan.ofText, Preprocessed.scan, Preprocessed.scan, sameTokens]

/-- Seeds that differ in a symbol that is only defined, and in one that is not named. -/
theorem run_determined_by_tested_among_others :
    let source := "#if A\ntable 1 T \x7b \x7d\n#elif C\n#define D\n#endif\n#if\ny\n#endif"
    let first : SymbolTable := ⟨.ofList ["A", "D"], .ofList ["X"]⟩
    let second : SymbolTable := .ofDefined ["E", "A"]
    (∀ symbol, Piece.Tested (Piece.listOfText source) symbol ∨ symbol = "" →
        (symbol ∈ first.defined ↔ symbol ∈ second.defined)) ∧
      ((TokenStream.ofText source first).drain []).1 =
        ((TokenStream.ofText source second).drain []).1 ∧
      (Scan.ofText source first).declarations = (Scan.ofText source second).declarations ∧
      (Scan.ofText source second).declarations.map Declaration.name = [some "T"] ∧
      (Scan.ofText source first).symbols.checked.toList = ["A", "C", "X"] := by
  intro source first second
  have sameDefined : ∀ symbol, Piece.Tested (Piece.listOfText source) symbol ∨ symbol = "" →
      (symbol ∈ first.defined ↔ symbol ∈ second.defined) := by
    have directives : (Piece.listOfText source).filterMap Piece.directive? =
        [.ifDefined "A", .elseIfDefined "C", .define "D", .endIf, .ifDefined "", .endIf] := by
      decide +kernel
    rintro symbol (⟨notEmpty, line, member, asks⟩ | rfl)
    · have asked : Directive.ifDefined symbol ∈ _ ∨ Directive.elseIfDefined symbol ∈ _ :=
        asks.imp (fun isIf => List.mem_filterMap.2 ⟨line, member, isIf⟩)
          fun isElseIf => List.mem_filterMap.2 ⟨line, member, isElseIf⟩
      rw [directives] at asked
      obtain rfl | rfl : symbol = "A" ∨ symbol = "C" := by simpa [notEmpty] using asked
      · decide +kernel
      · decide +kernel
    · decide +kernel
  obtain ⟨-, -, -, unchanged⟩ := run_determined_by_tested source first second
  obtain ⟨sameTokens, sameDeclarations⟩ := unchanged sameDefined
  refine ⟨sameDefined, sameTokens, sameDeclarations, ?_, ?_⟩
  · decide +kernel
  · decide +kernel

end ObjectIds
