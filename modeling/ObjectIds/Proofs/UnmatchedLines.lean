import Mathlib.Data.List.Sort
import ObjectIds.Proofs.CheckedSymbols
import ObjectIds.Proofs.SameBranches

/-!
# Lines outside every conditional

An `#elif`, `#else` or `#endif` line outside every conditional is noted, and the conditionals
and the defined symbols stay as they are.  An `#elif` line marks the symbol that it asks for as
checked all the same.

So such lines can be taken out of a text: the other pieces show the same tokens, and only the
notes about those lines go, together with the symbols that nothing else has checked.
-/

namespace ObjectIds

theorem SymbolSet.eq_of_mem_iff {first second : SymbolSet}
    (same : ∀ name, name ∈ first ↔ name ∈ second) : first = second := by
  obtain ⟨names, ascending⟩ := first
  obtain ⟨others, othersAscending⟩ := second
  obtain rfl : names = others := ascending.eq_of_mem_iff othersAscending same
  rfl

theorem SymbolTable.eq_iff_of_defined_eq {first second : SymbolTable}
    (same : first.defined = second.defined) :
    first = second ↔ ∀ symbol, symbol ∈ first.checked ↔ symbol ∈ second.checked := by
  constructor
  · rintro rfl symbol
    exact Iff.rfl
  · intro sameChecked
    obtain ⟨defined, checked⟩ := first
    obtain rfl : defined = second.defined := same
    obtain rfl : checked = second.checked := SymbolSet.eq_of_mem_iff sameChecked
    rfl

/-- Whether something is wrong because a line stands outside every conditional. -/
def Issue.Cause.isUnmatched : Issue.Cause → Bool
  | .unmatchedEndIf | .unmatchedElseIf | .unmatchedElse => true
  | .unclosedConditional | .unterminatedString | .unterminatedQuotedIdentifier
  | .unterminatedComment => false

theorem Issue.Cause.isUnbalanced_of_isUnmatched {cause : Cause}
    (unmatched : cause.isUnmatched = true) : cause.isUnbalanced = true := by
  cases cause with
  | unmatchedEndIf | unmatchedElseIf | unmatchedElse => rfl
  | _ => contradiction

namespace Conditions

/-- Whether a piece is a line with which a conditional goes on, outside every conditional. -/
def isUnmatched (conditions : Conditions) (piece : Piece) : Bool :=
  (piece.directive?.bind conditions.fault?).isSome

/-- The unmatched lines among pieces. -/
def unmatchedLines (conditions : Conditions) : List Piece → List Piece
  | [] => []
  | piece :: pieces =>
      let later := (conditions.after piece).unmatchedLines pieces
      if conditions.isUnmatched piece then piece :: later else later

/-- The pieces other than the unmatched lines. -/
def matchedPieces (conditions : Conditions) : List Piece → List Piece
  | [] => []
  | piece :: pieces =>
      let later := (conditions.after piece).matchedPieces pieces
      if conditions.isUnmatched piece then later else piece :: later

/-- What an unmatched directive does: nothing, except that a symbol can become checked. -/
theorem apply_of_fault? {conditions : Conditions} {directive : Directive} {cause : Issue.Cause}
    (isFault : conditions.fault? directive = some cause) (line : Span) :
    (conditions.apply directive line).conditionals = conditions.conditionals ∧
      (conditions.apply directive line).symbols.defined = conditions.symbols.defined ∧
      (∀ symbol, symbol ∈ (conditions.apply directive line).symbols.checked ↔
        symbol ∈ conditions.symbols.checked ∨
          (symbol ≠ "" ∧ directive = .elseIfDefined symbol)) ∧
      cause.isUnmatched = true := by
  obtain ⟨symbols, conditionals⟩ := conditions
  unfold fault? at isFault
  split at isFault
  · rename_i isEmpty
    obtain rfl : conditionals = [] := List.isEmpty_iff.1 isEmpty
    cases directive with
    | elseIfDefined asked =>
        cases isFault
        refine ⟨rfl, check_defined symbols asked, fun symbol => ?_, rfl⟩
        simp [apply, mem_checked_check, eq_comm]
    | elseBranch =>
        cases isFault
        simp [apply, branch, Issue.Cause.isUnmatched]
    | endIf =>
        cases isFault
        simp [apply, Issue.Cause.isUnmatched]
    | ifDefined _ | define _ | undefine _ | other _ => contradiction
  · contradiction

/-- An unmatched directive changes nothing unless a symbol becomes checked. -/
theorem apply_eq_self_iff {conditions : Conditions} {directive : Directive} {cause : Issue.Cause}
    (isFault : conditions.fault? directive = some cause) (line : Span) :
    conditions.apply directive line = conditions ↔ ∀ symbol,
      directive = .elseIfDefined symbol → symbol = "" ∨ symbol ∈ conditions.symbols.checked := by
  obtain ⟨sameConditionals, sameDefined, checked, -⟩ := apply_of_fault? isFault line
  have onlySymbols : conditions.apply directive line = conditions ↔
      (conditions.apply directive line).symbols = conditions.symbols := by
    constructor
    · exact fun same => congrArg symbols same
    · intro sameSymbols
      generalize conditions.apply directive line = next at sameConditionals sameSymbols
      obtain ⟨symbols, conditionals⟩ := next
      cases sameConditionals
      cases sameSymbols
      rfl
  rw [onlySymbols, SymbolTable.eq_iff_of_defined_eq sameDefined]
  refine forall_congr' fun symbol => ?_
  rw [checked]
  tauto

theorem exists_fault?_of_isUnmatched {conditions : Conditions} {piece : Piece}
    (unmatched : conditions.isUnmatched piece = true) :
    ∃ directive cause, piece.directive? = some directive ∧
      conditions.fault? directive = some cause := by
  obtain ⟨cause, isCause⟩ := Option.isSome_iff_exists.1 unmatched
  obtain ⟨directive, isDirective, isFault⟩ := Option.bind_eq_some_iff.1 isCause
  exact ⟨directive, cause, isDirective, isFault⟩

theorem after_of_isUnmatched {conditions : Conditions} {piece : Piece}
    (unmatched : conditions.isUnmatched piece = true) :
    (conditions.after piece).conditionals = conditions.conditionals ∧
      (conditions.after piece).symbols.defined = conditions.symbols.defined := by
  obtain ⟨directive, cause, isDirective, isFault⟩ := exists_fault?_of_isUnmatched unmatched
  obtain ⟨sameConditionals, sameDefined, -⟩ := apply_of_fault? isFault piece.span
  rw [after, isDirective]
  exact ⟨sameConditionals, sameDefined⟩

theorem of_isUnmatched {conditions : Conditions} {piece : Piece}
    (unmatched : conditions.isUnmatched piece = true) :
    conditions.visible? piece = none ∧
      ∃ issue, conditions.issue? piece = some issue ∧ issue.cause.isUnmatched = true := by
  obtain ⟨directive, cause, isDirective, isFault⟩ := exists_fault?_of_isUnmatched unmatched
  obtain ⟨-, -, -, isUnmatched⟩ := apply_of_fault? isFault piece.span
  refine ⟨conditions.visible?_of_directive isDirective, ⟨cause, piece.span⟩, ?_, isUnmatched⟩
  simp [issue?, isDirective, isFault]

theorem isUnmatched_of_issue? {conditions : Conditions} {piece : Piece} {issue : Issue}
    (isMatched : conditions.isUnmatched piece = false)
    (noted : conditions.issue? piece = some issue) : issue.cause.isUnmatched = false := by
  unfold issue? at noted
  cases isDirective : piece.directive? with
  | some directive =>
      have noFault : conditions.fault? directive = none := by
        simpa [isUnmatched, isDirective] using isMatched
      simp [isDirective, noFault] at noted
  | none =>
      simp only [isDirective] at noted
      obtain ⟨cause, isFault, rfl⟩ := Option.map_eq_some_iff.1 noted
      have balanced := isUnbalanced_of_fault? isFault
      refine Bool.eq_false_iff.2 fun unmatched => ?_
      rw [Issue.Cause.isUnbalanced_of_isUnmatched unmatched] at balanced
      contradiction

/-- Conditions that differ in the checked symbols only. -/
structure SameDefined (first second : Conditions) : Prop where
  defined_eq : second.symbols.defined = first.symbols.defined
  conditionals_eq : second.conditionals = first.conditionals

namespace SameDefined

variable {first second : Conditions}

theorem agreeOn (same : SameDefined first second) : AgreeOn (fun _ => True) first second :=
  ⟨fun symbol _ => by rw [same.defined_eq], same.conditionals_eq.symm⟩

theorem after (same : SameDefined first second) (piece : Piece) :
    SameDefined (first.after piece) (second.after piece) where
  defined_eq := by rw [after_defined, after_defined, same.defined_eq]
  conditionals_eq := (same.agreeOn.after fun _ _ => trivial).conditionals.symm

theorem after_left (same : SameDefined first second) {piece : Piece}
    (unmatched : first.isUnmatched piece = true) : SameDefined (first.after piece) second := by
  obtain ⟨sameConditionals, sameDefined⟩ := after_of_isUnmatched unmatched
  exact ⟨same.defined_eq.trans sameDefined.symm, same.conditionals_eq.trans sameConditionals.symm⟩

theorem issue?_eq (same : SameDefined first second) (piece : Piece) :
    second.issue? piece = first.issue? piece := by
  refine issue?_congr ?_ piece
  rw [openings, openings, same.conditionals_eq]

/-- A run over the pieces that are left goes as before. -/
theorem run_matchedPieces (same : SameDefined first second) (pieces : List Piece) :
    second.visibleTokens (first.matchedPieces pieces) = first.visibleTokens pieces ∧
      second.metIssues (first.matchedPieces pieces) =
        (first.metIssues pieces).filter (!·.cause.isUnmatched) ∧
      SameDefined (first.afterAll pieces) (second.afterAll (first.matchedPieces pieces)) := by
  -- A run that has passed an unmatched line may have more symbols checked than the other run.
  induction pieces generalizing first second with
  | nil => exact ⟨rfl, rfl, same⟩
  | cons piece pieces ih =>
      rw [matchedPieces, visibleTokens_cons, metIssues_cons, afterAll_cons, List.filter_append]
      cases unmatched : first.isUnmatched piece with
      | true =>
          obtain ⟨notVisible, issue, isIssue, isUnmatched⟩ := of_isUnmatched unmatched
          obtain ⟨sameTokens, sameIssues, sameEnd⟩ := ih (same.after_left unmatched)
          rw [if_pos rfl, notVisible, isIssue]
          refine ⟨sameTokens, ?_, sameEnd⟩
          simpa [isUnmatched] using sameIssues
      | false =>
          obtain ⟨sameTokens, sameIssues, sameEnd⟩ := ih (same.after piece)
          rw [if_neg Bool.false_ne_true, visibleTokens_cons, metIssues_cons, sameTokens,
            sameIssues, ← same.agreeOn.visible?_eq, same.issue?_eq]
          refine ⟨rfl, ?_, sameEnd⟩
          congr 1
          cases isIssue : first.issue? piece with
          | none => rfl
          | some issue => simp [isUnmatched_of_issue? unmatched isIssue]

end SameDefined

/-- What is asked for is asked for by an unmatched line or by a piece that is left. -/
theorem tested_iff (conditions : Conditions) (pieces : List Piece) (symbol : String) :
    Piece.Tested pieces symbol ↔ Piece.Tested (conditions.matchedPieces pieces) symbol ∨
      Piece.Tested (conditions.unmatchedLines pieces) symbol := by
  induction pieces generalizing conditions with
  | nil => simp [matchedPieces, unmatchedLines]
  | cons piece pieces ih =>
      rw [Piece.tested_cons, ih (conditions.after piece), matchedPieces, unmatchedLines]
      cases conditions.isUnmatched piece with
      | true =>
          rw [if_pos rfl, if_pos rfl, Piece.tested_cons]
          tauto
      | false =>
          rw [if_neg Bool.false_ne_true, if_neg Bool.false_ne_true, Piece.tested_cons]
          tauto

/-- A text that is written as pieces are, without the unmatched lines.  Spacing may be other
spacing, or none, unless a piece has come with no spacing after it yet: then it starts with the
same character, or the text ends.  `free` says that no such piece has come. -/
inductive Remains : Bool → Conditions → List Piece → List Char → Prop
  | nil {free : Bool} {conditions : Conditions} : Remains free conditions [] []
  | unmatched {free : Bool} {conditions : Conditions} {piece : Piece} {pieces : List Piece}
      {text : List Char} (isUnmatched : conditions.isUnmatched piece = true)
      (later : Remains free (conditions.after piece) pieces text) :
      Remains free conditions (piece :: pieces) text
  | matched {free : Bool} {conditions : Conditions} {piece : Piece} {pieces : List Piece}
      {text : List Char} (isMatched : conditions.isUnmatched piece = false)
      (later : Remains false (conditions.after piece) pieces text) :
      Remains free conditions (piece :: pieces) (piece.text ++ text)
  | spacing {free : Bool} {conditions : Conditions} {piece : Piece} {pieces : List Piece}
      {run text : List Char} (isSpacing : piece.shape = .spacing)
      (blank : ∀ character ∈ run, Text.isSpacing character = true)
      (starts : free = false → run.head? = piece.text.head? ∨ run ++ text = [])
      (later : Remains true (conditions.after piece) pieces text) :
      Remains free conditions (piece :: pieces) (run ++ text)

theorem remains_matchedPieces (free : Bool) (conditions : Conditions) (pieces : List Piece) :
    conditions.Remains free pieces ((conditions.matchedPieces pieces).flatMap Piece.text) := by
  induction pieces generalizing free conditions with
  | nil => exact .nil
  | cons piece pieces ih =>
      rw [matchedPieces]
      cases isUnmatched : conditions.isUnmatched piece with
      | true => exact .unmatched isUnmatched (ih free _)
      | false => exact .matched isUnmatched (ih false _)

end Conditions

/-- A token of the same kind with the same text, perhaps elsewhere. -/
structure Token.SameText (old new : Token) : Prop where
  kind_eq : new.kind = old.kind
  text_eq : new.text = old.text

namespace Piece

variable {shape : Shape} {text rest : List Char} {next : Option Char}

theorem Fits.without_directive (fits : Fits shape text (some '#')) (noSpacing : shape ≠ .spacing)
    (stops : Stops (!Text.isLineBreak ·) next) : Fits shape text next := by
  have goesOn : ¬Stops (!Text.isLineBreak ·) (some '#') := by
    rw [stops_some]
    decide
  cases shape with
  | spacing => contradiction
  | lineComment =>
      cases fits with
      | lineComment inLine stopsBefore => exact (goesOn stopsBefore).elim
  | directive =>
      cases fits with
      | directive inLine stopsBefore => exact (goesOn stopsBefore).elim
  | blockComment closed =>
      cases fits with
      | closedComment inside => exact .closedComment inside
  | token kind closed =>
      cases closed with
      | false => cases fits
      | true =>
          cases next with
          | none => exact fits.at_end
          | some character =>
              have breaks : Text.isLineBreak character = true := by simpa using stops
              exact fits.token_before_spacing (by simp [Text.isSpacing,
                Text.isBlank_of_isLineBreak breaks])

theorem actsLike_elsewhere (shape : Shape) (text : List Char) (place newPlace : Place) :
    List.Forall₂ (ActsLike Token.SameText) ([⟨shape, text, place⟩].filter (!·.isSilent))
      ([⟨shape, text, newPlace⟩].filter (!·.isSilent)) := by
  have acts : ActsLike Token.SameText ⟨shape, text, place⟩ ⟨shape, text, newPlace⟩ := by
    refine ⟨rfl, rfl, ?_⟩
    cases shape with
    | token kind closed => exact .cons ⟨rfl, rfl⟩ .nil
    | spacing | lineComment | blockComment closed | directive => exact .nil
  have sameSilent : isSilent ⟨shape, text, newPlace⟩ = isSilent ⟨shape, text, place⟩ := rfl
  rw [List.filter_singleton, List.filter_singleton, sameSilent]
  cases isSilent ⟨shape, text, place⟩ with
  | true => exact .nil
  | false => exact .cons acts .nil

end Piece

namespace Conditions.Remains

variable {free : Bool} {conditions : Conditions} {place : Place} {text other : List Char}

/-- What fits before a text fits before what remains of it, as long as spacing has to start with
the same character. -/
theorem fits {shape : Piece.Shape} {run : List Char}
    (remains : conditions.Remains false (Piece.listFrom place text) other)
    (fitsBefore : Piece.Fits shape run text.head?) (noSpacing : shape ≠ .spacing) :
    Piece.Fits shape run other.head? := by
  induction place, text using Piece.cutInduction generalizing conditions shape run with
  | nil place =>
      rw [Piece.listFrom_nil] at remains
      cases remains
      exact fitsBefore
  | piece place lineShape line rest lineFits ih =>
      rw [Piece.listFrom_append place lineFits] at remains
      rw [List.head?_append_of_ne_nil _ lineFits.ne_nil] at fitsBefore
      cases remains with
      | unmatched isUnmatched later =>
          obtain ⟨directive, cause, isDirective, -⟩ := exists_fault?_of_isUnmatched isUnmatched
          cases lineShape with
          | directive =>
              -- The line itself fits before what remains, so that a line break comes there.
              cases ih later lineFits (by simp) with
              | directive inLine stops => exact fitsBefore.without_directive noSpacing stops
          | spacing | lineComment | blockComment closed | token kind closed => contradiction
      | matched isMatched later => rwa [List.head?_append_of_ne_nil _ lineFits.ne_nil]
      | @spacing _ _ _ _ blanks later isSpacing blank starts =>
          rcases starts rfl with sameHead | isEmpty
          · have notEmpty : blanks ≠ [] := by
              rintro rfl
              exact lineFits.ne_nil (List.head?_eq_none_iff.1 sameHead.symm)
            rwa [List.head?_append_of_ne_nil _ notEmpty, sameHead]
          · rw [isEmpty]
            exact fitsBefore.at_end

/-- Without its unmatched lines a text is cut into the other pieces, up to the spacing between
them. -/
theorem actsLike (remains : conditions.Remains free (Piece.listFrom place text) other)
    (newPlace : Place) :
    List.Forall₂ (Piece.ActsLike Token.SameText)
      ((conditions.matchedPieces (Piece.listFrom place text)).filter (!·.isSilent))
      (Piece.lexemesFrom newPlace other) := by
  induction place, text using Piece.cutInduction generalizing free conditions other newPlace with
  | nil place =>
      rw [Piece.listFrom_nil] at remains ⊢
      cases remains
      rw [Piece.lexemesFrom_nil]
      exact .nil
  | piece place shape text rest fits ih =>
      rw [Piece.listFrom_append place fits] at remains ⊢
      rw [matchedPieces]
      cases remains with
      | unmatched isUnmatched later =>
          rw [if_pos isUnmatched]
          exact ih later newPlace
      | @matched _ _ _ _ other isMatched later =>
          rw [if_neg (by simp [isMatched]), ← List.singleton_append, List.filter_append]
          by_cases isSpacing : shape = .spacing
          · subst isSpacing
            rw [Piece.lexemesFrom_spacing _ newPlace (Piece.forall_blank_of_fits fits)]
            exact ih later _
          · rw [Piece.lexemesFrom_append newPlace (later.fits fits isSpacing)]
            exact List.rel_append (Piece.actsLike_elsewhere shape text place newPlace) (ih later _)
      | spacing isSpacing blank starts later =>
          obtain rfl : shape = .spacing := isSpacing
          rw [if_neg (by simp [isUnmatched, Piece.directive?]),
            Piece.lexemesFrom_spacing _ newPlace blank]
          exact ih later _

end Conditions.Remains

theorem Conditions.filter_unclosed (conditions : Conditions) :
    conditions.unclosed.filter (!·.cause.isUnmatched) = conditions.unclosed := by
  refine List.filter_eq_self.2 fun issue member => ?_
  obtain ⟨conditional, -, rfl⟩ := List.mem_map.1 member
  rfl

theorem Preprocessed.ofPieces_matchedPieces (conditions : Conditions) (pieces : List Piece) :
    let plain := ofPieces conditions pieces
    let left := ofPieces conditions (conditions.matchedPieces pieces)
    left.tokens = plain.tokens ∧ left.symbols.defined = plain.symbols.defined ∧
      (∀ symbol, symbol ∈ plain.symbols.checked ↔ symbol ∈ left.symbols.checked ∨
        Piece.Tested (conditions.unmatchedLines pieces) symbol) ∧
      left.issues = plain.issues.filter (!·.cause.isUnmatched) := by
  have same : conditions.SameDefined conditions := ⟨rfl, rfl⟩
  obtain ⟨sameTokens, sameIssues, sameEnd⟩ := same.run_matchedPieces pieces
  rw [ofPieces_eq, ofPieces_eq]
  refine ⟨sameTokens, sameEnd.defined_eq, fun symbol => ?_, ?_⟩
  · rw [Conditions.mem_checked_afterAll, Conditions.mem_checked_afterAll,
      conditions.tested_iff pieces symbol, or_assoc]
  · have sameUnclosed : (conditions.afterAll (conditions.matchedPieces pieces)).unclosed =
        (conditions.afterAll pieces).unclosed := by
      rw [Conditions.unclosed, Conditions.unclosed, sameEnd.conditionals_eq]
    rw [List.filter_append, sameIssues, sameUnclosed, Conditions.filter_unclosed]

/-- A directive that is unmatched leaves the conditionals and the defined symbols as they are,
and of the checked symbols only the one on an `#elif` line is new.  Without its unmatched lines a
source shows tokens of the same kinds with the same texts, defines the same symbols and has the
other issues.  The symbols that only those lines ask for are no longer checked. -/
theorem unmatched_lines_left_out (conditions : Conditions) (directive : Directive) (line : Span)
    (source : String) (symbols : SymbolTable) :
    ((conditions.fault? directive).isSome = true →
      let next := conditions.apply directive line
      next.conditionals = conditions.conditionals ∧
        next.symbols.defined = conditions.symbols.defined ∧
        (∀ symbol, symbol ∈ next.symbols.checked ↔ symbol ∈ conditions.symbols.checked ∨
          (symbol ≠ "" ∧ directive = .elseIfDefined symbol)) ∧
        (next = conditions ↔ ∀ symbol, directive = .elseIfDefined symbol →
          symbol = "" ∨ symbol ∈ conditions.symbols.checked)) ∧
      let pieces := Piece.listOfText source
      let start := Conditions.initial symbols
      start.Remains true pieces ((start.matchedPieces pieces).flatMap Piece.text) ∧
        ∀ other : String, start.Remains true pieces other.toList →
          let plain := Preprocessed.ofText source symbols
          let left := Preprocessed.ofText other symbols
          left.tokens.map (fun token => (token.kind, token.text)) =
              plain.tokens.map (fun token => (token.kind, token.text)) ∧
            left.symbols.defined = plain.symbols.defined ∧
            (∀ symbol, symbol ∈ plain.symbols.checked ↔ symbol ∈ left.symbols.checked ∨
              Piece.Tested (start.unmatchedLines pieces) symbol) ∧
            (left.symbols = plain.symbols ↔ ∀ symbol,
              Piece.Tested (start.unmatchedLines pieces) symbol →
                symbol ∈ left.symbols.checked) ∧
            left.issues.map Issue.cause =
              (plain.issues.map Issue.cause).filter (!·.isUnmatched) := by
  constructor
  · intro isFault next
    obtain ⟨cause, isCause⟩ := Option.isSome_iff_exists.1 isFault
    obtain ⟨sameConditionals, sameDefined, checked, -⟩ := Conditions.apply_of_fault? isCause line
    exact ⟨sameConditionals, sameDefined, checked, Conditions.apply_eq_self_iff isCause line⟩
  · refine ⟨Conditions.remains_matchedPieces _ _ _, ?_⟩
    intro other remains plain left
    have act := Conditions.Remains.actsLike remains Place.start
    obtain ⟨tokensAlike, symbolsEq, causesEq⟩ :=
      Preprocessed.ofPieces_actsLike (.initial symbols) act
    rw [Preprocessed.ofPieces_filter, ← Preprocessed.ofText_eq_ofPieces_lexemesFrom,
      ← Piece.listOfText_eq] at tokensAlike symbolsEq causesEq
    obtain ⟨sameTokens, sameDefined, checked, sameIssues⟩ :=
      Preprocessed.ofPieces_matchedPieces (.initial symbols) (Piece.listOfText source)
    rw [sameTokens] at tokensAlike
    rw [← symbolsEq] at sameDefined checked
    refine ⟨Token.map_eq_of_forall₂ (tokensAlike.imp fun _ _ same => ?_), sameDefined, checked,
      ?_, ?_⟩
    · rw [same.kind_eq, same.text_eq]
    · refine (SymbolTable.eq_iff_of_defined_eq sameDefined).trans (forall_congr' fun symbol => ?_)
      rw [checked]
      tauto
    · rw [sameIssues] at causesEq
      rw [List.filter_map]
      exact causesEq

/-- Two lines taken out with their line breaks, of which the second asks for a symbol. -/
theorem unmatched_lines_left_out_with_breaks :
    let source := "a\n  #else\nb\n#elif X\n"
    let other := "a\nb\n"
    (Conditions.initial .empty).fault? .endIf = some .unmatchedEndIf ∧
      ((Conditions.initial .empty).apply .endIf .nowhere).conditionals = [] ∧
      (Conditions.initial .empty).Remains true (Piece.listOfText source) other.toList ∧
      (Preprocessed.ofText other .empty).issues.map Issue.cause = [] ∧
      (Preprocessed.ofText source .empty).symbols.checked.toList = ["X"] ∧
      (Preprocessed.ofText other .empty).symbols.checked.toList = [] := by
  intro source other
  let first : Piece := ⟨.token .word true, ['a'], .start⟩
  let second : Piece := ⟨.token .word true, ['b'], ⟨2, 0, 10⟩⟩
  have isList : Piece.listOfText source =
      [first, ⟨.spacing, "\n  ".toList, ⟨0, 1, 1⟩⟩, ⟨.directive, "#else".toList, ⟨1, 2, 4⟩⟩,
        ⟨.spacing, ['\n'], ⟨1, 7, 9⟩⟩, second, ⟨.spacing, ['\n'], ⟨2, 1, 11⟩⟩,
        ⟨.directive, "#elif X".toList, ⟨3, 0, 12⟩⟩, ⟨.spacing, ['\n'], ⟨3, 7, 19⟩⟩] := by
    decide +kernel
  have isOther : other.toList =
      first.text ++ (['\n'] ++ ([] ++ (second.text ++ (['\n'] ++ ([] ++ []))))) := by
    decide +kernel
  have remains : (Conditions.initial .empty).Remains true (Piece.listOfText source)
      other.toList := by
    rw [isList, isOther]
    have newline := Piece.isSpacing_newline
    have nothing : ∀ character ∈ [], Text.isSpacing character = true := List.forall_mem_nil _
    refine .matched rfl (.spacing rfl newline (by decide) (.unmatched ?_ (.spacing rfl nothing
      (by decide) (.matched rfl (.spacing rfl newline (by decide) (.unmatched ?_ (.spacing rfl
        nothing (by decide) .nil)))))))
    · decide +kernel
    · decide +kernel
  obtain ⟨ofDirective, -, ofSource⟩ :=
    unmatched_lines_left_out (.initial .empty) .endIf .nowhere source .empty
  have noConditionals := (ofDirective rfl).1
  obtain ⟨-, -, -, -, causes⟩ := ofSource other remains
  refine ⟨rfl, noConditionals, remains, causes.trans ?_, ?_, ?_⟩
  · decide +kernel
  · decide +kernel
  · decide +kernel

/-- An `#elif` line outside every conditional checks its symbol. -/
theorem unmatched_line_checks_symbol :
    ¬∀ (conditions : Conditions) (directive : Directive) (line : Span),
      (conditions.fault? directive).isSome = true →
        conditions.apply directive line = conditions := by
  intro claimed
  have same := claimed (.initial .empty) (.elseIfDefined "X") .nowhere rfl
  exact absurd same (by decide +kernel)

end ObjectIds
