import ObjectIds.Proofs.ConditionalBlocks
import ObjectIds.Proofs.DeclarationSites
import ObjectIds.Proofs.HeaderSteps
import ObjectIds.Proofs.OpaqueBodies
import ObjectIds.Proofs.RecoveryNotes
import ObjectIds.Proofs.ShiftedText

/-!
# Texts after one another

Scanning is compositional over lines.  When a text leaves nothing open at its end, another
text can follow on a line of its own.  Scanning the two as one finds what scanning them one
after the other finds, with the symbols of the first handed on to the second.
-/

namespace ObjectIds

/-- Whether an issue is noted because the text ends too early. -/
def Issue.Cause.leavesOpen : Issue.Cause → Bool
  | .unterminatedString | .unterminatedQuotedIdentifier | .unterminatedComment
  | .unclosedConditional => true
  | .unmatchedEndIf | .unmatchedElseIf | .unmatchedElse => false

/-- The spans of the id and of the name. -/
def Declaration.spans (declaration : Declaration) : List Span :=
  declaration.idSpan.toList ++ declaration.nameSpan.toList

/-- Whether 32 bits can count the lines before a position that has been moved down. -/
def Position.ShiftsExactly (lines : Nat) (position : Position) : Prop :=
  (position.shift lines).line.toNat = position.line.toNat + lines

/-- Whether 32 bits can count the bytes before the ends of a span that has been moved on. -/
structure Span.ShiftsExactly (bytes : Nat) (span : Span) : Prop where
  start_eq : (span.shift bytes).start.toNat = span.start.toNat + bytes
  stop_eq : (span.shift bytes).stop.toNat = span.stop.toNat + bytes

/-- A span of a text of so many bytes. -/
structure Span.Within (size : Nat) (span : Span) : Prop where
  start_le : span.start.toNat ≤ size
  stop_le : span.stop.toNat ≤ size

theorem Issue.Cause.leavesOpen_of_not_isUnbalanced {cause : Cause}
    (balanced : cause.isUnbalanced = false) : cause.leavesOpen = true := by
  cases cause with
  | unterminatedString | unterminatedQuotedIdentifier | unterminatedComment => rfl
  | unmatchedEndIf | unmatchedElseIf | unmatchedElse | unclosedConditional => contradiction

theorem UInt32.toNat_add_ofNat {number : UInt32} {amount : Nat}
    (small : number.toNat + amount < UInt32.size) :
    (number + UInt32.ofNat amount).toNat = number.toNat + amount := by
  have amountSmall : amount < UInt32.size := Nat.lt_of_le_of_lt (Nat.le_add_left _ _) small
  rw [UInt32.toNat_add, UInt32.toNat_ofNat_of_lt' amountSmall]
  exact Nat.mod_eq_of_lt small

theorem Span.Within.shiftsExactly {size bytes : Nat} {span : Span}
    (within : span.Within size) (small : size + bytes < UInt32.size) :
    span.ShiftsExactly bytes := by
  obtain ⟨start, stop⟩ := within
  constructor
  · exact UInt32.toNat_add_ofNat (by omega)
  · exact UInt32.toNat_add_ofNat (by omega)

theorem Text.count_newline_le (text : List Char) : text.count '\n' ≤ byteLength text := by
  have covered := (Place.covered_advance_start text).line
  rw [Place.line_advance, Place.offset_advance_start] at covered
  exact Nat.le_trans (Nat.le_add_left _ _) covered

/-- The place after a text and a newline is the start of a text further down. -/
theorem Place.advance_newline (text : List Char) :
    start.advance (text ++ ['\n']) =
      start.shift (text.count '\n' + 1) (Text.byteLength text + 1) := by
  have newlineSize : '\n'.utf8Size = 1 := by decide
  rw [advance_append, advance_cons, advance_nil, step, if_pos rfl, line_advance,
    offset_advance_start, newlineSize]
  simp [start, shift, Nat.add_comm]

section Settled

variable {source : String} {symbols : SymbolTable}

/-- A text that leaves nothing open is cut into closed pieces. -/
theorem Piece.isClosed_of_settled
    (settled : ∀ issue ∈ (Preprocessed.ofText source symbols).issues,
      issue.cause.leavesOpen = false) :
    ∀ piece ∈ listFrom .start source.toList, piece.shape.isClosed = true := by
  intro piece member
  apply isClosed_of_fault? member
  -- Otherwise the run to the end of the text would be among the issues.
  by_contra isFault
  obtain ⟨cause, isCause⟩ := Option.ne_none_iff_exists'.1 isFault
  have isNote : piece.faultNote? = some ⟨cause, piece.span⟩ := by simp [faultNote?, isCause]
  have met := Conditions.metIssues_listFrom symbols [] Place.start source.toList
  rw [Preprocessed.ofText, Preprocessed.ofPieces_eq, listOfText_eq] at settled
  have noted : ⟨cause, piece.span⟩ ∈
      (Conditions.initial symbols).metIssues (listFrom .start source.toList) := by
    rw [← Conditions.afterAll_nil (Conditions.initial symbols), met]
    exact List.mem_append_right _ (List.mem_filterMap.2 ⟨piece, member, isNote⟩)
  have closes := settled _ (List.mem_append_left _ noted)
  have leavesOpen := Issue.Cause.leavesOpen_of_not_isUnbalanced
    (Conditions.isUnbalanced_of_fault? isCause)
  simp [leavesOpen] at closes

/-- Pieces that leave nothing open leave no conditional open. -/
theorem Conditions.conditionals_of_settled {conditions : Conditions} {pieces : List Piece}
    (settled : ∀ issue ∈ (Preprocessed.ofPieces conditions pieces).issues,
      issue.cause.leavesOpen = false) :
    (conditions.afterAll pieces).conditionals = [] := by
  rw [Preprocessed.ofPieces_eq] at settled
  apply List.eq_nil_iff_forall_not_mem.2
  intro conditional isOpen
  have noted : ⟨.unclosedConditional, conditional.opening⟩ ∈
      (conditions.afterAll pieces).unclosed :=
    List.mem_map.2 ⟨conditional, List.mem_reverse.2 isOpen, rfl⟩
  have closes := settled _ (List.mem_append_right _ noted)
  contradiction

/-- Where no conditional is open, preprocessing starts anew with the symbols at hand. -/
theorem Preprocessed.ofPieces_append {conditions : Conditions} {first : List Piece}
    (second : List Piece) (noneOpen : (conditions.afterAll first).conditionals = []) :
    ofPieces conditions (first ++ second) =
      let before := ofPieces conditions first
      let after := ofPieces (Conditions.initial before.symbols) second
      ⟨before.tokens ++ after.tokens, after.symbols, before.issues ++ after.issues⟩ := by
  have anew : conditions.afterAll first =
      Conditions.initial (conditions.afterAll first).symbols := by
    rw [Conditions.initial, ← noneOpen]
  have noneUnclosed : (conditions.afterAll first).unclosed = [] := by
    simp [Conditions.unclosed, noneOpen]
  simp only [ofPieces_eq, ← anew, noneUnclosed, Conditions.visibleTokens_append,
    Conditions.metIssues_append, Conditions.afterAll_append, List.append_nil,
    List.append_assoc]

/-- A text that leaves nothing open is preprocessed by itself, and a text after it further
down and with the symbols that the first one leaves. -/
theorem Preprocessed.ofText_append_newline (second : String)
    (settled : ∀ issue ∈ (ofText source symbols).issues, issue.cause.leavesOpen = false) :
    let lines := source.toList.count '\n' + 1
    let bytes := source.utf8ByteSize + 1
    let before := ofText source symbols
    let after := (ofText second before.symbols).shift lines bytes
    ofText (source ++ "\n" ++ second) symbols =
      ⟨before.tokens ++ after.tokens, after.symbols, before.issues ++ after.issues⟩ := by
  intro lines bytes before after
  have closed := Piece.isClosed_of_settled settled
  have isText : (source ++ "\n" ++ second).toList =
      source.toList ++ '\n' :: second.toList := by simp
  have isPlace : Place.start.advance (source.toList ++ ['\n']) =
      Place.start.shift lines bytes := by
    rw [Place.advance_newline, Text.byteLength_toList]
  have noneOpen : ((Conditions.initial symbols).afterAll
      (Piece.lexemesFrom .start source.toList)).conditionals = [] := by
    rw [ofText_eq_ofPieces_lexemesFrom] at settled
    exact Conditions.conditionals_of_settled settled
  have shifted := ofPieces_shift lines bytes (Conditions.initial before.symbols)
    (Piece.lexemesFrom .start second.toList)
  rw [ofText_eq_ofPieces_lexemesFrom, isText,
    Piece.lexemesFrom_append_newline _ _ _ closed, isPlace, Piece.lexemesFrom_shift,
    ofPieces_append _ noneOpen, ← ofText_eq_ofPieces_lexemesFrom]
  have sameConditions : (Conditions.initial before.symbols).shift bytes =
      Conditions.initial before.symbols := rfl
  rw [sameConditions, ← ofText_eq_ofPieces_lexemesFrom] at shifted
  simp only [before, after, shifted]

end Settled

section Exactness

variable {source : String} {symbols : SymbolTable}

theorem Piece.within_span {piece : Piece} (short : source.utf8ByteSize < UInt32.size)
    (member : piece ∈ listOfText source) : piece.span.Within source.utf8ByteSize := by
  obtain ⟨before, after, stands⟩ := exists_standsIn short member
  have size := Text.byteLength_toList source
  rw [stands.source_eq, Text.byteLength_append] at size
  have first := stands.first_byte
  have last := stands.last_byte
  rw [Text.byteLength_append] at size last
  constructor <;> omega

/-- The tokens of a text stand on its lines and in its bytes. -/
theorem Preprocessed.within_tokens (short : source.utf8ByteSize < UInt32.size)
    {token : Token} (member : token ∈ (ofText source symbols).tokens) :
    token.position.line.toNat ≤ source.toList.count '\n' ∧
      token.span.Within source.utf8ByteSize := by
  rw [ofText, ofPieces_eq] at member
  have isShown := (Conditions.visibleTokens_sublist _ _).mem member
  constructor
  · obtain ⟨before, after, isSource, stands⟩ := Token.exists_standsAfter short isShown
    rw [stands.line_eq, isSource, List.append_assoc, List.count_append]
    exact Nat.le_add_right _ _
  · obtain ⟨piece, isPiece, isToken⟩ := List.mem_filterMap.1 isShown
    rw [(Piece.text_of_token? isToken).2]
    exact Piece.within_span short isPiece

/-- An issue is noted at a piece, or at the line of a conditional that was open before. -/
theorem Preprocessed.span_of_mem_issues {conditions : Conditions} {pieces : List Piece}
    {issue : Issue} (member : issue ∈ (ofPieces conditions pieces).issues) :
    (∃ piece ∈ pieces, issue.span = piece.span) ∨ issue.span ∈ conditions.openings := by
  induction pieces generalizing conditions with
  | nil =>
      rw [ofPieces_nil, Conditions.unclosed_eq] at member
      obtain ⟨line, isOpen, rfl⟩ := List.mem_map.1 member
      exact .inr (List.mem_reverse.1 isOpen)
  | cons piece pieces ih =>
      rw [ofPieces_cons] at member
      rcases List.mem_append.1 member with isHere | isLater
      · rw [Option.mem_toList, Conditions.issue?] at isHere
        obtain ⟨cause, -, rfl⟩ := Option.map_eq_some_iff.1 isHere
        exact .inl ⟨piece, List.mem_cons_self, rfl⟩
      · rcases ih isLater with ⟨other, isPiece, sameSpan⟩ | isOpen
        · exact .inl ⟨other, List.mem_cons_of_mem _ isPiece, sameSpan⟩
        · rw [Conditions.openings_after] at isOpen
          split at isOpen
          · rcases List.mem_cons.1 isOpen with sameSpan | wasOpen
            · exact .inl ⟨piece, List.mem_cons_self, sameSpan⟩
            · exact .inr wasOpen
          · split at isOpen
            · exact .inr (List.mem_of_mem_tail isOpen)
            · exact .inr isOpen

/-- A declaration says where its tokens stand, and nothing else about places. -/
theorem Declaration.tokens_of_mem {tokens : List Token} {declaration : Declaration}
    (member : declaration ∈ listOfTokens tokens) :
    (∃ token ∈ tokens, declaration.position = token.position) ∧
      ∀ span ∈ declaration.spans, ∃ token ∈ tokens, span = token.span := by
  obtain ⟨sites, areFound, allStand, -⟩ := exists_sites tokens 0
  rw [List.drop_zero] at areFound
  rw [← areFound] at member
  obtain ⟨site, isSite, rfl⟩ := List.mem_map.1 member
  obtain ⟨-, ⟨token, isKeyword, -, -, samePosition⟩, front, -⟩ :=
    (allStand site isSite).1.spells
  refine ⟨⟨token, List.mem_of_getElem? isKeyword, samePosition⟩, fun span isSpan => ?_⟩
  rcases List.mem_append.1 isSpan with isId | isName
  · rw [Option.mem_toList] at isId
    by_cases hasId : .id ∈ site.kind.parts
    · obtain ⟨token, id, isFirst, -, -, idSpan⟩ := front.id hasId
      rw [idSpan] at isId
      exact ⟨token, List.mem_of_mem_drop (List.mem_of_mem_head? isFirst),
        (Option.some.inj isId).symm⟩
    · rw [(front.noId hasId).2] at isId
      contradiction
  · rw [Option.mem_toList] at isName
    by_cases hasName : .name ∈ site.kind.parts
    · obtain ⟨token, isToken, -, -, nameSpan⟩ := front.name hasName
      rw [nameSpan] at isName
      exact ⟨token, List.mem_of_mem_drop (List.mem_of_getElem? isToken),
        (Option.some.inj isName).symm⟩
    · rw [(front.noName hasName).2] at isName
      contradiction

end Exactness

section Lines

variable {first second : String} {symbols others : SymbolTable}

theorem Preprocessed.shiftsExactly_position
    (short : first.utf8ByteSize + 1 + second.utf8ByteSize < UInt32.size) {token : Token}
    (member : token ∈ (ofText second others).tokens) :
    token.position.ShiftsExactly (first.toList.count '\n' + 1) := by
  have onLine := (within_tokens (by omega) member).1
  have firstLines := Text.count_newline_le first.toList
  have secondLines := Text.count_newline_le second.toList
  rw [Text.byteLength_toList] at firstLines secondLines
  exact UInt32.toNat_add_ofNat (by omega)

/-- The tokens of a text share no line with those of a text on the lines after it. -/
theorem Preprocessed.line_ne_of_shift (others : SymbolTable) (bytes : Nat)
    (short : first.utf8ByteSize + 1 + second.utf8ByteSize < UInt32.size) :
    let lines := first.toList.count '\n' + 1
    ∀ token ∈ (ofText first symbols).tokens,
      ∀ later ∈ ((ofText second others).shift lines bytes).tokens,
        later.position.line ≠ token.position.line := by
  intro lines token isToken later isLater sameLine
  obtain ⟨original, isOriginal, rfl⟩ := List.mem_map.1 isLater
  have onLine := (within_tokens (by omega) isToken).1
  have further : (original.shift lines bytes).position.line.toNat =
      original.position.line.toNat + lines := shiftsExactly_position short isOriginal
  rw [← sameLine, further] at onLine
  omega

end Lines

/-- A text that leaves nothing open, and none of whose headers breaks off at its end, can be
followed by another text on a new line.  The scan of both together finds what the scans of
the two find one after the other, the second with the symbols that the first leaves, and
further down by the lines and bytes of the first. -/
theorem scan_append_newline (first second : String) (symbols : SymbolTable)
    (short : (first ++ "\n" ++ second).utf8ByteSize < UInt32.size)
    (settled : ∀ issue ∈ (Scan.ofText first symbols).issues, issue.cause.leavesOpen = false)
    (inside : ∀ step ∈ Declaration.steps (Preprocessed.ofText first symbols).tokens,
      step.StaysInside) :
    let lines := first.toList.count '\n' + 1
    let bytes := first.utf8ByteSize + 1
    let before := Scan.ofText first symbols
    let after := Scan.ofText second before.symbols
    Scan.sequence symbols [first, second] = [before, after] ∧
      Scan.ofText (first ++ "\n" ++ second) symbols =
        ⟨before.declarations ++ after.declarations.map (Declaration.shift lines bytes),
          after.symbols, before.issues ++ after.issues.map (Issue.shift bytes)⟩ ∧
      (∀ declaration ∈ after.declarations, declaration.position.ShiftsExactly lines ∧
        ∀ span ∈ declaration.spans, span.ShiftsExactly bytes) ∧
      ∀ issue ∈ after.issues, issue.span.ShiftsExactly bytes := by
  intro lines bytes before after
  have newlineSize : "\n".utf8ByteSize = 1 := by decide
  rw [String.utf8ByteSize_append, String.utf8ByteSize_append, newlineSize] at short
  have secondShort : second.utf8ByteSize < UInt32.size := by omega
  have spansExact {span : Span} (within : span.Within second.utf8ByteSize) :
      span.ShiftsExactly bytes := within.shiftsExactly (by omega)
  refine ⟨rfl, ?_, fun declaration member => ?_, fun issue member => ?_⟩
  · have found := Declaration.listOfTokens_append _ inside
      (Preprocessed.line_ne_of_shift before.symbols bytes short)
    have moved := Declaration.listOfTokens_relocate (Span.shift bytes)
      (Position.shift_line_iff lines) (Preprocessed.ofText second before.symbols).tokens
    rw [Scan.ofText, Preprocessed.ofText_append_newline second settled]
    exact congrArg (Scan.mk · after.symbols _) (found.trans (congrArg _ moved))
  · obtain ⟨⟨token, isToken, samePosition⟩, spans⟩ := Declaration.tokens_of_mem member
    constructor
    · rw [samePosition]
      exact Preprocessed.shiftsExactly_position short isToken
    · intro span isSpan
      obtain ⟨token, isToken, rfl⟩ := spans span isSpan
      exact spansExact (Preprocessed.within_tokens secondShort isToken).2
  · rcases Preprocessed.span_of_mem_issues member with ⟨piece, isPiece, sameSpan⟩ | isOpen
    · rw [sameSpan]
      exact spansExact (Piece.within_span secondShort isPiece)
    · contradiction

/-- The second text sees the symbol that the first one defines.  The header of the table
breaks off at a token, and the last line of the first text ends with noise. -/
theorem scan_append_newline_with_defined_symbol :
    let first := "#endif\n#define B\ntable x\npage 5 \"é\" \x7b \x7d := // c"
    let second := "#if B\nenum 7 C implements I \x7b \x7d\n#endif\n#else"
    let lines := first.toList.count '\n' + 1
    let bytes := first.utf8ByteSize + 1
    let before := Scan.ofText first .empty
    let after := Scan.ofText second before.symbols
    (first ++ "\n" ++ second).utf8ByteSize < UInt32.size ∧
      (∀ issue ∈ before.issues, issue.cause.leavesOpen = false) ∧
      (∀ step ∈ Declaration.steps (Preprocessed.ofText first .empty).tokens,
        step.StaysInside) ∧
      lines = 4 ∧ bytes = 49 ∧
      before.declarations.map Declaration.name = [some "é"] ∧
      after.declarations.map Declaration.name = [some "C"] ∧
      before.issues = [⟨.unmatchedEndIf, ⟨0, 6⟩⟩] ∧
      after.issues = [⟨.unmatchedElse, ⟨39, 44⟩⟩] ∧
      Scan.ofText (first ++ "\n" ++ second) .empty =
        ⟨before.declarations ++ after.declarations.map (Declaration.shift lines bytes),
          after.symbols, before.issues ++ after.issues.map (Issue.shift bytes)⟩ := by
  intro first second lines bytes before after
  have short : (first ++ "\n" ++ second).utf8ByteSize < UInt32.size := by decide +kernel
  have settled : ∀ issue ∈ before.issues, issue.cause.leavesOpen = false := by decide +kernel
  have inside : ∀ step ∈ Declaration.steps (Preprocessed.ofText first .empty).tokens,
      step.StaysInside := by decide +kernel
  obtain ⟨-, joined, -⟩ := scan_append_newline first second .empty short settled inside
  refine ⟨short, settled, inside, ?_, ?_, ?_, ?_, ?_, ?_, joined⟩
  · decide +kernel
  · decide +kernel
  · decide +kernel
  · decide +kernel
  · decide +kernel
  · decide +kernel

end ObjectIds
