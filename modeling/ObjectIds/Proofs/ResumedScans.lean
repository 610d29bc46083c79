import Mathlib.Data.List.ReduceOption
import ObjectIds.Proofs.Lookahead
import ObjectIds.Proofs.Relocation
import ObjectIds.TokenStream.Scan

/-!
# Scans that are resumed

A stream stands for what is left of a preprocessed text: it has still to give the tokens,
and it will leave the symbols and note the issues.  Each reader of a stream does to it what
the reader of a list of tokens does to the list, however far it has looked ahead.  So a scan
of the stream finds what a scan of the whole text finds, also when it stops after some
declarations and goes on later, and every scan reads its text to the end.
-/

namespace ObjectIds

namespace Declaration

/-- Only at the end of the tokens there is no next declaration. -/
theorem rest_eq_nil_of_next {tokens : List Token} (notFound : (next tokens).1 = none) :
    (next tokens).2 = [] := by
  fun_induction next tokens with
  | case1 => rfl
  | case2 token rest kind isKind header complete => contradiction
  | case3 token rest kind isKind header incomplete shorter ih => exact ih notFound
  | case4 token rest noKind shorter ih => exact ih notFound

@[simp]
theorem listOfTokens_nil : listOfTokens [] = [] := by
  rw [listOfTokens_eq, next]

/-- The declarations are the next one and those after it, if there is a next one. -/
theorem listOfTokens_eq_next (tokens : List Token) :
    listOfTokens tokens = (next tokens).1.toList ++ listOfTokens (next tokens).2 := by
  rw [listOfTokens_eq]
  rcases isNext : next tokens with ⟨_ | declaration, rest⟩
  · obtain rfl : rest = [] := by
      simpa [isNext] using @rest_eq_nil_of_next tokens (by rw [isNext])
    simp
  · rfl

end Declaration

namespace TokenStream

/-- A stream that has still to give the tokens of a text, and will leave its symbols and
note its issues. -/
structure StandsFor (stream : TokenStream) (text : Preprocessed) : Prop where
  remaining_eq : stream.remaining = text.tokens
  symbols_eq : stream.final.symbols = text.symbols
  willNote : stream.WillNote text.issues

theorem standsFor_ofText (source : String) (symbols : SymbolTable) :
    (ofText source symbols).StandsFor (Preprocessed.ofText source symbols) := by
  refine ⟨?_, ?_, willNote_ofText source symbols⟩
  · rw [Preprocessed.ofText, Preprocessed.ofPieces_eq]
    rfl
  · rw [Preprocessed.ofText, Preprocessed.ofPieces_eq]
    rfl

section Equations

variable (stream : TokenStream)

theorem readNames_eq :
    stream.readNames =
      match stream.readIf Token.isIdentifier with
      | (none, later) => ⟨false, [], later⟩
      | (some name, afterName) =>
          match afterName.readIf (·.isSymbol ",") with
          | (none, later) => ⟨true, [name.value], later⟩
          | (some _, afterComma) =>
              let others := afterComma.readNames
              ⟨others.found, name.value :: others.names, others.later⟩ := by
  rw [readNames]
  split
  · rename_i isName
    simp only [isName]
  · rename_i isName
    simp only [isName]
    split
    · rename_i isComma
      simp only [isComma]
    · rename_i isComma
      simp only [isComma]

theorem skipToClosing_eq (depth : Nat) :
    stream.skipToClosing depth =
      match stream.read with
      | (none, later) => (false, later)
      | (some token, later) =>
          if token.isSymbol "\x7b" then later.skipToClosing (depth + 1)
          else if token.isSymbol "\x7d" then
            match depth with
            | 0 => (true, later)
            | depth + 1 => later.skipToClosing depth
          else later.skipToClosing depth := by
  rw [skipToClosing]
  split
  · rename_i isNext
    simp only [isNext]
  · rename_i isNext
    cases depth <;> simp only [isNext]

theorem skipLine_eq (line : UInt32) :
    stream.skipLine line =
      match stream.readIf (·.position.line == line) with
      | (none, later) => later
      | (some _, later) => later.skipLine line := by
  rw [skipLine]
  split
  · rename_i isNext
    simp only [isNext]
  · rename_i isNext
    simp only [isNext]

theorem nextDeclaration_eq :
    stream.nextDeclaration =
      match stream.attempt with
      | (.atEnd, later) => (none, later)
      | (.found declaration, later) => (some declaration, later)
      | (.discarded _, later) => later.nextDeclaration
      | (.skipped _, later) => later.nextDeclaration := by
  rw [nextDeclaration]
  split <;> rename_i isAttempt <;> simp only [isAttempt]

theorem declarations_eq :
    stream.declarations =
      match stream.nextDeclaration with
      | (none, later) => ([], later)
      | (some declaration, later) =>
          (declaration :: later.declarations.1, later.declarations.2) := by
  rw [declarations]
  split <;> rename_i isNext <;> simp only [isNext]

end Equations

namespace StandsFor

variable {stream : TokenStream} {tokens rest : List Token} {token : Token}
  {symbols : SymbolTable} {issues : List Issue}

section Tokens

theorem read (stands : stream.StandsFor ⟨tokens, symbols, issues⟩) :
    ∃ later, stream.read = (tokens.head?, later) ∧
      later.StandsFor ⟨tokens.tail, symbols, issues⟩ := by
  obtain ⟨remaining, finalSymbols, willNote⟩ := stands
  refine ⟨stream.read.2, Prod.ext ?_ rfl, ?_, ?_, willNote.read⟩
  · rw [willNote.read_eq_head?, remaining]
  · rw [willNote.remaining_read, remaining]
  · rw [final_read, finalSymbols]

theorem peek (stands : stream.StandsFor ⟨tokens, symbols, issues⟩) :
    ∃ later, stream.peek = (tokens.head?, later) ∧
      later.StandsFor ⟨tokens, symbols, issues⟩ := by
  obtain ⟨remaining, finalSymbols, willNote⟩ := stands
  refine ⟨stream.peek.2, Prod.ext ?_ rfl, ?_, ?_, willNote.peek⟩
  · rw [peek_eq_read, willNote.read_eq_head?, remaining]
  · rw [remaining_peek, remaining]
  · rw [final_peek, finalSymbols]

variable (test : Token → Bool)

theorem readIf_nil (stands : stream.StandsFor ⟨[], symbols, issues⟩) :
    ∃ later, stream.readIf test = (none, later) ∧
      later.StandsFor ⟨[], symbols, issues⟩ := by
  obtain ⟨later, isNext, after⟩ := stands.peek
  exact ⟨later, by simp [readIf, isNext], after⟩

theorem readIf_of_fits (stands : stream.StandsFor ⟨token :: rest, symbols, issues⟩)
    (fits : test token = true) :
    ∃ later, stream.readIf test = (some token, later) ∧
      later.StandsFor ⟨rest, symbols, issues⟩ := by
  obtain ⟨looked, isNext, atToken⟩ := stands.peek
  obtain ⟨later, isRead, after⟩ := atToken.read
  exact ⟨later, by simp [readIf, isNext, fits, isRead], after⟩

theorem readIf_of_not_fits (stands : stream.StandsFor ⟨token :: rest, symbols, issues⟩)
    (noFit : test token = false) :
    ∃ later, stream.readIf test = (none, later) ∧
      later.StandsFor ⟨token :: rest, symbols, issues⟩ := by
  obtain ⟨later, isNext, after⟩ := stands.peek
  exact ⟨later, by simp [readIf, isNext, noFit], after⟩

end Tokens

section Headers

variable (declaration : Declaration)

theorem readId (stands : stream.StandsFor ⟨tokens, symbols, issues⟩) :
    let reading := Header.readId declaration tokens
    ∃ later, TokenStream.readId declaration stream =
        ⟨reading.found, reading.declaration, later⟩ ∧
      later.StandsFor ⟨reading.rest, symbols, issues⟩ := by
  cases tokens with
  | nil =>
      obtain ⟨later, isNext, after⟩ := stands.readIf_nil fun token =>
        (Header.objectId? token).isSome
      exact ⟨later, by rw [TokenStream.readId, isNext]; rfl, after⟩
  | cons token rest =>
      rw [Header.readId]
      cases isId : Header.objectId? token with
      | some id =>
          obtain ⟨later, isNext, after⟩ := stands.readIf_of_fits
            (fun token => (Header.objectId? token).isSome) (by simp [isId])
          exact ⟨later, by simp only [TokenStream.readId, isNext, isId], after⟩
      | none =>
          obtain ⟨later, isNext, after⟩ := stands.readIf_of_not_fits
            (fun token => (Header.objectId? token).isSome) (by simp [isId])
          exact ⟨later, by rw [TokenStream.readId, isNext], after⟩

theorem readName (stands : stream.StandsFor ⟨tokens, symbols, issues⟩) :
    let reading := Header.readName declaration tokens
    ∃ later, TokenStream.readName declaration stream =
        ⟨reading.found, reading.declaration, later⟩ ∧
      later.StandsFor ⟨reading.rest, symbols, issues⟩ := by
  cases tokens with
  | nil =>
      obtain ⟨later, isNext, after⟩ := stands.readIf_nil Token.isIdentifier
      exact ⟨later, by rw [TokenStream.readName, isNext]; rfl, after⟩
  | cons token rest =>
      rw [Header.readName]
      cases isName : token.isIdentifier with
      | true =>
          obtain ⟨later, isNext, after⟩ := stands.readIf_of_fits Token.isIdentifier isName
          exact ⟨later, by rw [TokenStream.readName, isNext]; rfl, after⟩
      | false =>
          obtain ⟨later, isNext, after⟩ := stands.readIf_of_not_fits Token.isIdentifier isName
          exact ⟨later, by rw [TokenStream.readName, isNext]; rfl, after⟩

theorem readNames (stands : stream.StandsFor ⟨tokens, symbols, issues⟩) :
    let list := Header.readNames tokens
    ∃ later, stream.readNames = ⟨list.found, list.names, later⟩ ∧
      later.StandsFor ⟨list.rest, symbols, issues⟩ := by
  fun_induction Header.readNames tokens generalizing stream with
  | case1 =>
      obtain ⟨later, isNext, after⟩ := stands.readIf_nil Token.isIdentifier
      exact ⟨later, by rw [readNames_eq, isNext], after⟩
  | case2 name isName =>
      obtain ⟨afterName, isNext, afterward⟩ := stands.readIf_of_fits Token.isIdentifier isName
      obtain ⟨later, noComma, after⟩ := afterward.readIf_nil (·.isSymbol ",")
      exact ⟨later, by simp only [readNames_eq stream, isNext, noComma], after⟩
  | case3 token noName =>
      obtain ⟨later, isNext, after⟩ := stands.readIf_of_not_fits Token.isIdentifier
        (by simpa using noName)
      exact ⟨later, by rw [readNames_eq, isNext], after⟩
  | case4 name comma rest isName isComma others =>
      rename_i ih
      obtain ⟨beforeComma, isNext, atComma⟩ := stands.readIf_of_fits Token.isIdentifier isName
      obtain ⟨afterComma, isTaken, afterward⟩ :=
        atComma.readIf_of_fits (·.isSymbol ",") isComma
      obtain ⟨later, areRead, after⟩ := ih afterward
      exact ⟨later, by simp only [readNames_eq stream, isNext, isTaken, areRead, others], after⟩
  | case5 name other rest isName noComma =>
      obtain ⟨afterName, isNext, afterward⟩ := stands.readIf_of_fits Token.isIdentifier isName
      obtain ⟨later, notTaken, after⟩ :=
        afterward.readIf_of_not_fits (·.isSymbol ",") (by simpa using noComma)
      exact ⟨later, by simp only [readNames_eq stream, isNext, notTaken], after⟩
  | case6 token other rest noName =>
      obtain ⟨later, isNext, after⟩ := stands.readIf_of_not_fits Token.isIdentifier
        (by simpa using noName)
      exact ⟨later, by rw [readNames_eq, isNext], after⟩

theorem readInterfaces (stands : stream.StandsFor ⟨tokens, symbols, issues⟩) :
    let reading := Header.readInterfaces declaration tokens
    ∃ later, TokenStream.readInterfaces declaration stream =
        ⟨reading.found, reading.declaration, later⟩ ∧
      later.StandsFor ⟨reading.rest, symbols, issues⟩ := by
  cases tokens with
  | nil =>
      obtain ⟨later, isNext, after⟩ := stands.readIf_nil (·.isKeyword "implements")
      exact ⟨later, by rw [TokenStream.readInterfaces, isNext]; rfl, after⟩
  | cons token rest =>
      rw [Header.readInterfaces]
      cases isClause : token.isKeyword "implements" with
      | true =>
          obtain ⟨names, isNext, atNames⟩ :=
            stands.readIf_of_fits (·.isKeyword "implements") isClause
          obtain ⟨later, areRead, after⟩ := atNames.readNames
          exact ⟨later, by simp only [TokenStream.readInterfaces, isNext, areRead, if_true],
            after⟩
      | false =>
          obtain ⟨later, isNext, after⟩ :=
            stands.readIf_of_not_fits (·.isKeyword "implements") isClause
          exact ⟨later, by rw [TokenStream.readInterfaces, isNext]; rfl, after⟩

theorem readTarget (keyword : String) (stands : stream.StandsFor ⟨tokens, symbols, issues⟩) :
    let reading := Header.readTarget keyword declaration tokens
    ∃ later, TokenStream.readTarget keyword declaration stream =
        ⟨reading.found, reading.declaration, later⟩ ∧
      later.StandsFor ⟨reading.rest, symbols, issues⟩ := by
  cases tokens with
  | nil =>
      obtain ⟨later, isNext, after⟩ := stands.readIf_nil (·.isKeyword keyword)
      exact ⟨later, by rw [TokenStream.readTarget, isNext]; rfl, after⟩
  | cons token rest =>
      cases isClause : token.isKeyword keyword with
      | false =>
          obtain ⟨later, isNext, after⟩ :=
            stands.readIf_of_not_fits (·.isKeyword keyword) isClause
          simp only [Header.readTarget, isClause]
          exact ⟨later, by rw [TokenStream.readTarget, isNext]; rfl, after⟩
      | true =>
          obtain ⟨afterKeyword, isNext, before⟩ :=
            stands.readIf_of_fits (·.isKeyword keyword) isClause
          cases rest with
          | nil =>
              obtain ⟨later, noName, after⟩ := before.readIf_nil Token.isIdentifier
              simp only [Header.readTarget, isClause, if_true]
              exact ⟨later, by simp only [TokenStream.readTarget, isNext, noName], after⟩
          | cons name others =>
              cases isName : name.isIdentifier with
              | true =>
                  obtain ⟨later, isTaken, after⟩ :=
                    before.readIf_of_fits Token.isIdentifier isName
                  simp only [Header.readTarget, isClause, isName, if_true]
                  exact ⟨later, by simp only [TokenStream.readTarget, isNext, isTaken], after⟩
              | false =>
                  obtain ⟨later, notTaken, after⟩ :=
                    before.readIf_of_not_fits Token.isIdentifier isName
                  simp only [Header.readTarget, isClause, isName, if_true]
                  refine ⟨later, ?_, after⟩
                  simp only [TokenStream.readTarget, isNext, notTaken]
                  rfl

theorem skipToClosing (depth : Nat) (stands : stream.StandsFor ⟨tokens, symbols, issues⟩) :
    let skipped := Header.skipToClosing depth tokens
    ∃ later, stream.skipToClosing depth = (skipped.1, later) ∧
      later.StandsFor ⟨skipped.2, symbols, issues⟩ := by
  induction tokens generalizing depth stream with
  | nil =>
      obtain ⟨later, isNext, after⟩ := stands.read
      exact ⟨later, by rw [skipToClosing_eq, isNext]; rfl, after⟩
  | cons token rest ih =>
      obtain ⟨later, isNext, after⟩ := stands.read
      rw [skipToClosing_eq, isNext]
      simp only [List.head?_cons, Header.skipToClosing]
      split
      · exact ih (depth + 1) after
      · split
        · cases depth with
          | zero => exact ⟨later, rfl, after⟩
          | succ depth => exact ih depth after
        · exact ih depth after

theorem skipBody (stands : stream.StandsFor ⟨tokens, symbols, issues⟩) :
    let skipped := Header.skipBody tokens
    ∃ later, stream.skipBody = (skipped.1, later) ∧
      later.StandsFor ⟨skipped.2, symbols, issues⟩ := by
  cases tokens with
  | nil =>
      obtain ⟨later, isNext, after⟩ := stands.readIf_nil (·.isSymbol "\x7b")
      exact ⟨later, by rw [TokenStream.skipBody, isNext]; rfl, after⟩
  | cons token rest =>
      rw [Header.skipBody]
      cases opens : token.isSymbol "\x7b" with
      | true =>
          obtain ⟨inside, isNext, after⟩ := stands.readIf_of_fits (·.isSymbol "\x7b") opens
          rw [TokenStream.skipBody, isNext]
          exact after.skipToClosing 0
      | false =>
          obtain ⟨later, isNext, after⟩ := stands.readIf_of_not_fits (·.isSymbol "\x7b") opens
          exact ⟨later, by rw [TokenStream.skipBody, isNext]; rfl, after⟩

theorem readPart (part : HeaderPart) (stands : stream.StandsFor ⟨tokens, symbols, issues⟩) :
    let reading := Header.readPart part declaration tokens
    ∃ later, TokenStream.readPart part declaration stream =
        ⟨reading.found, reading.declaration, later⟩ ∧
      later.StandsFor ⟨reading.rest, symbols, issues⟩ := by
  cases part with
  | id => exact stands.readId declaration
  | name => exact stands.readName declaration
  | interfaces => exact stands.readInterfaces declaration
  | target keyword => exact stands.readTarget declaration keyword
  | body =>
      obtain ⟨later, isSkipped, after⟩ := stands.skipBody
      exact ⟨later, by rw [TokenStream.readPart, isSkipped]; rfl, after⟩

theorem readParts (parts : List HeaderPart)
    (stands : stream.StandsFor ⟨tokens, symbols, issues⟩) :
    let header := Header.readParts declaration tokens parts
    ∃ later, TokenStream.readParts declaration stream parts = (header.1, later) ∧
      later.StandsFor ⟨header.2, symbols, issues⟩ := by
  induction parts generalizing declaration tokens stream with
  | nil => exact ⟨stream, rfl, stands⟩
  | cons part parts ih =>
      obtain ⟨later, isRead, after⟩ := stands.readPart declaration part
      simp only [TokenStream.readParts, Header.readParts, isRead]
      split
      · exact ih _ after
      · exact ⟨later, rfl, after⟩

theorem readHeader (kind : ObjectKind) (keyword : Token)
    (stands : stream.StandsFor ⟨tokens, symbols, issues⟩) :
    let header := Header.read kind keyword tokens
    ∃ later, TokenStream.readHeader kind keyword stream = (header.1, later) ∧
      later.StandsFor ⟨header.2, symbols, issues⟩ :=
  stands.readParts _ kind.parts

end Headers

section Attempts

theorem skipLine (line : UInt32) (stands : stream.StandsFor ⟨tokens, symbols, issues⟩) :
    (stream.skipLine line).StandsFor ⟨Declaration.afterLine line tokens, symbols, issues⟩ := by
  induction tokens generalizing stream with
  | nil =>
      obtain ⟨later, isNext, after⟩ := stands.readIf_nil (·.position.line == line)
      rw [skipLine_eq, isNext]
      exact after
  | cons token rest ih =>
      rw [Declaration.afterLine, List.dropWhile_cons]
      cases sameLine : token.position.line == line with
      | true =>
          obtain ⟨later, isNext, after⟩ :=
            stands.readIf_of_fits (·.position.line == line) sameLine
          rw [skipLine_eq, isNext]
          exact ih after
      | false =>
          obtain ⟨later, isNext, after⟩ :=
            stands.readIf_of_not_fits (·.position.line == line) sameLine
          rw [skipLine_eq, isNext]
          exact after

/-- An attempt without a token reaches the end. -/
theorem attempt_nil (stands : stream.StandsFor ⟨[], symbols, issues⟩) :
    ∃ later, stream.attempt = (.atEnd, later) ∧ later.StandsFor ⟨[], symbols, issues⟩ ∧
      later.finished = true := by
  obtain ⟨later, noToken, after⟩ := stands.peek
  refine ⟨later, by rw [attempt, noToken]; rfl, after, ?_⟩
  have noneToRead : stream.read.1 = none := by
    rw [← stream.peek_eq_read, noToken]
    rfl
  have finished := stream.finished_peek.trans (stands.willNote.finished_read noneToRead)
  rwa [noToken] at finished

/-- An attempt at a keyword takes its header, whether or not the header is complete. -/
theorem attempt_of_keyword (stands : stream.StandsFor ⟨token :: rest, symbols, issues⟩)
    {kind : ObjectKind} (isKind : ObjectKind.ofToken? token = some kind) :
    let header := Header.read kind token rest
    ∃ later, stream.attempt =
        (if header.1.isComplete kind then .found header.1 else .discarded kind, later) ∧
      later.StandsFor ⟨header.2, symbols, issues⟩ := by
  obtain ⟨looked, isNext, atKeyword⟩ := stands.peek
  obtain ⟨afterKeyword, isRead, afterward⟩ := atKeyword.read
  obtain ⟨later, isHeader, after⟩ := afterward.readHeader kind token
  refine ⟨later, ?_, after⟩
  simp only [attempt, isNext, List.head?_cons, isKind, isRead, isHeader, List.tail_cons]

/-- An attempt at any other token takes the tokens on its line. -/
theorem attempt_of_noise (stands : stream.StandsFor ⟨token :: rest, symbols, issues⟩)
    (noKind : ObjectKind.ofToken? token = none) :
    ∃ later, stream.attempt = (.skipped token.position.line, later) ∧
      later.StandsFor ⟨Declaration.afterLine token.position.line rest, symbols, issues⟩ := by
  obtain ⟨looked, isNext, atToken⟩ := stands.peek
  have after := atToken.skipLine token.position.line
  rw [Declaration.afterLine, List.dropWhile_cons_of_pos (by simp)] at after
  refine ⟨looked.skipLine token.position.line, ?_, after⟩
  simp only [attempt, isNext, List.head?_cons, noKind]

end Attempts

/-- The next declaration of a stream is the next one of the text that it stands for, and
the stream then stands for what is left. -/
theorem nextDeclaration (stands : stream.StandsFor ⟨tokens, symbols, issues⟩) :
    let next := Declaration.next tokens
    ∃ later, stream.nextDeclaration = (next.1, later) ∧
      later.StandsFor ⟨next.2, symbols, issues⟩ ∧
      (next.1 = none → later.finished = true) := by
  -- The tokens drive the induction; each attempt at the stream takes what a step takes.
  fun_induction Declaration.next tokens generalizing stream with
  | case1 =>
      obtain ⟨later, isAttempt, after, finished⟩ := stands.attempt_nil
      exact ⟨later, by rw [nextDeclaration_eq, isAttempt], after, fun _ => finished⟩
  | case2 token rest kind isKind header =>
      rename_i complete
      obtain ⟨later, isAttempt, after⟩ := stands.attempt_of_keyword isKind
      rw [if_pos complete] at isAttempt
      exact ⟨later, by rw [nextDeclaration_eq, isAttempt], after, by simp⟩
  | case3 token rest kind isKind header =>
      rename_i incomplete shorter ih
      obtain ⟨later, isAttempt, after⟩ := stands.attempt_of_keyword isKind
      rw [if_neg incomplete] at isAttempt
      rw [nextDeclaration_eq, isAttempt]
      exact ih after
  | case4 token rest noKind shorter ih =>
      obtain ⟨later, isAttempt, after⟩ := stands.attempt_of_noise noKind
      rw [nextDeclaration_eq, isAttempt]
      exact ih after

/-- The declarations of a stream are those of the text that it stands for, and taking them
all takes the stream to its end. -/
theorem declarations (stands : stream.StandsFor ⟨tokens, symbols, issues⟩) :
    ∃ last, stream.declarations = (Declaration.listOfTokens tokens, last) ∧
      last.StandsFor ⟨[], symbols, issues⟩ ∧ last.finished = true := by
  fun_induction Declaration.listOfTokens tokens generalizing stream with
  | case1 tokens rest noNext =>
      obtain ⟨last, isNext, after, finished⟩ := stands.nextDeclaration
      have noRest := Declaration.rest_eq_nil_of_next (congrArg Prod.fst noNext)
      rw [noRest] at after
      rw [noNext] at isNext finished
      exact ⟨last, by rw [declarations_eq, isNext], after, finished rfl⟩
  | case2 tokens declaration rest isNext shorter ih =>
      obtain ⟨later, isTaken, after, -⟩ := stands.nextDeclaration
      rw [isNext] at isTaken after
      obtain ⟨last, areTaken, atEnd, finished⟩ := ih after
      refine ⟨last, ?_, atEnd, finished⟩
      simp only [declarations_eq stream, isTaken, areTaken]

/-- A scan of a stream finds what is left to find in the text that it stands for. -/
theorem scan (stands : stream.StandsFor ⟨tokens, symbols, issues⟩) :
    stream.scan = Preprocessed.scan ⟨tokens, symbols, issues⟩ := by
  obtain ⟨last, areTaken, atEnd, finished⟩ := stands.declarations
  have parts := atEnd.willNote.parts_eq finished
  rw [atEnd.symbols_eq] at parts
  simp only [TokenStream.scan, areTaken, Preprocessed.scan]
  rw [show last.symbols = symbols from congrArg Prod.fst parts,
    show last.issues = issues from congrArg Prod.snd parts]

/-- Asking for declarations gives them in order, and then none.  What is not taken yet is
left. -/
theorem takeDeclarations (count : Nat) (stands : stream.StandsFor ⟨tokens, symbols, issues⟩) :
    let found := Declaration.listOfTokens tokens
    ∃ later rest, stream.takeDeclarations count =
        ((found.take count).map some ++ List.replicate (count - found.length) none, later) ∧
      later.StandsFor ⟨rest, symbols, issues⟩ ∧
      Declaration.listOfTokens rest = found.drop count := by
  induction count generalizing stream tokens with
  | zero => exact ⟨stream, tokens, by simp [TokenStream.takeDeclarations], stands, rfl⟩
  | succ count ih =>
      obtain ⟨afterNext, isNext, afterward, -⟩ := stands.nextDeclaration
      obtain ⟨later, rest, areTaken, after, isRest⟩ := ih afterward
      refine ⟨later, rest, ?_, after, ?_⟩
      · simp only [TokenStream.takeDeclarations, isNext, areTaken]
        rw [Declaration.listOfTokens_eq_next tokens]
        cases notFound : (Declaration.next tokens).1 with
        | none => simp [Declaration.rest_eq_nil_of_next notFound, List.replicate_succ]
        | some declaration => simp
      · rw [isRest, Declaration.listOfTokens_eq_next tokens]
        cases notFound : (Declaration.next tokens).1 with
        | none => simp [Declaration.rest_eq_nil_of_next notFound]
        | some declaration => rfl

end StandsFor

end TokenStream

/-- However many declarations are taken before the rest of a text is scanned, they are the
first ones that a scan of the whole text finds, and then none, and the rest gives the
others.  In the end the text has been read to its end, and the symbols and the issues are
those that taking its tokens alone leaves. -/
theorem scan_of_takeDeclarations (source : String) (symbols : SymbolTable) (count : Nat) :
    let start := TokenStream.ofText source symbols
    let plain := (start.drain []).2
    let whole := start.scan
    let (taken, later) := start.takeDeclarations count
    whole = Scan.ofText source symbols ∧
      taken = (whole.declarations.take count).map some ++
        List.replicate (count - whole.declarations.length) none ∧
      taken.reduceOption ++ later.scan.declarations = whole.declarations ∧
      (later.scan.symbols, later.scan.issues) = (whole.symbols, whole.issues) ∧
      (whole.symbols, whole.issues) = plain.parts ∧
      later.declarations.2.pieces = [] := by
  intro start plain whole
  have stands : start.StandsFor (Preprocessed.ofText source symbols) :=
    TokenStream.standsFor_ofText source symbols
  rw [Scan.ofText]
  generalize Preprocessed.ofText source symbols = text at stands ⊢
  obtain ⟨tokens, finalSymbols, issues⟩ := text
  have isWhole : whole = Preprocessed.scan ⟨tokens, finalSymbols, issues⟩ := stands.scan
  have plainParts : plain.parts = (finalSymbols, issues) := by
    obtain ⟨-, willNotePlain, plainFinished, plainFinal⟩ := stands.willNote.drain []
    rw [willNotePlain.parts_eq plainFinished, plainFinal, stands.symbols_eq]
  obtain ⟨later, rest, areTaken, after, isRest⟩ := stands.takeDeclarations count
  have isLater : later.scan = Preprocessed.scan ⟨rest, finalSymbols, issues⟩ := after.scan
  obtain ⟨last, areOthers, atEnd, finished⟩ := after.declarations
  rw [areTaken, isWhole, plainParts]
  dsimp only
  rw [isLater]
  refine ⟨rfl, rfl, ?_, rfl, rfl, ?_⟩
  · rw [List.reduceOption_append, List.reduceOption_replicate_none, List.append_nil]
    simp [Preprocessed.scan, isRest, List.reduceOption, List.filterMap_map]
  · rw [areOthers]
    exact (atEnd.willNote.at_end finished).2

end ObjectIds
