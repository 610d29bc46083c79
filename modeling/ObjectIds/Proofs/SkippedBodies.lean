import ObjectIds.Proofs.ForwardProgress
import ObjectIds.Proofs.HeaderGrammar

/-!
# What skipping a body takes

Skipping takes the body that the tokens start with, and nothing else, or all tokens if that
body is not closed.  It counts symbols only, so that neither other tokens nor pieces that
show none make a difference.  The passes of a scan do not overlap, and the body is taken by
the pass that reads its header.  So no header starts inside it.
-/

namespace ObjectIds

namespace Token

/-- The symbols among tokens, as they are written. -/
def symbolTexts (tokens : List Token) : List String :=
  (tokens.filter (·.kind == .symbol)).map text

theorem symbolTexts_append (first second : List Token) :
    symbolTexts (first ++ second) = symbolTexts first ++ symbolTexts second := by
  simp [symbolTexts]

theorem symbolTexts_cons_of_symbol {token : Token} (isSymbol : token.kind = .symbol)
    (tokens : List Token) : symbolTexts (token :: tokens) = token.text :: symbolTexts tokens := by
  simp [symbolTexts, isSymbol]

theorem symbolTexts_cons_of_other {token : Token} (noSymbol : token.kind ≠ .symbol)
    (tokens : List Token) : symbolTexts (token :: tokens) = symbolTexts tokens := by
  simp [symbolTexts, noSymbol]

theorem isSymbol_of_symbol {token : Token} (isSymbol : token.kind = .symbol) (mark : String) :
    token.isSymbol mark = (token.text == mark) := by
  simp [Token.isSymbol, isSymbol]

theorem isSymbol_of_other {token : Token} (noSymbol : token.kind ≠ .symbol) (mark : String) :
    token.isSymbol mark = false := by
  simp [Token.isSymbol, noSymbol]

end Token

namespace Header

/-- Skips to the closing brace among the texts of symbols. -/
def skipMarks (depth : Nat) : List String → Bool × List String
  | [] => (false, [])
  | mark :: marks =>
      if mark == "\x7b" then skipMarks (depth + 1) marks
      else if mark == "\x7d" then
        match depth with
        | 0 => (true, marks)
        | depth + 1 => skipMarks depth marks
      else skipMarks depth marks

/-- Skipping passes over tokens that are no symbols. -/
theorem skipMarks_symbolTexts (depth : Nat) (tokens : List Token) :
    skipMarks depth (Token.symbolTexts tokens) =
      ((skipToClosing depth tokens).1, Token.symbolTexts (skipToClosing depth tokens).2) := by
  induction tokens generalizing depth with
  | nil => rfl
  | cons token tokens ih =>
      by_cases isSymbol : token.kind = .symbol
      · rw [Token.symbolTexts_cons_of_symbol isSymbol]
        unfold skipMarks skipToClosing
        simp only [Token.isSymbol_of_symbol isSymbol]
        split
        · exact ih (depth + 1)
        · split
          · cases depth with
            | zero => rfl
            | succ depth => exact ih depth
          · exact ih depth
      · rw [Token.symbolTexts_cons_of_other isSymbol]
        unfold skipToClosing
        simp only [Token.isSymbol_of_other isSymbol]
        exact ih depth

/-- What is skipped from an opening brace on depends on the symbols alone. -/
theorem skipBody_congr {tokens others : List Token} (opens : Token.OpensWithBrace tokens)
    (othersOpen : Token.OpensWithBrace others)
    (same : Token.symbolTexts tokens = Token.symbolTexts others) :
    (skipBody others).1 = (skipBody tokens).1 ∧
      Token.symbolTexts (skipBody others).2 = Token.symbolTexts (skipBody tokens).2 := by
  obtain ⟨first, isHead, firstOpens⟩ := opens
  obtain ⟨rest, rfl⟩ := List.head?_eq_some_iff.1 isHead
  obtain ⟨second, isOther, secondOpens⟩ := othersOpen
  obtain ⟨left, rfl⟩ := List.head?_eq_some_iff.1 isOther
  have symbol_of_opens {token : Token} (opens : token.isSymbol "\x7b" = true) :
      token.kind = .symbol := by
    simpa using (Bool.and_eq_true_iff.1 opens).1
  rw [Token.symbolTexts_cons_of_symbol (symbol_of_opens firstOpens),
    Token.symbolTexts_cons_of_symbol (symbol_of_opens secondOpens)] at same
  have skipped := skipMarks_symbolTexts 0 rest
  rw [(List.cons.inj same).2, skipMarks_symbolTexts 0 left] at skipped
  obtain ⟨sameFound, sameLeft⟩ := Prod.mk.inj skipped
  rw [skipBody, skipBody, if_pos firstOpens, if_pos secondOpens]
  exact ⟨sameFound, sameLeft⟩

end Header

/-- A piece that is hidden, or is no symbol, adds nothing to the symbols that can be seen. -/
theorem Conditions.symbolTexts_visibleTokens (conditions : Conditions) (before : List Piece)
    (piece : Piece) (after : List Piece)
    (quiet : (conditions.afterAll before).isVisible = true →
      ∀ token, piece.token? = some token → token.kind ≠ .symbol) :
    Token.symbolTexts (conditions.visibleTokens (before ++ piece :: after)) =
      Token.symbolTexts (conditions.visibleTokens before) ++
        Token.symbolTexts
          (((conditions.afterAll before).after piece).visibleTokens after) := by
  have addsNothing :
      Token.symbolTexts ((conditions.afterAll before).visible? piece).toList = [] := by
    unfold visible?
    split
    · rename_i isVisible
      cases isToken : piece.token? with
      | none => rfl
      | some token =>
          exact Token.symbolTexts_cons_of_other (quiet isVisible token isToken) []
    · rfl
  rw [visibleTokens_append, visibleTokens_cons, Token.symbolTexts_append,
    Token.symbolTexts_append, addsNothing, List.nil_append]

namespace TokenStream

/-- A pass that ends with a body: from somewhere after its first token, skipping a body takes the
rest of the pass. -/
structure SkipsBody (pass : TokenStream) (body left : List Token) : Prop where
  starts : ∃ front, front ≠ [] ∧ pass.remaining = front ++ (body ++ left)
  skips : (Header.skipBody (body ++ left)).2 = left
  stops : pass.attempt.2.remaining = left

namespace StandsFor

variable {stream pass : TokenStream} {tokens : List Token} {symbols : SymbolTable}
  {issues : List Issue}

/-- What a pass leaves is what the passes after it start from. -/
theorem remaining_suffix (stands : stream.StandsFor ⟨tokens, symbols, issues⟩)
    (member : pass ∈ stream.passes) : pass.remaining <:+ stream.remaining := by
  obtain ⟨-, left, isSuffix, standsThere⟩ := stands.passes.2 pass member
  rwa [standsThere.remaining_eq, stands.remaining_eq]

/-- Two passes do not overlap: what the one leaves comes before the other or is what the
other starts from. -/
theorem passes_apart (stands : stream.StandsFor ⟨tokens, symbols, issues⟩) :
    ∀ pass ∈ stream.passes, ∀ other ∈ stream.passes,
      pass.remaining <:+ other.remaining ∨ other.remaining <:+ pass.attempt.2.remaining := by
  fun_induction TokenStream.passes stream generalizing tokens with
  | case1 stream later isAttempt => simp
  | case2 stream attempt later isAttempt isThere fewer ih =>
      have isPass : stream.attempt.1 ≠ .atEnd := by rwa [isAttempt]
      obtain ⟨token, rest, left, rfl, isSuffix, after, -⟩ := stands.pass isPass
      have laterEq : stream.attempt.2 = later := congrArg Prod.snd isAttempt
      rw [laterEq] at after
      have shorter : later.remaining <:+ stream.remaining := by
        rw [after.remaining_eq, stands.remaining_eq]
        exact isSuffix.trans (List.suffix_cons token rest)
      simp only [List.forall_mem_cons]
      refine ⟨⟨Or.inl (List.suffix_refl _), fun other isLater => ?_⟩,
        fun pass isLater => ⟨?_, ih after pass isLater⟩⟩
      · rw [laterEq]
        exact Or.inr (after.remaining_suffix isLater)
      · exact Or.inl ((after.remaining_suffix isLater).trans shorter)

/-- A declaration that a pass finds has the kind and the position of the keyword that the
pass starts at. -/
theorem exists_keyword_of_found {declaration : Declaration}
    (stands : stream.StandsFor ⟨tokens, symbols, issues⟩)
    (isFound : stream.attempt.1 = .found declaration) :
    ∃ keyword rest kind, tokens = keyword :: rest ∧ keyword.NamesKind kind ∧
      declaration.kind = kind.keyword ∧ declaration.position = keyword.position := by
  have isThere : stream.attempt.1 ≠ .atEnd := by simp [isFound]
  obtain ⟨keyword, rest, left, rfl, -⟩ := stands.pass isThere
  cases isKind : ObjectKind.ofToken? keyword with
  | none =>
      obtain ⟨later, isAttempt, -⟩ := stands.attempt_of_noise isKind
      simp [isAttempt] at isFound
  | some kind =>
      have names := ObjectKind.ofToken?_eq_some_iff.1 isKind
      obtain ⟨later, -, -, finds, discards⟩ := stands.attempt_at_keyword names
      by_cases enough : Header.Suffices kind rest
      · rw [(finds enough).1] at isFound
        obtain rfl := Attempt.found.inj isFound
        exact ⟨keyword, rest, kind, rfl, names, Header.startsAt_read names enough⟩
      · rw [(discards enough).1] at isFound
        cases isFound

/-- No declaration has its keyword inside a body that a pass skips. -/
theorem declares_outside_bodies (stands : stream.StandsFor ⟨tokens, symbols, issues⟩)
    (isPass : pass ∈ stream.passes) {body left : List Token} (skips : pass.SkipsBody body left)
    {other : TokenStream} (isOther : other ∈ stream.passes) {declaration : Declaration}
    (isFound : other.attempt.1 = .found declaration) :
    ∃ keyword rest, other.remaining = keyword :: rest ∧
      declaration.position = keyword.position ∧
      ∀ part more, body = part ++ more → more ≠ [] → keyword :: rest ≠ more ++ left := by
  obtain ⟨-, others, -, standsThere⟩ := stands.passes.2 other isOther
  obtain ⟨keyword, rest, kind, rfl, -, -, positionEq⟩ :=
    standsThere.exists_keyword_of_found isFound
  refine ⟨keyword, rest, standsThere.remaining_eq, positionEq, ?_⟩
  rintro part more rfl isInside isThere
  obtain ⟨front, notEmpty, isRemaining⟩ := skips.starts
  have frontLength := List.length_pos_iff.2 notEmpty
  have moreLength := List.length_pos_iff.2 isInside
  -- The other pass would start after the first token of the one, and before its end.
  rcases stands.passes_apart pass isPass other isOther with isSuffix | isSuffix
  · have shorter := isSuffix.length_le
    rw [isRemaining, standsThere.remaining_eq, isThere] at shorter
    simp only [List.length_append] at shorter
    omega
  · have shorter := isSuffix.length_le
    rw [skips.stops, standsThere.remaining_eq, isThere, List.length_append] at shorter
    omega

end StandsFor

end TokenStream

/-- Without an opening brace nothing is skipped.  From an opening brace on, the shortest part
with as many closing as opening braces is skipped, or else everything, and the braces that are
open are counted on the way.  Only the symbols that can be seen matter, and no declaration
starts inside a body that is skipped. -/
theorem bodies_skipped_exactly (tokens : List Token) :
    let skipped := Header.skipBody tokens
    (¬Token.OpensWithBrace tokens → skipped = (false, tokens)) ∧
      (Token.OpensWithBrace tokens → ∀ part, part <+: tokens → part ≠ [] →
        Token.closed part = Token.opened part →
        ∃ body, Token.Enclosed body ∧ body <+: part ∧ tokens = body ++ skipped.2 ∧
          skipped.1 = true) ∧
      (Token.OpensWithBrace tokens → Token.Unclosed tokens → skipped = (false, [])) ∧
      (∀ part more, tokens = part ++ (more ++ skipped.2) → part ≠ [] →
        (skipped.1 = true → more ≠ []) →
        Token.closed part < Token.opened part ∧
          Header.skipToClosing (Token.opened part - Token.closed part - 1)
            (more ++ skipped.2) = skipped) ∧
      (∀ others, Token.OpensWithBrace tokens → Token.OpensWithBrace others →
        Token.symbolTexts tokens = Token.symbolTexts others →
        (Header.skipBody others).1 = skipped.1 ∧
          Token.symbolTexts (Header.skipBody others).2 = Token.symbolTexts skipped.2) ∧
      (∀ (source : String) (seed : SymbolTable) (before : List Piece) (piece : Piece)
        (after : List Piece), Piece.listOfText source = before ++ piece :: after →
        let start := Conditions.initial seed
        let here := start.afterAll before
        (here.isVisible = true → ∀ token, piece.token? = some token → token.kind ≠ .symbol) →
        Token.symbolTexts (Preprocessed.ofText source seed).tokens =
          Token.symbolTexts (start.visibleTokens before) ++
            Token.symbolTexts ((here.after piece).visibleTokens after)) ∧
      ∀ (stream : TokenStream) symbols issues, stream.StandsFor ⟨tokens, symbols, issues⟩ →
        stream.skipBody.1 = skipped.1 ∧
          stream.skipBody.2.StandsFor ⟨skipped.2, symbols, issues⟩ ∧
          stream.declarations.1 = TokenStream.found stream.passes ∧
          ∀ pass ∈ stream.passes, ∀ body left, pass.SkipsBody body left →
            ∀ other ∈ stream.passes, ∀ declaration, other.attempt.1 = .found declaration →
              ∃ keyword rest, other.remaining = keyword :: rest ∧
                declaration.position = keyword.position ∧
                ∀ part more, body = part ++ more → more ≠ [] →
                  keyword :: rest ≠ more ++ left := by
  intro skipped
  refine ⟨Header.skipBody_of_not_opening, ?_, Header.skipBody_of_unclosed, ?_, ?_, ?_, ?_⟩
  · intro opens part isPart notEmpty isEven
    obtain ⟨body, left, same, enclosed, isShortest, isSkipped⟩ :=
      Header.exists_skipBody_of_even opens isPart notEmpty isEven
    rw [show skipped = (true, left) from isSkipped]
    exact ⟨body, enclosed, isShortest, same, rfl⟩
  · intro part more same begun goesOn
    have isSkipped : Header.skipBody (part ++ (more ++ skipped.2)) = (skipped.1, skipped.2) := by
      rw [← same]
    exact Header.skipBody_inside isSkipped begun goesOn
  · intro others opens othersOpen same
    exact Header.skipBody_congr opens othersOpen same
  · intro source seed before piece after isSplit start here quiet
    rw [Preprocessed.ofText, Preprocessed.ofPieces_eq, isSplit]
    exact Conditions.symbolTexts_visibleTokens start before piece after quiet
  · intro stream symbols issues stands
    obtain ⟨later, isSkipped, after⟩ := stands.skipBody
    rw [isSkipped]
    refine ⟨rfl, after, TokenStream.declarations_eq_found stream, ?_⟩
    intro pass isPass body left skips other isOther declaration isFound
    exact stands.declares_outside_bodies isPass skips isOther isFound

/-- A brace in a string, one in a comment and one in a hidden branch do not close a body, and a
header written inside it declares nothing. -/
theorem bodies_skipped_exactly_around_quiet_braces :
    let source :=
      "codeunit 1 a \x7b table 2 b \x7b '\x7d' \x7d /*\x7d*/\n#if X\n\x7d\n#endif\n\x7d\nx \x7d"
    let stream := TokenStream.ofText source .empty
    let tokens := (Preprocessed.ofText source .empty).tokens
    let body := (tokens.drop 3).take 8
    let left := tokens.drop 11
    body.map Token.text = ["\x7b", "table", "2", "b", "\x7b", "'\x7d'", "\x7d", "\x7d"] ∧
      (Header.skipBody (tokens.drop 3)).1 = true ∧
      stream.skipBody.1 = false ∧
      stream.SkipsBody body left ∧
      ∀ other ∈ stream.passes, ∀ declaration, other.attempt.1 = .found declaration →
        ∃ keyword rest, other.remaining = keyword :: rest ∧
          ∀ part more, body = part ++ more → more ≠ [] → keyword :: rest ≠ more ++ left := by
  intro source stream tokens body left
  have stands : stream.StandsFor (Preprocessed.ofText source .empty) :=
    TokenStream.standsFor_ofText source .empty
  -- What the text is cut into is evaluated once.
  obtain ⟨texts, opens, noOpening, notEmpty, isEven, isSplit, isSkipped⟩ :
      body.map Token.text = ["\x7b", "table", "2", "b", "\x7b", "'\x7d'", "\x7d", "\x7d"] ∧
        Token.OpensWithBrace (tokens.drop 3) ∧ ¬Token.OpensWithBrace tokens ∧ body ≠ [] ∧
        Token.closed body = Token.opened body ∧ tokens.drop 3 = body ++ left ∧
        (Header.skipBody (body ++ left)).2 = left := by
    decide +kernel
  obtain ⟨isThere, isFront, isRemaining, stops⟩ :
      stream.attempt.1 ≠ .atEnd ∧ tokens.take 3 ≠ [] ∧
        stream.remaining = tokens.take 3 ++ (body ++ left) ∧
        stream.attempt.2.remaining = left := by
    decide +kernel
  have isPass : stream ∈ stream.passes := by
    rw [TokenStream.passes_eq, if_neg isThere]
    exact List.mem_cons_self
  have skips : stream.SkipsBody body left :=
    ⟨⟨tokens.take 3, isFront, isRemaining⟩, isSkipped, stops⟩
  obtain ⟨-, closes, -⟩ := bodies_skipped_exactly (tokens.drop 3)
  obtain ⟨-, -, -, -, isClosed⟩ :=
    closes opens body (isSplit ▸ List.prefix_append body left) notEmpty isEven
  obtain ⟨noBody, -, -, -, -, -, streams⟩ := bodies_skipped_exactly tokens
  obtain ⟨sameSkip, -, -, outside⟩ := streams stream _ _ stands
  refine ⟨texts, isClosed, ?_, skips, fun other isOther declaration isFound => ?_⟩
  · rw [sameSkip, noBody noOpening]
  · obtain ⟨keyword, rest, isThere, -, notInside⟩ :=
      outside stream isPass body left skips other isOther declaration isFound
    exact ⟨keyword, rest, isThere, notInside⟩

end ObjectIds
