import ObjectIds.Proofs.EnclosedBodies
import ObjectIds.Proofs.HeaderSpelling
import ObjectIds.Proofs.ResumedScans

/-!
# The grammar of headers

Each part of a header either matches some tokens or breaks off, after it has taken what it
asks for as far as that is there.  `Takes` says which tokens a header takes in this way, and
it determines them.  A header with the id and the name that its kind asks for declares an
object, wherever it breaks off after these.  Any other header takes at most its id, and
scanning goes on at the token that is no id or no name.
-/

namespace ObjectIds

/-- A word that is the keyword of a kind, in any letter case. -/
structure Token.NamesKind (token : Token) (kind : ObjectKind) : Prop where
  mem_all : kind ∈ ObjectKind.all
  kind_eq : token.kind = .word
  sameWord : Text.equalIgnoringCase kind.keyword token.text = true

theorem ObjectKind.ofToken?_eq_some_iff {token : Token} {kind : ObjectKind} :
    ofToken? token = some kind ↔ token.NamesKind kind := by
  constructor
  · intro isKind
    obtain ⟨inTable, isWord, sameWord⟩ := Header.keyword_of_ofToken? isKind
    exact ⟨inTable, isWord, sameWord⟩
  · rintro ⟨inTable, isWord, sameWord⟩
    rw [ofToken?, if_pos isWord, ofKeyword?_eq_some_iff]
    exact ⟨inTable, sameWord⟩

namespace Header

/-- The first of some tokens denotes an id. -/
def OpensWithId (tokens : List Token) : Prop := ∃ token ∈ tokens.head?, ∃ id, token.DenotesId id

/-- The first of some tokens can name something. -/
def OpensWithName (tokens : List Token) : Prop :=
  ∃ token ∈ tokens.head?, token.kind = .word ∨ token.kind = .quotedIdentifier

/-- The tokens after a keyword go on with the id and the name that its kind asks for. -/
def Suffices (kind : ObjectKind) (tokens : List Token) : Prop :=
  (.id ∈ kind.parts → OpensWithId tokens) ∧
    (.name ∈ kind.parts →
      OpensWithName (if .id ∈ kind.parts then tokens.tail else tokens))

/-- Names with commas between them. -/
inductive NameList : List Token → Prop
  | last {token : Token} (isName : token.isIdentifier = true) : NameList [token]
  | more {token comma : Token} {others : List Token} (isName : token.isIdentifier = true)
      (isComma : comma.isSymbol "," = true) (areNames : NameList others) :
      NameList (token :: comma :: others)

/-- Names with a comma after each of them. -/
inductive OpenNameList : List Token → Prop
  | nil : OpenNameList []
  | more {token comma : Token} {others : List Token} (isName : token.isIdentifier = true)
      (isComma : comma.isSymbol "," = true) (areNames : OpenNameList others) :
      OpenNameList (token :: comma :: others)

/-- The tokens that a part of a header asks for, before those that are left. -/
inductive Matches : HeaderPart → List Token → List Token → Prop
  | id {token : Token} {id : UInt32} {left : List Token} (denotes : token.DenotesId id) :
      Matches .id [token] left
  | name {token : Token} {left : List Token} (isName : token.isIdentifier = true) :
      Matches .name [token] left
  | interfaces {token : Token} {names left : List Token}
      (isClause : token.isKeyword "implements" = true) (areNames : NameList names)
      (noComma : ∀ comma ∈ left.head?, comma.isSymbol "," = false) :
      Matches .interfaces (token :: names) left
  | noInterfaces {left : List Token}
      (noClause : ∀ token ∈ left.head?, token.isKeyword "implements" = false) :
      Matches .interfaces [] left
  | target {keyword : String} {token name : Token} {left : List Token}
      (isClause : token.isKeyword keyword = true) (isName : name.isIdentifier = true) :
      Matches (.target keyword) [token, name] left
  | body {body left : List Token} (enclosed : Token.Enclosed body) : Matches .body body left

/-- The tokens that a part of a header takes before it breaks off at those that are left. -/
inductive BreaksOff : HeaderPart → List Token → List Token → Prop
  | id {left : List Token} (noId : ¬OpensWithId left) : BreaksOff .id [] left
  | name {left : List Token} (noName : ¬OpensWithName left) : BreaksOff .name [] left
  | interfaces {token : Token} {names left : List Token}
      (isClause : token.isKeyword "implements" = true) (areNames : OpenNameList names)
      (noName : ¬OpensWithName left) : BreaksOff .interfaces (token :: names) left
  | noTarget {keyword : String} {left : List Token}
      (noClause : ∀ token ∈ left.head?, token.isKeyword keyword = false) :
      BreaksOff (.target keyword) [] left
  | noTargetName {keyword : String} {token : Token} {left : List Token}
      (isClause : token.isKeyword keyword = true) (noName : ¬OpensWithName left) :
      BreaksOff (.target keyword) [token] left
  | noBody {left : List Token} (noOpening : ¬Token.OpensWithBrace left) : BreaksOff .body [] left
  | unclosed {tokens : List Token} (opens : Token.OpensWithBrace tokens)
      (unclosed : Token.Unclosed tokens) : BreaksOff .body tokens []

/-- The tokens that a header takes: what its parts match, up to the first part that breaks
off, and what that part takes. -/
inductive Takes : List HeaderPart → List Token → List Token → Prop
  | nil {left : List Token} : Takes [] [] left
  | part {part : HeaderPart} {parts : List HeaderPart} {here later left : List Token}
      (isMatch : Matches part here (later ++ left)) (goesOn : Takes parts later left) :
      Takes (part :: parts) (here ++ later) left
  | breakOff {part : HeaderPart} {parts : List HeaderPart} {here left : List Token}
      (breaksOff : BreaksOff part here left) : Takes (part :: parts) here left

theorem objectId?_eq_some_iff {token : Token} {id : UInt32} :
    objectId? token = some id ↔ token.DenotesId id := by
  constructor
  · exact denotesId_of_objectId?
  · rintro ⟨isNumber, digits, value, positive, -⟩
    have notEmpty : token.text.toList.takeWhile (· != '.') ≠ [] := by
      intro isEmpty
      rw [isEmpty, Text.decimalValue] at value
      simp at value
      omega
    have isDecimal := Text.decimal?_eq_some_iff.2 ⟨notEmpty, digits, value⟩
    have notZero : id ≠ 0 := by
      rintro rfl
      simp at positive
    simp [objectId?, isNumber, isDecimal, Option.filter, notZero]

theorem isIdentifier_eq_true_iff {token : Token} :
    token.isIdentifier = true ↔ token.kind = .word ∨ token.kind = .quotedIdentifier := by
  simp [Token.isIdentifier]

theorem not_opensWithId_nil : ¬OpensWithId [] := by
  simp [OpensWithId]

theorem not_opensWithName_nil : ¬OpensWithName [] := by
  simp [OpensWithName]

theorem opensWithId_cons {token : Token} {tokens : List Token} :
    OpensWithId (token :: tokens) ↔ ∃ id, objectId? token = some id := by
  simp [OpensWithId, objectId?_eq_some_iff]

instance (tokens : List Token) : Decidable (OpensWithId tokens) :=
  match tokens with
  | [] => isFalse not_opensWithId_nil
  | _ :: _ => decidable_of_iff' _ (opensWithId_cons.trans Option.isSome_iff_exists.symm)

theorem opensWithName_cons {token : Token} {tokens : List Token} :
    OpensWithName (token :: tokens) ↔ token.isIdentifier = true := by
  simp [OpensWithName, isIdentifier_eq_true_iff]

instance (tokens : List Token) : Decidable (OpensWithName tokens) :=
  match tokens with
  | [] => isFalse not_opensWithName_nil
  | _ :: _ => decidable_of_iff' _ opensWithName_cons

instance (kind : ObjectKind) (tokens : List Token) : Decidable (Suffices kind tokens) :=
  inferInstanceAs (Decidable (_ ∧ _))

section Parts

variable {part : HeaderPart} {taken left : List Token}

theorem readNames_of_nameList {names : List Token} (areNames : NameList names)
    (noComma : ∀ comma ∈ left.head?, comma.isSymbol "," = false) :
    (readNames (names ++ left)).found = true ∧ (readNames (names ++ left)).rest = left := by
  induction areNames with
  | @last token isName =>
      cases left with
      | nil => simp [readNames, isName]
      | cons comma left => simp [readNames, isName, noComma comma rfl]
  | more isName isComma areNames ih => simpa [readNames, isName, isComma] using ih

theorem readNames_of_openNameList {names : List Token} (areNames : OpenNameList names)
    (noName : ¬OpensWithName left) :
    (readNames (names ++ left)).found = false ∧ (readNames (names ++ left)).rest = left := by
  induction areNames with
  | nil =>
      match left with
      | [] => simp [readNames]
      | [token] =>
          rw [opensWithName_cons] at noName
          simp [readNames, noName]
      | token :: comma :: left =>
          rw [opensWithName_cons] at noName
          simp [readNames, noName]
  | more isName isComma areNames ih => simpa [readNames, isName, isComma] using ih

/-- Names go on with commas as far as they do, and end in a name or after a comma. -/
theorem exists_names (tokens : List Token) :
    ∃ names left, tokens = names ++ left ∧
      ((NameList names ∧ ∀ comma ∈ left.head?, comma.isSymbol "," = false) ∨
        (OpenNameList names ∧ ¬OpensWithName left)) := by
  fun_induction readNames tokens with
  | case1 => exact ⟨[], [], rfl, Or.inr ⟨.nil, not_opensWithName_nil⟩⟩
  | case2 token isName => exact ⟨[token], [], rfl, Or.inl ⟨.last isName, by simp⟩⟩
  | case3 token noName =>
      exact ⟨[], [token], rfl, Or.inr ⟨.nil, by rwa [opensWithName_cons]⟩⟩
  | case4 token comma rest isName isComma later ih =>
      obtain ⟨names, left, rfl, ⟨areNames, noComma⟩ | ⟨areNames, noName⟩⟩ := ih
      · exact ⟨token :: comma :: names, left, rfl,
          Or.inl ⟨.more isName isComma areNames, noComma⟩⟩
      · exact ⟨token :: comma :: names, left, rfl,
          Or.inr ⟨.more isName isComma areNames, noName⟩⟩
  | case5 token comma rest isName noComma =>
      exact ⟨[token], comma :: rest, rfl, Or.inl ⟨.last isName, by simpa using noComma⟩⟩
  | case6 token comma rest noName =>
      exact ⟨[], token :: comma :: rest, rfl, Or.inr ⟨.nil, by rwa [opensWithName_cons]⟩⟩

/-- A part that the tokens match is there, and leaves the tokens after it. -/
theorem readPart_of_matches (isMatch : Matches part taken left) (declaration : Declaration) :
    (readPart part declaration (taken ++ left)).found = true ∧
      (readPart part declaration (taken ++ left)).rest = left := by
  cases isMatch with
  | id denotes => simp [readPart, readId, objectId?_eq_some_iff.2 denotes]
  | name isName => simp [readPart, readName, isName]
  | interfaces isClause areNames noComma =>
      simpa [readPart, readInterfaces, isClause] using readNames_of_nameList areNames noComma
  | noInterfaces noClause =>
      cases left with
      | nil => simp [readPart, readInterfaces]
      | cons token left => simp [readPart, readInterfaces, noClause token rfl]
  | target isClause isName => simp [readPart, readTarget, isClause, isName]
  | body enclosed => simp [readPart, skipBody_of_enclosed left enclosed]

/-- A part that breaks off is not there, and leaves the token that does not fit. -/
theorem readPart_of_breaksOff (breaksOff : BreaksOff part taken left)
    (declaration : Declaration) :
    (readPart part declaration (taken ++ left)).found = false ∧
      (readPart part declaration (taken ++ left)).rest = left := by
  cases breaksOff with
  | id noId =>
      cases left with
      | nil => simp [readPart, readId]
      | cons token left =>
          have notId : objectId? token = none := by
            rw [opensWithId_cons, not_exists] at noId
            exact Option.eq_none_iff_forall_ne_some.2 noId
          simp [readPart, readId, notId]
  | name noName =>
      cases left with
      | nil => simp [readPart, readName]
      | cons token left =>
          rw [opensWithName_cons] at noName
          simp [readPart, readName, noName]
  | interfaces isClause areNames noName =>
      simpa [readPart, readInterfaces, isClause] using readNames_of_openNameList areNames noName
  | noTarget noClause =>
      cases left with
      | nil => simp [readPart, readTarget]
      | cons token left => simp [readPart, readTarget, noClause token rfl]
  | noTargetName isClause noName =>
      cases left with
      | nil => simp [readPart, readTarget, isClause]
      | cons name left =>
          rw [opensWithName_cons] at noName
          simp [readPart, readTarget, isClause, noName]
  | noBody noOpening => simp [readPart, skipBody_of_not_opening noOpening]
  | unclosed opens unclosed => simp [readPart, skipBody_of_unclosed opens unclosed]

/-- Any tokens match a part at their start, or the part breaks off. -/
theorem exists_matches_or_breaksOff (part : HeaderPart) (tokens : List Token) :
    ∃ taken left, tokens = taken ++ left ∧
      (Matches part taken left ∨ BreaksOff part taken left) := by
  cases part with
  | id =>
      by_cases isId : OpensWithId tokens
      · obtain ⟨token, isHead, id, denotes⟩ := isId
        obtain ⟨left, rfl⟩ := List.head?_eq_some_iff.1 isHead
        exact ⟨[token], left, rfl, Or.inl (.id denotes)⟩
      · exact ⟨[], tokens, rfl, Or.inr (.id isId)⟩
  | name =>
      by_cases isName : OpensWithName tokens
      · obtain ⟨token, isHead, isName⟩ := isName
        obtain ⟨left, rfl⟩ := List.head?_eq_some_iff.1 isHead
        exact ⟨[token], left, rfl, Or.inl (.name (isIdentifier_eq_true_iff.2 isName))⟩
      · exact ⟨[], tokens, rfl, Or.inr (.name isName)⟩
  | interfaces =>
      cases tokens with
      | nil => exact ⟨[], [], rfl, Or.inl (.noInterfaces (by simp))⟩
      | cons token rest =>
          cases isClause : token.isKeyword "implements" with
          | false =>
              exact ⟨[], token :: rest, rfl, Or.inl (.noInterfaces (by simpa using isClause))⟩
          | true =>
              obtain ⟨names, left, rfl, ⟨areNames, noComma⟩ | ⟨areNames, noName⟩⟩ :=
                exists_names rest
              · exact ⟨token :: names, left, rfl, Or.inl (.interfaces isClause areNames noComma)⟩
              · exact ⟨token :: names, left, rfl, Or.inr (.interfaces isClause areNames noName)⟩
  | target keyword =>
      cases tokens with
      | nil => exact ⟨[], [], rfl, Or.inr (.noTarget (by simp))⟩
      | cons token rest =>
          cases isClause : token.isKeyword keyword with
          | false =>
              exact ⟨[], token :: rest, rfl, Or.inr (.noTarget (by simpa using isClause))⟩
          | true =>
              by_cases isName : OpensWithName rest
              · obtain ⟨name, isHead, isName⟩ := isName
                obtain ⟨left, rfl⟩ := List.head?_eq_some_iff.1 isHead
                exact ⟨[token, name], left, rfl,
                  Or.inl (.target isClause (isIdentifier_eq_true_iff.2 isName))⟩
              · exact ⟨[token], rest, rfl, Or.inr (.noTargetName isClause isName)⟩
  | body =>
      by_cases opens : Token.OpensWithBrace tokens
      · obtain ⟨brace, isHead, isOpening⟩ := opens
        obtain ⟨rest, rfl⟩ := List.head?_eq_some_iff.1 isHead
        rcases exists_skipBody rest isOpening with ⟨unclosed, -⟩ |
          ⟨body, left, same, enclosed, -⟩
        · exact ⟨brace :: rest, [], by simp, Or.inr (.unclosed ⟨brace, rfl, isOpening⟩ unclosed)⟩
        · exact ⟨body, left, same, Or.inl (.body enclosed)⟩
      · exact ⟨[], tokens, rfl, Or.inr (.noBody opens)⟩

end Parts

section Sequences

variable {part : HeaderPart} {parts : List HeaderPart} {taken left : List Token}

theorem readParts_of_matches (isMatch : Matches part taken left) (declaration : Declaration)
    (parts : List HeaderPart) :
    readParts declaration (taken ++ left) (part :: parts) =
      readParts (readPart part declaration (taken ++ left)).declaration left parts := by
  obtain ⟨found, isRest⟩ := readPart_of_matches isMatch declaration
  rw [readParts, if_pos found, isRest]

theorem readParts_of_breaksOff (breaksOff : BreaksOff part taken left) (declaration : Declaration)
    (parts : List HeaderPart) :
    readParts declaration (taken ++ left) (part :: parts) =
      ((readPart part declaration (taken ++ left)).declaration, left) := by
  obtain ⟨notFound, isRest⟩ := readPart_of_breaksOff breaksOff declaration
  rw [readParts, notFound, if_neg Bool.false_ne_true, isRest]

theorem readParts_of_takes (takes : Takes parts taken left) (declaration : Declaration) :
    (readParts declaration (taken ++ left) parts).2 = left := by
  induction takes generalizing declaration with
  | nil => rfl
  | part isMatch goesOn ih =>
      rw [List.append_assoc, readParts_of_matches isMatch]
      exact ih _
  | breakOff breaksOff => rw [readParts_of_breaksOff breaksOff]

theorem exists_takes (parts : List HeaderPart) (tokens : List Token) :
    ∃ taken left, tokens = taken ++ left ∧ Takes parts taken left := by
  induction parts generalizing tokens with
  | nil => exact ⟨[], tokens, rfl, .nil⟩
  | cons part parts ih =>
      obtain ⟨here, after, rfl, isMatch | breaksOff⟩ := exists_matches_or_breaksOff part tokens
      · obtain ⟨later, left, rfl, takes⟩ := ih after
        exact ⟨here ++ later, left, (List.append_assoc here later left).symm, .part isMatch takes⟩
      · exact ⟨here, after, rfl, .breakOff breaksOff⟩

/-- A header leaves what is after the tokens that its parts take. -/
theorem takes_iff_readParts (declaration : Declaration) :
    Takes parts taken left ↔ (readParts declaration (taken ++ left) parts).2 = left := by
  constructor
  · exact fun takes => readParts_of_takes takes declaration
  · intro isLeft
    obtain ⟨others, rest, same, takes⟩ := exists_takes parts (taken ++ left)
    have isRest : left = rest := by rw [← isLeft, same, readParts_of_takes takes declaration]
    subst isRest
    rwa [List.append_cancel_right same]

end Sequences

section Fronts

/-- An id is read from the first token, or reading stops at that token. -/
theorem readParts_id_cases (declaration : Declaration) (tokens : List Token)
    (parts : List HeaderPart) :
    (∃ token rest later, tokens = token :: rest ∧ OpensWithId tokens ∧
      readParts declaration tokens (.id :: parts) = readParts later rest parts ∧
      later.id.isSome = true ∧ later.name = declaration.name ∧
      later.interfaces = declaration.interfaces ∧ later.target = declaration.target) ∨
      (¬OpensWithId tokens ∧
        readParts declaration tokens (.id :: parts) = (declaration, tokens)) := by
  cases tokens with
  | nil => exact Or.inr ⟨not_opensWithId_nil, by simp [readParts, readPart, readId]⟩
  | cons token rest =>
      cases isId : objectId? token with
      | some id =>
          refine Or.inl ⟨token, rest,
            { declaration with id := some id, idSpan := some token.span }, rfl,
            opensWithId_cons.2 ⟨id, isId⟩, ?_, rfl, rfl, rfl, rfl⟩
          simp [readParts, readPart, readId, isId]
      | none =>
          refine Or.inr ⟨by simp [opensWithId_cons, isId], ?_⟩
          simp [readParts, readPart, readId, isId]

/-- A name before a clause is read from the first token, or reading stops at that token. -/
theorem readParts_name_cases {clause : List HeaderPart} (isClause : clause ∈ clauses)
    (declaration : Declaration) (noInterfaces : declaration.interfaces = [])
    (noTarget : declaration.target = none) (tokens : List Token) :
    (OpensWithName tokens ∧
      (readParts declaration tokens (.name :: clause)).1.name.isSome = true ∧
      (readParts declaration tokens (.name :: clause)).1.id = declaration.id) ∨
      (¬OpensWithName tokens ∧
        readParts declaration tokens (.name :: clause) = (declaration, tokens)) := by
  cases tokens with
  | nil => exact Or.inr ⟨not_opensWithName_nil, by simp [readParts, readPart, readName]⟩
  | cons token rest =>
      cases isName : token.isIdentifier with
      | true =>
          obtain ⟨names, object, -, isRead, -⟩ := readsClause isClause
            { declaration with name := some token.value, nameSpan := some token.span } rest
            noInterfaces noTarget
          refine Or.inl ⟨opensWithName_cons.2 isName, ?_⟩
          simp [readParts, readPart, readName, isName, isRead]
      | false =>
          refine Or.inr ⟨by simp [opensWithName_cons, isName], ?_⟩
          simp [readParts, readPart, readName, isName]

variable {kind : ObjectKind} (inTable : kind ∈ ObjectKind.all)

include inTable

/-- A header is complete with what its kind asks for.  Without that it takes its id, if there
is one, and nothing else. -/
theorem read_cases (keyword : Token) (tokens : List Token) :
    (Suffices kind tokens ∧ (read kind keyword tokens).1.isComplete kind = true) ∨
      (¬Suffices kind tokens ∧ (read kind keyword tokens).1.isComplete kind = false ∧
        (.id ∈ kind.parts ∧ OpensWithId tokens → (read kind keyword tokens).2 = tokens.tail) ∧
        (¬(.id ∈ kind.parts ∧ OpensWithId tokens) →
          (read kind keyword tokens).2 = tokens)) := by
  obtain ⟨front, isFront, clause, isClause, partsEq, hasIdEq, hasNameEq, -⟩ :=
    exists_front_clause kind inTable
  obtain ⟨noId, noName⟩ := not_mem_clause clause isClause
  simp only [Suffices, Declaration.isComplete, hasIdEq, hasNameEq, read, partsEq]
  simp only [fronts, List.mem_cons, List.not_mem_nil, or_false] at isFront
  rcases isFront with rfl | rfl | rfl
  · simp only [List.cons_append, List.nil_append]
    rcases readParts_id_cases (.started kind keyword.position) tokens (.name :: clause) with
      ⟨token, rest, later, rfl, isId, isRead, hasId, sameName, noInterfaces, noTarget⟩ |
      ⟨notId, isRead⟩
    · rw [isRead]
      rcases readParts_name_cases isClause later noInterfaces noTarget rest with
        ⟨isName, hasName, idEq⟩ | ⟨notName, isLeft⟩
      · refine Or.inl ⟨by simpa [isId] using isName, ?_⟩
        simp [hasName, idEq, hasId]
      · refine Or.inr ⟨by simpa [isId] using notName, ?_⟩
        rw [isLeft]
        simp [isId, sameName, Declaration.started]
    · refine Or.inr ⟨by simp [notId], ?_⟩
      rw [isRead]
      simp [notId, Declaration.started]
  · simp only [List.cons_append, List.nil_append]
    rcases readParts_name_cases isClause (.started kind keyword.position) rfl rfl tokens with
      ⟨isName, hasName, -⟩ | ⟨notName, isLeft⟩
    · exact Or.inl ⟨by simpa [noId] using isName, by simp [hasName]⟩
    · refine Or.inr ⟨by simpa [noId] using notName, ?_⟩
      rw [isLeft]
      simp [noId, Declaration.started]
  · exact Or.inl ⟨by simp [noId, noName], by simp⟩

end Fronts

end Header

namespace TokenStream.StandsFor

variable {stream : TokenStream} {token : Token} {rest : List Token} {symbols : SymbolTable}
  {issues : List Issue} {kind : ObjectKind}

/-- An attempt at a keyword finds a declaration if the header has what its kind asks for.  A
header without it is discarded, and the search goes on after what it has taken. -/
theorem attempt_at_keyword (stands : stream.StandsFor ⟨token :: rest, symbols, issues⟩)
    (names : token.NamesKind kind) :
    let header := Header.read kind token rest
    ∃ later, stream.attempt.2 = later ∧ later.StandsFor ⟨header.2, symbols, issues⟩ ∧
      (Header.Suffices kind rest → stream.attempt.1 = .found header.1 ∧
        stream.nextDeclaration = (some header.1, later)) ∧
      (¬Header.Suffices kind rest → stream.attempt.1 = .discarded kind ∧
        stream.nextDeclaration = later.nextDeclaration) := by
  intro header
  obtain ⟨later, isAttempt, after⟩ :=
    stands.attempt_of_keyword (ObjectKind.ofToken?_eq_some_iff.2 names)
  refine ⟨later, congrArg Prod.snd isAttempt, after, ?_⟩
  rcases Header.read_cases names.mem_all token rest with
    ⟨enough, complete⟩ | ⟨missing, incomplete, -⟩
  · rw [if_pos complete] at isAttempt
    refine ⟨fun _ => ⟨congrArg Prod.fst isAttempt, ?_⟩, absurd enough⟩
    rw [nextDeclaration_eq, isAttempt]
  · rw [incomplete, if_neg Bool.false_ne_true] at isAttempt
    refine ⟨fun enough => absurd enough missing, fun _ => ⟨congrArg Prod.fst isAttempt, ?_⟩⟩
    rw [nextDeclaration_eq, isAttempt]

end TokenStream.StandsFor

/-- A declaration that starts at a keyword bears its kind and its position. -/
theorem Header.startsAt_read {token : Token} {kind : ObjectKind} (names : token.NamesKind kind)
    {rest : List Token} (enough : Suffices kind rest) :
    (read kind token rest).1.kind = kind.keyword ∧
      (read kind token rest).1.position = token.position := by
  rcases read_cases names.mem_all token rest with ⟨-, complete⟩ | ⟨missing, -⟩
  · have isHere : (token :: rest).drop 0 = token :: rest := rfl
    obtain ⟨spells, -⟩ :=
      spells_read isHere (ObjectKind.ofToken?_eq_some_iff.2 names) complete
    obtain ⟨keyword, isFirst, -, -, positionEq⟩ := spells.keyword
    obtain rfl : token = keyword := Option.some.inj isFirst
    exact ⟨spells.kind_eq, positionEq⟩
  · exact absurd enough missing

/-- From a keyword on, a declaration is found if and only if the tokens go on with what its
kind asks for.  The header takes the tokens that its parts match, up to the part that breaks
off, and otherwise no more than the id.  The token after these is the next to be looked at,
and a keyword there starts a header in turn. -/
theorem headers_declare_and_resume {token : Token} {kind : ObjectKind}
    (names : token.NamesKind kind) (rest : List Token) :
    let left := (Header.read kind token rest).2
    left <:+ rest ∧
      (∀ taken others, rest = taken ++ others →
        (Header.Takes kind.parts taken others ↔ others = left)) ∧
      (¬Header.Suffices kind rest →
        (.id ∈ kind.parts ∧ Header.OpensWithId rest → left = rest.tail) ∧
        (¬(.id ∈ kind.parts ∧ Header.OpensWithId rest) → left = rest)) ∧
      ∀ (stream : TokenStream) symbols issues,
        stream.StandsFor ⟨token :: rest, symbols, issues⟩ →
        let later := stream.attempt.2
        later.StandsFor ⟨left, symbols, issues⟩ ∧
          ((∃ declaration, stream.attempt.1 = .found declaration) ↔
            Header.Suffices kind rest) ∧
          (Header.Suffices kind rest → ∃ declaration,
            stream.attempt.1 = .found declaration ∧
            stream.nextDeclaration = (some declaration, later) ∧
            declaration.kind = kind.keyword ∧ declaration.position = token.position) ∧
          (¬Header.Suffices kind rest → stream.attempt.1 = .discarded kind ∧
            stream.nextDeclaration = later.nextDeclaration) ∧
          ∀ (offending : Token) (others : List Token) (other : ObjectKind),
            left = offending :: others → offending.NamesKind other →
            (Header.Suffices other others → ∃ declaration,
              later.nextDeclaration.1 = some declaration ∧
              declaration.kind = other.keyword ∧
              declaration.position = offending.position) ∧
            (¬Header.Suffices other others → later.attempt.1 = .discarded other) := by
  intro left
  refine ⟨Header.read_suffix kind token rest, ?_, ?_, ?_⟩
  · rintro taken others rfl
    rw [Header.takes_iff_readParts (.started kind token.position)]
    exact eq_comm
  · intro missing
    rcases Header.read_cases names.mem_all token rest with ⟨enough, -⟩ | ⟨-, -, isLeft⟩
    · exact absurd enough missing
    · exact isLeft
  · intro stream symbols issues stands
    obtain ⟨later, isLater, after, finds, discards⟩ := stands.attempt_at_keyword names
    rw [isLater]
    refine ⟨after, ⟨?_, ?_⟩, ?_, ?_, ?_⟩
    · rintro ⟨declaration, isFound⟩
      by_contra missing
      rw [(discards missing).1] at isFound
      cases isFound
    · exact fun enough => ⟨_, (finds enough).1⟩
    · intro enough
      obtain ⟨isAttempt, isNext⟩ := finds enough
      exact ⟨_, isAttempt, isNext, Header.startsAt_read names enough⟩
    · exact discards
    · intro offending others other isLeft isKeyword
      have afterLeft : later.StandsFor ⟨offending :: others, symbols, issues⟩ := isLeft ▸ after
      obtain ⟨last, -, -, findsNext, discardsNext⟩ := afterLeft.attempt_at_keyword isKeyword
      refine ⟨fun enough => ?_, fun missing => (discardsNext missing).1⟩
      exact ⟨_, congrArg Prod.fst (findsNext enough).2, Header.startsAt_read isKeyword enough⟩

/-- A codeunit without an id takes its keyword only, and the enum on the same line is found.
Its interfaces break off after a comma, so that its body is left. -/
theorem headers_declare_and_resume_at_second_keyword :
    let source := "codeunit enum 5 \"T\" implements A, \x7b \x7d"
    let stream := TokenStream.ofText source .empty
    let rest := (Preprocessed.ofText source .empty).tokens.tail
    ¬Header.Suffices (.implementing "codeunit") rest ∧
      stream.attempt.1 = .discarded (.implementing "codeunit") ∧
      (∃ declaration, stream.nextDeclaration.1 = some declaration ∧
        declaration.kind = "enum" ∧ declaration.position = ⟨0, 9⟩) ∧
      stream.nextDeclaration.2.remaining.map Token.text = ["\x7b", "\x7d"] := by
  intro source stream rest
  let text := Preprocessed.ofText source .empty
  let keyword := text.tokens.headI
  let second := rest.headI
  -- What the text is cut into is evaluated once.
  obtain ⟨isText, isWord, sameWord, nextIsWord, sameNext, missing, noId, isNextLeft, enough,
      isThere⟩ :
      text = ⟨keyword :: rest, text.symbols, text.issues⟩ ∧ keyword.kind = .word ∧
        Text.equalIgnoringCase "codeunit" keyword.text = true ∧ second.kind = .word ∧
        Text.equalIgnoringCase "enum" second.text = true ∧
        ¬Header.Suffices (.implementing "codeunit") rest ∧ ¬Header.OpensWithId rest ∧
        rest = second :: rest.tail ∧ Header.Suffices (.implementing "enum") rest.tail ∧
        second.position = ⟨0, 9⟩ := by
    decide +kernel
  have names : keyword.NamesKind (.implementing "codeunit") := ⟨by decide, isWord, sameWord⟩
  have nextNames : second.NamesKind (.implementing "enum") := ⟨by decide, nextIsWord, sameNext⟩
  have stands : stream.StandsFor ⟨keyword :: rest, text.symbols, text.issues⟩ :=
    isText ▸ TokenStream.standsFor_ofText source .empty
  obtain ⟨-, -, resumes, attempts⟩ := headers_declare_and_resume names rest
  obtain ⟨-, -, -, discards, starts⟩ := attempts stream text.symbols text.issues stands
  obtain ⟨isAttempt, isNext⟩ := discards missing
  have isLeft := ((resumes missing).2 fun hasId => noId hasId.2).trans isNextLeft
  obtain ⟨declaration, isFound, isEnum, isPosition⟩ :=
    (starts second rest.tail (.implementing "enum") isLeft nextNames).1 enough
  refine ⟨missing, isAttempt, ⟨declaration, ?_, isEnum, isPosition.trans isThere⟩, ?_⟩
  · rw [isNext, isFound]
  · decide +kernel

end ObjectIds
