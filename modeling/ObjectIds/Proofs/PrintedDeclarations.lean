import ObjectIds.Proofs.HeaderSpelling
import ObjectIds.Proofs.OpaqueBodies
import ObjectIds.Proofs.WrittenTokens

/-!
# Printing declarations and finding them again

A declaration is printed as the keyword of its kind, its id and name, its clause, and a
body between braces.  Names may hold any characters, since they are printed in quotes, and
keywords may be in any letter case.  A scan of printed declarations finds the same
declarations where they were printed, and it notes no issue and no symbol.
-/

namespace ObjectIds

/-- The keyword of the clause that a part of a header is. -/
def HeaderPart.clauseKeyword? : HeaderPart → Option String
  | .interfaces => some "implements"
  | .target keyword => some keyword
  | .id | .name | .body => none

/-- A declaration of a kind and the way it is printed: the spelling of its keywords, the
numbers of spaces after a comma and before the opening brace, and the body. -/
structure PrintedDeclaration where
  kind : ObjectKind
  id : Option UInt32
  name : Option String
  interfaces : List String
  target : Option String
  keyword : String
  clauseKeyword : String
  commaSpaces : Nat
  braceSpaces : Nat
  body : String
  inTable : kind ∈ ObjectKind.all
  id_isSome : id.isSome = kind.hasId
  id_ne_zero : id ≠ some 0
  name_isSome : name.isSome = kind.hasName
  interfaces_eq_nil : .interfaces ∉ kind.parts → interfaces = []
  target_isSome : target.isSome = true ↔ ∃ word, .target word ∈ kind.parts
  isKeyword : Text.equalIgnoringCase kind.keyword keyword = true
  isClauseKeyword : ∀ part ∈ kind.parts, ∀ word ∈ part.clauseKeyword?,
    Text.equalIgnoringCase word clauseKeyword = true
  isBody : IsBody body

namespace WrittenToken

/-- Names with commas between them, after spaces. -/
def names (spaces commaSpaces : Nat) (first : String) (others : List String) :
    List WrittenToken :=
  name spaces first :: others.flatMap fun other => [mark 0 ',', name commaSpaces other]

theorem names_cons (spaces commaSpaces : Nat) (first other : String) (others : List String) :
    names spaces commaSpaces first (other :: others) =
      name spaces first :: mark 0 ',' :: names commaSpaces commaSpaces other others := rfl

end WrittenToken

namespace PrintedDeclaration

open WrittenToken (printAll)

def start (printed : PrintedDeclaration) : WrittenToken := .keyword 0 printed.keyword

def front (printed : PrintedDeclaration) : List WrittenToken :=
  printed.id.toList.map (.number 1) ++ printed.name.toList.map (.name 1)

def clause (printed : PrintedDeclaration) : List WrittenToken :=
  match printed.interfaces with
  | [] => printed.target.toList.flatMap fun target =>
      [.keyword 1 printed.clauseKeyword, .name 1 target]
  | first :: others =>
      .keyword 1 printed.clauseKeyword ::
        WrittenToken.names 1 printed.commaSpaces first others

/-- The header of a declaration and the brace that opens its body. -/
def header (printed : PrintedDeclaration) : List WrittenToken :=
  printed.start :: (printed.front ++ (printed.clause ++ [.mark printed.braceSpaces '{']))

def print (printed : PrintedDeclaration) : List Char :=
  printAll printed.header ++
    '\n' :: (printed.body.toList ++ '\n' :: (printAll [.mark 0 '}'] ++ ['\n']))

/-- What a scan finds where a declaration was printed. -/
def declaration (place : Place) (printed : PrintedDeclaration) : Declaration :=
  let afterKeyword := place.advance printed.start.print
  let beforeName := afterKeyword.advance (printAll (printed.id.toList.map (.number 1)))
  { kind := printed.kind.keyword
    id := printed.id
    name := printed.name
    interfaces := printed.interfaces
    target := printed.target
    position := place.position
    idSpan := printed.id.map fun id => ((WrittenToken.number 1 id).token afterKeyword).span
    nameSpan := printed.name.map fun name =>
      ((WrittenToken.name 1 name).token beforeName).span }

def text (printed : List PrintedDeclaration) : String :=
  String.ofList (printed.flatMap print)

/-- What a scan finds where declarations were printed one after the other. -/
def declarations (place : Place) : List PrintedDeclaration → List Declaration
  | [] => []
  | first :: others =>
      first.declaration place :: declarations (place.advance first.print) others

end PrintedDeclaration

namespace WrittenToken

/-- Whether a header goes on with a space or with the brace that opens the body. -/
def GoesOn (written : List WrittenToken) : Prop :=
  ∃ character, (printAll written).head? = some character ∧
    (character = ' ' ∨ character = '{')

theorem goesOn_cons {first : WrittenToken} (others : List WrittenToken)
    (oneSpace : first.spaces = 1) : GoesOn (first :: others) := by
  refine ⟨' ', ?_, Or.inl rfl⟩
  simp [print, gap, oneSpace]

theorem goesOn_append {first second : List WrittenToken}
    (oneSpace : ∀ written ∈ first, written.spaces = 1) (goesOn : GoesOn second) :
    GoesOn (first ++ second) := by
  cases first with
  | nil => exact goesOn
  | cons written others => exact goesOn_cons _ (oneSpace written List.mem_cons_self)

theorem goesOn_brace (spaces : Nat) : GoesOn [mark spaces '{'] := by
  cases spaces with
  | zero => exact ⟨'{', rfl, Or.inr rfl⟩
  | succ spaces => exact ⟨' ', rfl, Or.inl rfl⟩

/-- A keyword, an id and a name fit before whatever a header goes on with. -/
theorem fit_cons_of_goesOn {first : WrittenToken} {others : List WrittenToken}
    {next : Option Char} (goesOn : GoesOn others) (othersFit : Fit next others)
    (fits : ∀ character, character = ' ' ∨ character = '{' →
      Piece.Fits (.token first.kind true) first.text (some character)) :
    Fit next (first :: others) := by
  obtain ⟨character, isNext, isBlank⟩ := goesOn
  refine ⟨?_, othersFit⟩
  rw [isNext, Option.some_or]
  exact fits character isBlank

theorem fit_mark {character : Char} {spaces : Nat} (next : Option Char)
    (isMark : character ∈ Piece.punctuation) : Fit next [mark spaces character] :=
  ⟨.punctuation isMark, trivial⟩

theorem fit_names (spaces commaSpaces : Nat) (first : String) (others : List String)
    {next : Option Char} (alone : next ≠ some '"') :
    Fit next (names spaces commaSpaces first others) := by
  induction others generalizing spaces first with
  | nil => exact ⟨fits_name first alone, trivial⟩
  | cons other others ih =>
      rw [names_cons]
      refine ⟨fits_name first (by simp [print, gap, mark]), ?_⟩
      exact ⟨.punctuation (by decide), ih commaSpaces other⟩

theorem fits_keyword_before {plain word : String} (isLetters : IsLetters plain)
    (isKeyword : Text.equalIgnoringCase plain word = true) (character : Char)
    (isNext : character = ' ' ∨ character = '{') :
    Piece.Fits (.token .word true) word.toList (some character) := by
  refine fits_keyword isLetters isKeyword ?_
  rw [Piece.stops_some]
  rcases isNext with rfl | rfl <;> decide

theorem fits_number_before (id : UInt32) (character : Char)
    (isNext : character = ' ' ∨ character = '{') :
    Piece.Fits (.token .number true) (Text.decimalText id).toList (some character) := by
  rcases isNext with rfl | rfl
  · exact fits_number id rfl (by decide)
  · exact fits_number id rfl (by decide)

theorem fits_name_before (text : String) (character : Char)
    (isNext : character = ' ' ∨ character = '{') :
    Piece.Fits (.token .quotedIdentifier true)
      ('"' :: (Text.quote '"' text.toList ++ ['"'])) (some character) := by
  rcases isNext with rfl | rfl
  · exact fits_name text (by decide)
  · exact fits_name text (by decide)

end WrittenToken

theorem ObjectKind.isLetters_keyword :
    ∀ kind ∈ all, WrittenToken.IsLetters kind.keyword := by
  unfold WrittenToken.IsLetters
  decide

theorem ObjectKind.isLetters_clauseKeyword :
    ∀ kind ∈ all, ∀ part ∈ kind.parts, ∀ word ∈ part.clauseKeyword?,
      WrittenToken.IsLetters word := by
  unfold WrittenToken.IsLetters
  decide

theorem Piece.filterMap_token?_lexemesFrom (place : Place) (text : List Char) :
    (lexemesFrom place text).filterMap token? = (listFrom place text).filterMap token? := by
  rw [lexemesFrom, List.filterMap_filter]
  congr 1
  funext piece
  obtain ⟨shape, text, start⟩ := piece
  cases shape <;> simp [isSilent, token?]

namespace PrintedDeclaration

open WrittenToken

variable (printed : PrintedDeclaration)

theorem goesOn_clause (spaces : Nat) : GoesOn (printed.clause ++ [.mark spaces '{']) := by
  unfold clause
  split
  · cases printed.target with
    | none => exact goesOn_brace spaces
    | some target => exact goesOn_cons _ rfl
  · exact goesOn_cons _ rfl

theorem goesOn_front (spaces : Nat) :
    GoesOn (printed.front ++ (printed.clause ++ [.mark spaces '{'])) := by
  refine goesOn_append ?_ (printed.goesOn_clause spaces)
  intro written member
  rcases List.mem_append.1 member with isId | isName
  · obtain ⟨id, -, rfl⟩ := List.mem_map.1 isId
    rfl
  · obtain ⟨name, -, rfl⟩ := List.mem_map.1 isName
    rfl

theorem fits_clauseKeyword {part : HeaderPart} (inParts : part ∈ printed.kind.parts)
    {word : String} (isWord : part.clauseKeyword? = some word) (character : Char)
    (isNext : character = ' ' ∨ character = '{') :
    Piece.Fits (.token .word true) printed.clauseKeyword.toList (some character) :=
  fits_keyword_before
    (ObjectKind.isLetters_clauseKeyword _ printed.inTable part inParts word isWord)
    (printed.isClauseKeyword part inParts word isWord) character isNext

theorem fit_clause (spaces : Nat) (next : Option Char) :
    Fit next (printed.clause ++ [.mark spaces '{']) := by
  have braceFits : Fit next [mark spaces '{'] := fit_mark next (by decide)
  unfold clause
  split
  · cases isTarget : printed.target with
    | none => exact braceFits
    | some target =>
        obtain ⟨word, inParts⟩ := printed.target_isSome.1 (by simp [isTarget])
        refine fit_cons_of_goesOn (goesOn_cons _ rfl) ?_ (printed.fits_clauseKeyword inParts rfl)
        exact fit_cons_of_goesOn (goesOn_brace spaces) braceFits (fits_name_before target)
  · rename_i first others isInterfaces
    have inParts : .interfaces ∈ printed.kind.parts := by
      by_contra notThere
      simp [printed.interfaces_eq_nil notThere] at isInterfaces
    refine fit_cons_of_goesOn (goesOn_cons _ rfl) ?_ (printed.fits_clauseKeyword inParts rfl)
    refine (fit_append next _ _).2 ⟨fit_names _ _ first others ?_, braceFits⟩
    obtain ⟨character, isNext, isBlank⟩ := goesOn_brace spaces
    rw [isNext, Option.some_or]
    rcases isBlank with rfl | rfl <;> decide

theorem fit_header (next : Option Char) : Fit next printed.header := by
  have clauseFits := printed.fit_clause printed.braceSpaces next
  have clauseGoesOn := printed.goesOn_clause printed.braceSpaces
  have isLetters := ObjectKind.isLetters_keyword _ printed.inTable
  refine fit_cons_of_goesOn (printed.goesOn_front _) ?_
    (fits_keyword_before isLetters printed.isKeyword)
  have nameFits : Fit next (printed.name.toList.map (.name 1) ++
      (printed.clause ++ [.mark printed.braceSpaces '{'])) := by
    cases printed.name with
    | none => exact clauseFits
    | some name => exact fit_cons_of_goesOn clauseGoesOn clauseFits (fits_name_before name)
  have nameGoesOn : GoesOn (printed.name.toList.map (.name 1) ++
      (printed.clause ++ [.mark printed.braceSpaces '{'])) := by
    cases printed.name with
    | none => exact clauseGoesOn
    | some name => exact goesOn_cons _ rfl
  rw [front, List.append_assoc]
  cases printed.id with
  | none => exact nameFits
  | some id => exact fit_cons_of_goesOn nameGoesOn nameFits (fits_number_before id)

/-- The place where the body of a declaration starts. -/
def bodyPlace (place : Place) : Place :=
  (place.advance (printAll printed.header)).advance ['\n']

def closePlace (place : Place) : Place :=
  (printed.bodyPlace place).advance (printed.body.toList ++ ['\n'])

/-- The pieces of a printed declaration that show something. -/
def pieces (place : Place) : List Piece :=
  WrittenToken.pieces place printed.header ++
    (Piece.lexemesFrom (printed.bodyPlace place) printed.body.toList ++
      WrittenToken.pieces (printed.closePlace place) [.mark 0 '}'])

theorem lexemesFrom_print (place : Place) (rest : List Char) :
    Piece.lexemesFrom place (printed.print ++ rest) =
      printed.pieces place ++ Piece.lexemesFrom (place.advance printed.print) rest := by
  have closeFits : Fit ('\n' :: rest).head? [mark 0 '}'] := fit_mark _ (by decide)
  have closePlaceEq : (printed.closePlace place).advance (printAll [mark 0 '}'] ++ ['\n']) =
      place.advance printed.print := by
    simp [closePlace, bodyPlace, print]
  calc
    Piece.lexemesFrom place (printed.print ++ rest) =
        Piece.lexemesFrom place (printAll printed.header ++
          (['\n'] ++ (printed.body.toList ++ '\n' ::
            (printAll [.mark 0 '}'] ++ '\n' :: rest)))) := by
      simp [print]
    _ = WrittenToken.pieces place printed.header ++
          Piece.lexemesFrom (printed.bodyPlace place) (printed.body.toList ++ '\n' ::
            (printAll [.mark 0 '}'] ++ '\n' :: rest)) := by
      rw [lexemesFrom_printAll place (printed.fit_header _),
        Piece.lexemesFrom_spacing _ _ Piece.isSpacing_newline]
      rfl
    _ = printed.pieces place ++ Piece.lexemesFrom
          ((printed.closePlace place).advance (printAll [mark 0 '}'])) (['\n'] ++ rest) := by
      rw [Piece.lexemesFrom_append_newline _ _ _ (printed.isBody.isClosed _),
        lexemesFrom_printAll _ closeFits, pieces, List.append_assoc, List.append_assoc]
      rfl
    _ = printed.pieces place ++ Piece.lexemesFrom (place.advance printed.print) rest := by
      rw [Piece.lexemesFrom_spacing _ _ Piece.isSpacing_newline, ← Place.advance_append,
        closePlaceEq]

theorem quiet_pieces (place : Place) :
    ∀ piece ∈ printed.pieces place, piece.directive? = none ∧ piece.fault? = none := by
  intro piece member
  rcases List.mem_append.1 member with inHeader | later
  · exact WrittenToken.quiet_pieces place _ piece inHeader
  · rcases List.mem_append.1 later with inBody | isBrace
    · have isPiece := (List.mem_filter.1 inBody).1
      exact ⟨printed.isBody.directive?_eq_none _ piece isPiece,
        printed.isBody.fault?_eq_none _ piece isPiece⟩
    · exact WrittenToken.quiet_pieces _ _ piece isBrace

/-- The tokens of a printed body and the brace that closes it. -/
def bodyTokens (place : Place) : List Token :=
  (Piece.listFrom (printed.bodyPlace place) printed.body.toList).filterMap Piece.token? ++
    [(mark 0 '}').token (printed.closePlace place)]

theorem filterMap_token?_pieces (place : Place) :
    (printed.pieces place).filterMap Piece.token? =
      WrittenToken.tokens place printed.header ++ printed.bodyTokens place := by
  rw [pieces, List.filterMap_append, List.filterMap_append,
    WrittenToken.filterMap_token?_pieces, WrittenToken.filterMap_token?_pieces,
    Piece.filterMap_token?_lexemesFrom]
  rfl

theorem readParts_body (declaration : Declaration) (place : Place) {brace : Token}
    (opens : brace.isSymbol "\x7b" = true) (rest : List Token) :
    Header.readParts declaration (brace :: (printed.bodyTokens place ++ rest)) [.body] =
      (declaration, rest) := by
  have balanced := printed.isBody.balanced_tokens (printed.bodyPlace place)
  have skipped :
      Header.skipBody (brace :: (printed.bodyTokens place ++ rest)) = (true, rest) := by
    rw [Header.skipBody, if_pos opens, bodyTokens, List.append_assoc]
    exact Header.skipToClosing_balanced rest balanced rfl
  simp [Header.readParts, Header.readPart, skipped]

end PrintedDeclaration

namespace Header

open WrittenToken

/-- An id and a name that are written as parts ask for them are read back. -/
theorem readParts_written_front {front : List HeaderPart} (isFront : front ∈ fronts)
    {id : Option UInt32} {name : Option String} (hasId : id.isSome = front.contains .id)
    (notZero : id ≠ some 0) (hasName : name.isSome = front.contains .name)
    (clause : List HeaderPart) (kind : ObjectKind) (position : Position) (place : Place)
    (rest : List Token) :
    readParts (.started kind position)
        (tokens place (id.toList.map (.number 1) ++ name.toList.map (.name 1)) ++ rest)
        (front ++ clause) =
      readParts
        { kind := kind.keyword, id := id, name := name, interfaces := [], target := none
          position := position
          idSpan := id.map fun id => ((number 1 id).token place).span
          nameSpan := name.map fun name => ((WrittenToken.name 1 name).token
            (place.advance (printAll (id.toList.map (.number 1))))).span }
        rest clause := by
  simp only [fronts, List.mem_cons, List.not_mem_nil, or_false] at isFront
  rcases isFront with rfl | rfl | rfl
  · obtain ⟨id, rfl⟩ := Option.isSome_iff_exists.1 (hasId.trans rfl)
    obtain ⟨name, rfl⟩ := Option.isSome_iff_exists.1 (hasName.trans rfl)
    have isId := objectId?_number place 1 (by simpa using notZero)
    simp [readParts, readPart, readId, readName, isId, Declaration.started]
  · obtain rfl := Option.isNone_iff_eq_none.1 (Option.isSome_eq_false_iff.1 (hasId.trans rfl))
    obtain ⟨name, rfl⟩ := Option.isSome_iff_exists.1 (hasName.trans rfl)
    simp [readParts, readPart, readName, Declaration.started]
  · obtain rfl := Option.isNone_iff_eq_none.1 (Option.isSome_eq_false_iff.1 (hasId.trans rfl))
    obtain rfl :=
      Option.isNone_iff_eq_none.1 (Option.isSome_eq_false_iff.1 (hasName.trans rfl))
    rfl

/-- Names that are written with commas between them are read back. -/
theorem readNames_written (spaces commaSpaces : Nat) (first : String) (others : List String)
    (place : Place) {next : Token} (rest : List Token)
    (noComma : next.isSymbol "," = false) :
    readNames (tokens place (names spaces commaSpaces first others) ++ next :: rest) =
      ⟨true, first :: others, next :: rest⟩ := by
  induction others generalizing spaces first place with
  | nil => simp [names, readNames, noComma]
  | cons other others ih =>
      have isComma (place : Place) : ((mark 0 ',').token place).isSymbol "," = true := rfl
      simp [names_cons, readNames, isComma, ih]

end Header

namespace PrintedDeclaration

open WrittenToken

variable (printed : PrintedDeclaration)

theorem target_eq_none (noPart : ∀ word, .target word ∉ printed.kind.parts) :
    printed.target = none := by
  cases isTarget : printed.target with
  | none => rfl
  | some target =>
      obtain ⟨word, inParts⟩ := printed.target_isSome.1 (by simp [isTarget])
      exact absurd inParts (noPart word)

theorem readInterfaces_clause (inParts : .interfaces ∈ printed.kind.parts)
    (noTarget : printed.target = none) {declaration : Declaration}
    (noInterfaces : declaration.interfaces = []) (place : Place) {brace : Token}
    (opens : brace.isSymbol "\x7b" = true) (rest : List Token) :
    Header.readInterfaces declaration (tokens place printed.clause ++ brace :: rest) =
      ⟨true, { declaration with interfaces := printed.interfaces }, brace :: rest⟩ := by
  obtain ⟨isSymbol, isBrace⟩ := Bool.and_eq_true_iff.1 opens
  have noKeyword : brace.isKeyword "implements" = false := by
    simp [Token.isKeyword, eq_of_beq isSymbol]
  have noComma : brace.isSymbol "," = false := by
    simp [Token.isSymbol, eq_of_beq isBrace]
  have isKeyword := printed.isClauseKeyword .interfaces inParts "implements" rfl
  cases isInterfaces : printed.interfaces with
  | nil =>
      have noClause : printed.clause = [] := by simp [clause, isInterfaces, noTarget]
      simp [noClause, Header.readInterfaces, noKeyword, ← noInterfaces]
  | cons first others =>
      have clauseEq : printed.clause = .keyword 1 printed.clauseKeyword ::
          names 1 printed.commaSpaces first others := by
        simp [clause, isInterfaces]
      rw [clauseEq, tokens_cons, List.cons_append, Header.readInterfaces,
        isKeyword_keyword, if_pos isKeyword, Header.readNames_written _ _ _ _ _ _ noComma]

theorem readTarget_clause {word : String} (inParts : .target word ∈ printed.kind.parts)
    (noInterfaces : printed.interfaces = []) (declaration : Declaration) (place : Place)
    (rest : List Token) :
    Header.readTarget word declaration (tokens place printed.clause ++ rest) =
      ⟨true, { declaration with target := printed.target }, rest⟩ := by
  have isKeyword := printed.isClauseKeyword (.target word) inParts word rfl
  obtain ⟨target, isTarget⟩ :=
    Option.isSome_iff_exists.1 (printed.target_isSome.2 ⟨word, inParts⟩)
  have clauseEq : printed.clause = [.keyword 1 printed.clauseKeyword, .name 1 target] := by
    simp [clause, noInterfaces, isTarget]
  simp [clauseEq, Header.readTarget, isKeyword, isTarget]

/-- A clause and a body that are written as parts ask for them are read back, and the
tokens after the body are left. -/
theorem readParts_clause {parts : List HeaderPart} (isClause : parts ∈ Header.clauses)
    (sameClause : ∀ part, part ≠ .id → part ≠ .name →
      (part ∈ printed.kind.parts ↔ part ∈ parts))
    {declaration : Declaration} (noInterfaces : declaration.interfaces = [])
    (noTarget : declaration.target = none) (place bodyPlace : Place) {brace : Token}
    (opens : brace.isSymbol "\x7b" = true) (rest : List Token) :
    Header.readParts declaration
        (tokens place printed.clause ++ brace :: (printed.bodyTokens bodyPlace ++ rest))
        parts =
      ({ declaration with interfaces := printed.interfaces, target := printed.target },
        rest) := by
  have interfacesIff := sameClause .interfaces (by simp) (by simp)
  have targetIff (word : String) := sameClause (.target word) (by simp) (by simp)
  rcases Header.eq_of_mem_clauses isClause with rfl | rfl | ⟨word, rfl⟩
  · have noneListed := printed.interfaces_eq_nil (by simp [interfacesIff])
    have noneNamed := printed.target_eq_none (by simp [targetIff])
    have noClause : printed.clause = [] := by simp [clause, noneListed, noneNamed]
    rw [noClause, noneListed, noneNamed, ← noInterfaces, ← noTarget]
    exact printed.readParts_body _ _ opens rest
  · have noneNamed := printed.target_eq_none (by simp [targetIff])
    rw [Header.readParts, Header.readPart,
      printed.readInterfaces_clause (interfacesIff.2 (by simp)) noneNamed noInterfaces place
        opens, noneNamed, ← noTarget]
    exact printed.readParts_body _ _ opens rest
  · have noneListed := printed.interfaces_eq_nil (by simp [interfacesIff])
    rw [Header.readParts, Header.readPart,
      printed.readTarget_clause ((targetIff word).2 (by simp)) noneListed, noneListed,
      ← noInterfaces]
    exact printed.readParts_body _ _ opens rest

theorem ofToken?_start (place : Place) :
    ObjectKind.ofToken? (printed.start.token place) = some printed.kind := by
  have isKeyword : ObjectKind.ofKeyword? printed.keyword = some printed.kind :=
    ObjectKind.ofKeyword?_eq_some_iff.2 ⟨printed.inTable, printed.isKeyword⟩
  simpa [ObjectKind.ofToken?, start, token, WrittenToken.keyword] using isKeyword

theorem isComplete_declaration (place : Place) :
    (printed.declaration place).isComplete printed.kind = true := by
  simp [Declaration.isComplete, declaration, printed.id_isSome, printed.name_isSome]

theorem read_written (place : Place) (rest : List Token) :
    Header.read printed.kind (printed.start.token place)
        (tokens (place.advance printed.start.print)
            (printed.front ++ (printed.clause ++ [.mark printed.braceSpaces '{'])) ++
          (printed.bodyTokens place ++ rest)) =
      (printed.declaration place, rest) := by
  obtain ⟨front, isFront, clause, isClause, partsEq, hasIdEq, hasNameEq, -⟩ :=
    Header.exists_front_clause printed.kind printed.inTable
  have hasId := printed.id_isSome.trans hasIdEq
  have hasName := printed.name_isSome.trans hasNameEq
  have sameClause (part : HeaderPart) (notId : part ≠ .id) (notName : part ≠ .name) :
      part ∈ printed.kind.parts ↔ part ∈ clause := by
    rw [partsEq]
    exact Header.mem_append_clause_iff isFront notId notName
  have opens (place : Place) :
      ((mark printed.braceSpaces '{').token place).isSymbol "\x7b" = true := rfl
  simp only [tokens_append, tokens_cons, tokens_nil, List.append_assoc, List.cons_append,
    List.nil_append, Header.read]
  rw [partsEq, PrintedDeclaration.front, 
    Header.readParts_written_front isFront hasId printed.id_ne_zero hasName,
    printed.readParts_clause isClause sameClause rfl rfl _ _ (opens _)]
  rfl

/-- The next declaration among the tokens of a printed declaration is that declaration. -/
theorem next_written (place : Place) (rest : List Token) :
    Declaration.next ((printed.pieces place).filterMap Piece.token? ++ rest) =
      (some (printed.declaration place), rest) := by
  rw [filterMap_token?_pieces, header, tokens_cons, List.append_assoc, List.cons_append,
    Declaration.next, ofToken?_start]
  simp only [read_written, isComplete_declaration, if_pos]

def allPieces (place : Place) : List PrintedDeclaration → List Piece
  | [] => []
  | first :: others => first.pieces place ++ allPieces (place.advance first.print) others

theorem lexemesFrom_flatMap_print (place : Place) (all : List PrintedDeclaration) :
    Piece.lexemesFrom place (all.flatMap print) = allPieces place all := by
  induction all generalizing place with
  | nil => exact Piece.lexemesFrom_nil place
  | cons first others ih => rw [List.flatMap_cons, lexemesFrom_print, ih, allPieces]

theorem quiet_allPieces (place : Place) (all : List PrintedDeclaration) :
    ∀ piece ∈ allPieces place all, piece.directive? = none ∧ piece.fault? = none := by
  induction all generalizing place with
  | nil => simp [allPieces]
  | cons first others ih =>
      intro piece member
      rcases List.mem_append.1 member with isFirst | later
      · exact first.quiet_pieces place piece isFirst
      · exact ih _ piece later

theorem listOfTokens_allPieces (place : Place) (all : List PrintedDeclaration) :
    Declaration.listOfTokens ((allPieces place all).filterMap Piece.token?) =
      declarations place all := by
  induction all generalizing place with
  | nil => simp [allPieces, declarations, Declaration.listOfTokens_eq, Declaration.next]
  | cons first others ih =>
      rw [allPieces, List.filterMap_append, Declaration.listOfTokens_eq, next_written]
      simp only [ih, declarations]

end PrintedDeclaration

/-- A scan of printed declarations finds them again, and nothing else. -/
theorem scan_printed (printed : List PrintedDeclaration) (symbols : SymbolTable) :
    Scan.ofText (PrintedDeclaration.text printed) symbols =
      ⟨PrintedDeclaration.declarations .start printed, symbols, []⟩ := by
  have quiet := PrintedDeclaration.quiet_allPieces .start printed
  have noDirectives : ∀ piece ∈ PrintedDeclaration.allPieces .start printed,
      piece.directive? = none := fun piece member => (quiet piece member).1
  have noIssues : (Conditions.initial symbols).metIssues
      (PrintedDeclaration.allPieces .start printed) = [] := by
    rw [Conditions.metIssues_of_no_directives noDirectives, List.filterMap_eq_nil_iff]
    intro piece member
    simp [(quiet piece member).2]
  rw [Scan.ofText, Preprocessed.ofText_eq_ofPieces_lexemesFrom, PrintedDeclaration.text,
    String.toList_ofList, PrintedDeclaration.lexemesFrom_flatMap_print,
    Preprocessed.ofPieces_eq, Conditions.afterAll_of_no_directives _ noDirectives, noIssues,
    Conditions.visibleTokens_of_no_directives rfl noDirectives, Preprocessed.scan]
  simp only [PrintedDeclaration.listOfTokens_allPieces]
  rfl

/-- Quotes, braces, comments and directives in a name do not hide the declaration after
it, and neither does a brace in a comment of a body. -/
theorem scan_printed_codeunit_and_dotnet :
    let source := "CodeUnit 7 \"a\"\"\x7b //\n#if\" IMPLEMENTS \"I\",\"J\" \x7b\n" ++
      "b \x7b c \x7d // \x7d\n\x7d\nDotNet\x7b\n\n\x7d\n"
    ∃ printed : List PrintedDeclaration, PrintedDeclaration.text printed = source ∧
      Scan.ofText source .empty =
        ⟨PrintedDeclaration.declarations .start printed, .empty, []⟩ ∧
      (PrintedDeclaration.declarations .start printed).map Declaration.kind =
        ["codeunit", "dotnet"] ∧
      (PrintedDeclaration.declarations .start printed).map Declaration.name =
        [some "a\"\x7b //\n#if", none] := by
  intro source
  let codeunit : PrintedDeclaration :=
    { kind := .implementing "codeunit", id := some 7, name := some "a\"\x7b //\n#if"
      interfaces := ["I", "J"], target := none
      keyword := "CodeUnit", clauseKeyword := "IMPLEMENTS"
      commaSpaces := 0, braceSpaces := 1, body := "b \x7b c \x7d // \x7d"
      inTable := by decide
      id_isSome := rfl
      id_ne_zero := by decide
      name_isSome := rfl
      interfaces_eq_nil := by decide
      target_isSome := by simp [ObjectKind.implementing]
      isKeyword := by decide
      isClauseKeyword := by decide
      isBody := by decide +kernel }
  let dotnet : PrintedDeclaration :=
    { kind := .anonymous "dotnet", id := none, name := none
      interfaces := [], target := none
      keyword := "DotNet", clauseKeyword := ""
      commaSpaces := 0, braceSpaces := 0, body := ""
      inTable := by decide
      id_isSome := rfl
      id_ne_zero := by decide
      name_isSome := rfl
      interfaces_eq_nil := by decide
      target_isSome := by simp [ObjectKind.anonymous]
      isKeyword := by decide
      isClauseKeyword := by decide
      isBody := by decide +kernel }
  have isSource : PrintedDeclaration.text [codeunit, dotnet] = source := by decide +kernel
  refine ⟨[codeunit, dotnet], isSource, ?_, rfl, rfl⟩
  rw [← isSource]
  exact scan_printed [codeunit, dotnet] .empty

end ObjectIds
