import Mathlib.Data.List.Nodup
import ObjectIds.Proofs.Relocation

/-!
# How tokens spell a declaration

A declaration is spelled by tokens that follow one another: the keyword of its kind,
the id and the name if its kind has them, and the clause of its kind.  `Spells` says
which tokens these are, independently of how a header is read.  Every declaration that
a scan finds is spelled at a site of its own, and the sites follow one another without
overlap.
-/

namespace ObjectIds

namespace ObjectKind

/-- The number of tokens between the keyword of a kind and its clause. -/
def clauseIndex (kind : ObjectKind) : Nat :=
  (if kind.hasId then 1 else 0) + if kind.hasName then 1 else 0

theorem lowercase_keyword : ∀ kind ∈ all, Text.lowercase kind.keyword = kind.keyword := by
  decide

/-- A word is the keyword of the one kind whose keyword it equals in lower case. -/
theorem ofKeyword?_eq_some_iff {word : String} {kind : ObjectKind} :
    ofKeyword? word = some kind ↔
      kind ∈ all ∧ Text.equalIgnoringCase kind.keyword word = true := by
  constructor
  · intro isKeyword
    have sameWord := List.find?_some isKeyword
    exact ⟨List.mem_of_find?_eq_some isKeyword, sameWord⟩
  · rintro ⟨inTable, sameWord⟩
    have isThere : (ofKeyword? word).isSome = true :=
      List.find?_isSome.2 ⟨kind, inTable, sameWord⟩
    obtain ⟨other, isOther⟩ := Option.isSome_iff_exists.1 isThere
    have otherInTable := List.mem_of_find?_eq_some isOther
    have otherWord := List.find?_some isOther
    have sameKeyword : Text.lowercase other.keyword = Text.lowercase kind.keyword :=
      (eq_of_beq otherWord).trans (eq_of_beq sameWord).symm
    rw [lowercase_keyword other otherInTable, lowercase_keyword kind inTable] at sameKeyword
    rw [isOther, List.inj_on_of_nodup_map keywords_nodup otherInTable inTable sameKeyword]

end ObjectKind

/-- A number token whose digits before any point denote an object id. -/
structure Token.DenotesId (token : Token) (id : UInt32) : Prop where
  number : token.kind = .number
  digits : ∀ character ∈ token.text.toList.takeWhile (· != '.'), character.isDigit = true
  value : Text.decimalValue (token.text.toList.takeWhile (· != '.')) = id.toNat
  positive : 1 ≤ id.toNat
  bounded : id.toNat < UInt32.size

namespace Header

/-- The names with commas between them at the start of tokens, as many as there are. -/
inductive NameRun : List String → List Token → Prop
  | nil {tokens : List Token}
      (noName : ∀ token ∈ tokens.head?, token.isIdentifier = false) : NameRun [] tokens
  | last {token : Token} {rest : List Token} (isName : token.isIdentifier = true)
      (noComma : ∀ comma ∈ rest.head?, comma.isSymbol "," = false) :
      NameRun [token.value] (token :: rest)
  | more {token comma : Token} {names : List String} {rest : List Token}
      (isName : token.isIdentifier = true) (isComma : comma.isSymbol "," = true)
      (others : NameRun names rest) :
      NameRun (token.value :: names) (token :: comma :: rest)

/-- The interfaces that an object implements by the clause at the start of tokens. -/
inductive Implements : List String → List Token → Prop
  | clause {token : Token} {names : List String} {rest : List Token}
      (isClause : token.isKeyword "implements" = true) (run : NameRun names rest) :
      Implements names (token :: rest)
  | nil {tokens : List Token}
      (noClause : ∀ token ∈ tokens.head?, token.isKeyword "implements" = false) :
      Implements [] tokens

/-- The object that a clause with a keyword names at the start of tokens. -/
inductive Targets (keyword : String) : Option String → List Token → Prop
  | clause {token name : Token} {rest : List Token}
      (isClause : token.isKeyword keyword = true) (isName : name.isIdentifier = true) :
      Targets keyword (some name.value) (token :: name :: rest)
  | noName {token : Token} {rest : List Token} (isClause : token.isKeyword keyword = true)
      (noName : ∀ name ∈ rest.head?, name.isIdentifier = false) :
      Targets keyword none (token :: rest)
  | noClause {tokens : List Token}
      (noClause : ∀ token ∈ tokens.head?, token.isKeyword keyword = false) :
      Targets keyword none tokens

/-- The tokens spell the id and the name that parts of a header ask for. -/
structure SpellsFront (parts : List HeaderPart) (tokens : List Token)
    (declaration : Declaration) : Prop where
  id : .id ∈ parts → ∃ token id, tokens.head? = some token ∧ token.DenotesId id ∧
    declaration.id = some id ∧ declaration.idSpan = some token.span
  noId : .id ∉ parts → declaration.id = none ∧ declaration.idSpan = none
  name : .name ∈ parts → ∃ token, tokens[parts.idxOf .name]? = some token ∧
    token.isIdentifier = true ∧ declaration.name = some token.value ∧
      declaration.nameSpan = some token.span
  noName : .name ∉ parts → declaration.name = none ∧ declaration.nameSpan = none

/-- The tokens spell the clause that parts of a header ask for: the interfaces with their
names, or the object that the clause targets. -/
structure SpellsClause (parts : List HeaderPart) (tokens : List Token)
    (declaration : Declaration) : Prop where
  interfaces : .interfaces ∈ parts → Implements declaration.interfaces tokens
  noInterfaces : .interfaces ∉ parts → declaration.interfaces = []
  target : ∀ keyword, .target keyword ∈ parts →
    Targets keyword declaration.target tokens
  noTarget : (∀ keyword, .target keyword ∉ parts) → declaration.target = none

/-- The tokens from `start` on spell a declaration of a kind. -/
structure Spells (kind : ObjectKind) (tokens : List Token) (start : Nat)
    (declaration : Declaration) : Prop where
  kind_eq : declaration.kind = kind.keyword
  keyword : ∃ token, tokens[start]? = some token ∧ token.kind = .word ∧
    Text.equalIgnoringCase declaration.kind token.text = true ∧
      declaration.position = token.position
  front : SpellsFront kind.parts (tokens.drop (start + 1)) declaration
  clause : SpellsClause kind.parts (tokens.drop (start + 1 + kind.clauseIndex)) declaration

/-- The number of tokens from a keyword to the last token that the declaration is read
from.  Interfaces and targets count with the keyword or comma before them. -/
def width (kind : ObjectKind) (declaration : Declaration) : Nat :=
  1 + kind.clauseIndex + 2 * (declaration.interfaces.length + declaration.target.toList.length)

end Header

namespace Header

theorem denotesId_of_objectId? {token : Token} {id : UInt32}
    (isId : objectId? token = some id) : token.DenotesId id := by
  unfold objectId? at isId
  split at isId
  · rename_i isNumber
    obtain ⟨isDecimal, notZero⟩ := Option.filter_eq_some_iff.1 isId
    obtain ⟨_, digits, value⟩ := Text.decimal?_eq_some_iff.1 isDecimal
    have nonzero : id.toNat ≠ 0 := fun isZero =>
      absurd (UInt32.toNat_inj.1 isZero) (by simpa using notZero)
    have bounded := id.toNat_lt
    exact ⟨isNumber, digits, value, by omega, by omega⟩
  · contradiction

theorem nameRun_readNames (tokens : List Token) :
    NameRun (readNames tokens).names tokens := by
  fun_induction readNames tokens with
  | case1 => exact .nil (by simp)
  | case2 token isName => exact .last isName (by simp)
  | case3 token noName => exact .nil (by simpa using noName)
  | case4 token comma rest isName isComma later ih => exact .more isName isComma ih
  | case5 token comma rest isName noComma => exact .last isName (by simpa using noComma)
  | case6 token comma rest noName => exact .nil (by simpa using noName)

theorem length_readNames (tokens : List Token) :
    (readNames tokens).rest.length + 2 * (readNames tokens).names.length ≤
      tokens.length + 1 := by
  fun_induction readNames tokens with
  | case4 token comma rest isName isComma later ih =>
      have rest := ih
      simp only [later, List.length_cons] at rest ⊢
      omega
  | _ => simp

/-- A clause that has been read says which interfaces there are; the tokens of its names
have been taken. -/
theorem implements_readInterfaces (declaration : Declaration) (tokens : List Token)
    (noneYet : declaration.interfaces = []) :
    ∃ names, Implements names tokens ∧
      (readInterfaces declaration tokens).declaration =
        { declaration with interfaces := names } ∧
      (readInterfaces declaration tokens).rest.length + 2 * names.length ≤
        tokens.length := by
  have unchanged : { declaration with interfaces := [] } = declaration := by
    rw [← noneYet]
  cases tokens with
  | nil => exact ⟨[], .nil (by simp), unchanged.symm, by simp [readInterfaces]⟩
  | cons token rest =>
      cases isClause : token.isKeyword "implements" with
      | false =>
          refine ⟨[], .nil (by simpa using isClause), ?_, ?_⟩
          · simp [readInterfaces, isClause, unchanged]
          · simp [readInterfaces, isClause]
      | true =>
          refine ⟨(readNames rest).names, .clause isClause (nameRun_readNames rest), ?_, ?_⟩
          · simp [readInterfaces, isClause]
          · simpa [readInterfaces, isClause] using length_readNames rest

theorem targets_readTarget (keyword : String) (declaration : Declaration)
    (tokens : List Token) (noneYet : declaration.target = none) :
    ∃ target, Targets keyword target tokens ∧
      (readTarget keyword declaration tokens).declaration =
        { declaration with target := target } ∧
      (readTarget keyword declaration tokens).rest.length + 2 * target.toList.length ≤
        tokens.length := by
  have unchanged : { declaration with target := none } = declaration := by
    rw [← noneYet]
  cases tokens with
  | nil => exact ⟨none, .noClause (by simp), unchanged.symm, by simp [readTarget]⟩
  | cons token rest =>
      cases isClause : token.isKeyword keyword with
      | false =>
          refine ⟨none, .noClause (by simpa using isClause), ?_, ?_⟩
          · simp [readTarget, isClause, unchanged]
          · simp [readTarget, isClause]
      | true =>
          cases rest with
          | nil =>
              refine ⟨none, .noName isClause (by simp), ?_, ?_⟩
              · simp [readTarget, isClause, unchanged]
              · simp [readTarget, isClause]
          | cons name others =>
              cases isName : name.isIdentifier with
              | false =>
                  refine ⟨none, .noName isClause (by simpa using isName), ?_, ?_⟩
                  · simp [readTarget, isClause, isName, unchanged]
                  · simp [readTarget, isClause, isName]
              | true =>
                  refine ⟨some name.value, .clause isClause isName, ?_, ?_⟩
                  · simp [readTarget, isClause, isName]
                  · simp [readTarget, isClause, isName]

theorem readParts_body (declaration : Declaration) (tokens : List Token) :
    (readParts declaration tokens [.body]).1 = declaration ∧
      (readParts declaration tokens [.body]).2.length ≤ tokens.length := by
  refine ⟨?_, (readParts_suffix declaration tokens [.body]).length_le⟩
  rw [readParts]
  split <;> rfl

/-- A part before the body changes the declaration once and for all. -/
theorem readParts_part_body (part : HeaderPart) (declaration : Declaration)
    (tokens : List Token) :
    (readParts declaration tokens [part, .body]).1 =
        (readPart part declaration tokens).declaration ∧
      (readParts declaration tokens [part, .body]).2.length ≤
        (readPart part declaration tokens).rest.length := by
  rw [readParts]
  split
  · exact readParts_body _ _
  · exact ⟨rfl, Nat.le_refl _⟩

/-- Reading the parts of a clause adds what the tokens spell, and nothing else, to a
declaration, and it takes these tokens. -/
def ReadsClause (parts : List HeaderPart) (declaration : Declaration)
    (tokens : List Token) : Prop :=
  ∃ names object,
    SpellsClause parts tokens { declaration with interfaces := names, target := object } ∧
      (readParts declaration tokens parts).1 =
        { declaration with interfaces := names, target := object } ∧
      (readParts declaration tokens parts).2.length +
          2 * (names.length + object.toList.length) ≤ tokens.length

section Clauses

variable {declaration : Declaration} (tokens : List Token)
  (noInterfaces : declaration.interfaces = []) (noTarget : declaration.target = none)

include noInterfaces noTarget

theorem readsClause_body : ReadsClause [.body] declaration tokens := by
  obtain ⟨declarationEq, shorter⟩ := readParts_body declaration tokens
  refine ⟨[], none, ⟨by simp, by simp, by simp, by simp⟩, ?_, by simpa using shorter⟩
  rw [declarationEq, ← noInterfaces, ← noTarget]

theorem readsClause_interfaces : ReadsClause [.interfaces, .body] declaration tokens := by
  obtain ⟨names, implements, isRead, bound⟩ :=
    implements_readInterfaces declaration tokens noInterfaces
  obtain ⟨declarationEq, shorter⟩ := readParts_part_body .interfaces declaration tokens
  simp only [readPart] at declarationEq shorter
  refine ⟨names, none, ⟨by simpa using implements, by simp, by simp, by simp⟩, ?_, ?_⟩
  · rw [declarationEq, isRead, ← noTarget]
  · simp only [Option.toList_none, List.length_nil]
    omega

theorem readsClause_target (keyword : String) :
    ReadsClause [.target keyword, .body] declaration tokens := by
  obtain ⟨object, targets, isRead, bound⟩ :=
    targets_readTarget keyword declaration tokens noTarget
  obtain ⟨declarationEq, shorter⟩ :=
    readParts_part_body (.target keyword) declaration tokens
  simp only [readPart] at declarationEq shorter
  refine ⟨[], object, ⟨by simp, by simp, by simpa using targets, by simp⟩, ?_, ?_⟩
  · rw [declarationEq, isRead, ← noInterfaces]
  · simp only [List.length_nil]
    omega

end Clauses

/-- The parts of a header after its id and name. -/
def clauses : List (List HeaderPart) :=
  [[.body], [.interfaces, .body], [.target "extends", .body], [.target "customizes", .body]]

theorem eq_of_mem_clauses {parts : List HeaderPart} (isClause : parts ∈ clauses) :
    parts = [.body] ∨ parts = [.interfaces, .body] ∨
      ∃ keyword, parts = [.target keyword, .body] := by
  simp only [clauses, List.mem_cons, List.not_mem_nil, or_false] at isClause
  rcases isClause with isBody | isInterfaces | isExtends | isCustomizes
  · exact Or.inl isBody
  · exact Or.inr (Or.inl isInterfaces)
  · exact Or.inr (Or.inr ⟨"extends", isExtends⟩)
  · exact Or.inr (Or.inr ⟨"customizes", isCustomizes⟩)

theorem readsClause {parts : List HeaderPart} (isClause : parts ∈ clauses)
    (declaration : Declaration) (tokens : List Token)
    (noInterfaces : declaration.interfaces = []) (noTarget : declaration.target = none) :
    ReadsClause parts declaration tokens := by
  rcases eq_of_mem_clauses isClause with rfl | rfl | ⟨keyword, rfl⟩
  · exact readsClause_body tokens noInterfaces noTarget
  · exact readsClause_interfaces tokens noInterfaces noTarget
  · exact readsClause_target tokens noInterfaces noTarget keyword

/-- A declaration that has its id in the end has read it from the first token. -/
theorem readParts_id {declaration : Declaration} {tokens : List Token}
    {parts : List HeaderPart} (noId : declaration.id = none)
    (hasId : (readParts declaration tokens (.id :: parts)).1.id.isSome = true) :
    ∃ token id rest, tokens = token :: rest ∧ token.DenotesId id ∧
      readParts declaration tokens (.id :: parts) =
        readParts { declaration with id := some id, idSpan := some token.span } rest
          parts := by
  cases tokens with
  | nil => simp [readParts, readPart, readId, noId] at hasId
  | cons token rest =>
      cases isId : objectId? token with
      | none => simp [readParts, readPart, readId, isId, noId] at hasId
      | some id =>
          refine ⟨token, id, rest, rfl, denotesId_of_objectId? isId, ?_⟩
          simp [readParts, readPart, readId, isId]

theorem readParts_name {declaration : Declaration} {tokens : List Token}
    {parts : List HeaderPart} (noName : declaration.name = none)
    (hasName : (readParts declaration tokens (.name :: parts)).1.name.isSome = true) :
    ∃ token rest, tokens = token :: rest ∧ token.isIdentifier = true ∧
      readParts declaration tokens (.name :: parts) =
        readParts
          { declaration with name := some token.value, nameSpan := some token.span } rest
          parts := by
  cases tokens with
  | nil => simp [readParts, readPart, readName, noName] at hasName
  | cons token rest =>
      cases isName : token.isIdentifier with
      | false => simp [readParts, readPart, readName, isName, noName] at hasName
      | true =>
          refine ⟨token, rest, rfl, isName, ?_⟩
          simp [readParts, readPart, readName, isName]

/-- The parts of a header up to its name. -/
def fronts : List (List HeaderPart) := [[.id, .name], [.name], []]

/-- Reading goes on after an id and a name that are there in the end. -/
theorem readParts_front {front : List HeaderPart} (isFront : front ∈ fronts)
    (clause : List HeaderPart) (kind : ObjectKind) (position : Position)
    (tokens : List Token)
    (hasId : .id ∈ front →
      (readParts (.started kind position) tokens (front ++ clause)).1.id.isSome = true)
    (hasName : .name ∈ front →
      (readParts (.started kind position) tokens (front ++ clause)).1.name.isSome = true) :
    ∃ id idSpan name nameSpan,
      SpellsFront front tokens
          ⟨kind.keyword, id, name, [], none, position, idSpan, nameSpan⟩ ∧
        front.length ≤ tokens.length ∧
          readParts (.started kind position) tokens (front ++ clause) =
            readParts ⟨kind.keyword, id, name, [], none, position, idSpan, nameSpan⟩
              (tokens.drop front.length) clause := by
  simp only [fronts, List.mem_cons, List.not_mem_nil, or_false] at isFront
  rcases isFront with rfl | rfl | rfl
  · have hasId : (readParts (.started kind position) tokens
        (.id :: .name :: clause)).1.id.isSome = true := hasId (by simp)
    have hasName : (readParts (.started kind position) tokens
        (.id :: .name :: clause)).1.name.isSome = true := hasName (by simp)
    obtain ⟨number, id, afterId, rfl, denotes, idRead⟩ := readParts_id rfl hasId
    rw [idRead] at hasName
    obtain ⟨token, afterName, rfl, isName, nameRead⟩ := readParts_name rfl hasName
    refine ⟨some id, some number.span, some token.value, some token.span, ?_, by simp, ?_⟩
    · refine ⟨fun _ => ⟨number, id, rfl, denotes, rfl, rfl⟩, by simp, ?_, by simp⟩
      exact fun _ => ⟨token, rfl, isName, rfl, rfl⟩
    · exact idRead.trans nameRead
  · obtain ⟨token, afterName, rfl, isName, nameRead⟩ :=
      readParts_name rfl (hasName (by simp))
    refine ⟨none, none, some token.value, some token.span, ?_, by simp, nameRead⟩
    refine ⟨by simp, fun _ => ⟨rfl, rfl⟩, ?_, by simp⟩
    exact fun _ => ⟨token, rfl, isName, rfl, rfl⟩
  · refine ⟨none, none, none, none, ?_, by simp, rfl⟩
    exact ⟨by simp, fun _ => ⟨rfl, rfl⟩, by simp, fun _ => ⟨rfl, rfl⟩⟩

/-- Every header is an id and a name, as far as its kind has them, before a clause. -/
theorem exists_front_clause :
    ∀ kind ∈ ObjectKind.all, ∃ front ∈ fronts, ∃ clause ∈ clauses,
      kind.parts = front ++ clause ∧ kind.hasId = front.contains .id ∧
        kind.hasName = front.contains .name ∧ kind.clauseIndex = front.length := by
  decide

/-- A clause has neither an id nor a name. -/
theorem not_mem_clause : ∀ clause ∈ clauses, .id ∉ clause ∧ .name ∉ clause := by
  decide

theorem mem_append_clause_iff {front clause : List HeaderPart} (isFront : front ∈ fronts)
    {part : HeaderPart} (notId : part ≠ .id) (notName : part ≠ .name) :
    part ∈ front ++ clause ↔ part ∈ clause := by
  have inFront : ∀ part ∈ front, part = .id ∨ part = .name := by
    revert front
    decide
  have notInFront : part ∉ front := fun member =>
    (inFront part member).elim notId notName
  simp [notInFront]

theorem SpellsFront.append {front clause : List HeaderPart} (isClause : clause ∈ clauses)
    {tokens : List Token} {declaration : Declaration}
    (spells : SpellsFront front tokens declaration) :
    SpellsFront (front ++ clause) tokens declaration := by
  obtain ⟨noId, noName⟩ := not_mem_clause clause isClause
  refine ⟨?_, ?_, ?_, ?_⟩
  · simpa [noId] using spells.id
  · simpa [noId] using spells.noId
  · intro hasName
    have inFront : .name ∈ front := by simpa [noName] using hasName
    rw [List.idxOf_append, if_pos inFront]
    exact spells.name inFront
  · simpa [noName] using spells.noName

theorem SpellsClause.append {front clause : List HeaderPart} (isFront : front ∈ fronts)
    {tokens : List Token} {declaration : Declaration}
    (spells : SpellsClause clause tokens declaration) :
    SpellsClause (front ++ clause) tokens declaration := by
  refine ⟨?_, ?_, ?_, ?_⟩
  · simpa [mem_append_clause_iff isFront] using spells.interfaces
  · simpa [mem_append_clause_iff isFront] using spells.noInterfaces
  · simpa [mem_append_clause_iff isFront] using spells.target
  · simpa [mem_append_clause_iff isFront] using spells.noTarget

theorem keyword_of_ofToken? {keyword : Token} {kind : ObjectKind}
    (isKeyword : ObjectKind.ofToken? keyword = some kind) :
    kind ∈ ObjectKind.all ∧ keyword.kind = .word ∧
      Text.equalIgnoringCase kind.keyword keyword.text = true := by
  unfold ObjectKind.ofToken? at isKeyword
  split at isKeyword
  · rename_i isWord
    obtain ⟨inTable, sameWord⟩ := ObjectKind.ofKeyword?_eq_some_iff.1 isKeyword
    exact ⟨inTable, isWord, sameWord⟩
  · contradiction

/-- A complete declaration is spelled by the tokens from its keyword on, and none of
these tokens is left after it. -/
theorem spells_read {kind : ObjectKind} {keyword : Token} {after tokens : List Token}
    {start : Nat} (isHere : tokens.drop start = keyword :: after)
    (isKeyword : ObjectKind.ofToken? keyword = some kind)
    (complete : (read kind keyword after).1.isComplete kind = true) :
    Spells kind tokens start (read kind keyword after).1 ∧
      start + width kind (read kind keyword after).1 + (read kind keyword after).2.length ≤
        tokens.length := by
  obtain ⟨inTable, isWord, sameWord⟩ := keyword_of_ofToken? isKeyword
  obtain ⟨front, isFront, clause, isClause, partsEq, hasIdEq, hasNameEq, clauseIndexEq⟩ :=
    exists_front_clause kind inTable
  have length := congrArg List.length isHere
  simp only [List.length_drop, List.length_cons] at length
  have atStart : tokens[start]? = some keyword := by
    rw [← List.head?_drop, isHere, List.head?_cons]
  have afterEq : tokens.drop (start + 1) = after := by
    rw [← List.tail_drop, isHere, List.tail_cons]
  have isRead : read kind keyword after =
      readParts (.started kind keyword.position) after (front ++ clause) := by
    rw [read, partsEq]
  obtain ⟨idThere, nameThere⟩ : _ ∧ _ := by simpa [Declaration.isComplete] using complete
  rw [isRead] at idThere nameThere
  obtain ⟨id, idSpan, name, nameSpan, spellsFront, frontFits, frontRead⟩ :=
    readParts_front isFront clause kind keyword.position after
      (fun member => idThere.resolve_left (by simp [hasIdEq, member]))
      (fun member => nameThere.resolve_left (by simp [hasNameEq, member]))
  obtain ⟨names, object, spellsClause, clauseRead, clauseFits⟩ :=
    readsClause isClause
      ⟨kind.keyword, id, name, [], none, keyword.position, idSpan, nameSpan⟩
      (after.drop front.length) rfl rfl
  rw [isRead, frontRead, clauseRead]
  refine ⟨⟨rfl, ⟨keyword, atStart, isWord, sameWord, rfl⟩, ?_, ?_⟩, ?_⟩
  · rw [afterEq, partsEq]
    exact SpellsFront.append isClause
      ⟨spellsFront.id, spellsFront.noId, spellsFront.name, spellsFront.noName⟩
  · rw [← List.drop_drop, afterEq, clauseIndexEq, partsEq]
    exact SpellsClause.append isFront spellsClause
  · rw [List.length_drop] at clauseFits
    simp only [width, clauseIndexEq]
    omega

end Header

end ObjectIds
