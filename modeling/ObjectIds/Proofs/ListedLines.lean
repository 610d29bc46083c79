import Mathlib.Algebra.GroupWithZero.Nat
import ObjectIds.Listing
import ObjectIds.Proofs.DeclarationSites
import ObjectIds.Proofs.LexemeLocations
import ObjectIds.Proofs.LineEndings

/-!
# Lines of a listing

In a listing each declaration has a line, which starts with its file and its position.  Names are
listed as they are, so a declaration takes one more line for each newline in its names.  Only a
quoted identifier that runs over several lines of its source makes such a name.
-/

namespace ObjectIds

namespace Text

/-- A text that is made of lines, each of them ended by a newline. -/
structure Lines (text : List Char) (lines : List (List Char)) : Prop where
  whole : text = lines.flatMap (· ++ ['\n'])
  apart : ∀ line ∈ lines, '\n' ∉ line

namespace Lines

variable {text : List Char} {lines : List (List Char)}

theorem nil : Lines [] [] := ⟨rfl, by simp⟩

theorem append {others : List Char} {otherLines : List (List Char)} (first : Lines text lines)
    (second : Lines others otherLines) : Lines (text ++ others) (lines ++ otherLines) :=
  ⟨by rw [List.flatMap_append, ← first.whole, ← second.whole],
    List.forall_mem_append.2 ⟨first.apart, second.apart⟩⟩

/-- A text has as many lines as newlines. -/
theorem length_eq (isLines : Lines text lines) : lines.length = text.count '\n' := by
  obtain ⟨rfl, apart⟩ := isLines
  induction lines with
  | nil => rfl
  | cons line lines ih =>
      obtain ⟨noNewline, othersApart⟩ := List.forall_mem_cons.1 apart
      rw [List.flatMap_cons, List.count_append, List.count_append, ← ih othersApart,
        List.count_eq_zero_of_not_mem noNewline, List.length_cons, List.count_singleton_self]
      omega

/-- What a text starts with, before any newline, its first line starts with. -/
theorem exists_first {start rest : List Char} (isLines : Lines text lines)
    (isText : text = start ++ rest) (noNewline : '\n' ∉ start) (hasLines : lines ≠ []) :
    ∃ first others, lines = first :: others ∧ start <+: first := by
  obtain ⟨first, others, rfl⟩ := List.exists_cons_of_ne_nil hasLines
  refine ⟨first, others, rfl, ?_⟩
  have startsText : start <+: text := ⟨rest, isText.symm⟩
  have lineStarts : first ++ ['\n'] <+: text := by
    rw [isLines.whole, List.flatMap_cons]
    exact List.prefix_append _ _
  rcases List.prefix_or_prefix_of_prefix startsText lineStarts with inLine | beyond
  · rcases List.prefix_concat_iff.1 inLine with whole | inside
    · exact absurd (whole ▸ List.mem_append_right first List.mem_cons_self) noNewline
    · exact inside
  · exact absurd (beyond.subset (List.mem_append_right first List.mem_cons_self)) noNewline

end Lines

/-- A text that ends with a newline is made of lines. -/
theorem exists_lines (text : List Char) : ∃ lines, Lines (text ++ ['\n']) lines := by
  induction text with
  | nil => exact ⟨[[]], rfl, by simp⟩
  | cons character text ih =>
      obtain ⟨lines, whole, apart⟩ := ih
      by_cases isNewline : character = '\n'
      · refine ⟨[] :: lines, ?_, List.forall_mem_cons.2 ⟨by simp, apart⟩⟩
        rw [List.cons_append, whole, isNewline]
        rfl
      · cases lines with
        | nil => simp at whole
        | cons first lines =>
            obtain ⟨firstApart, othersApart⟩ := List.forall_mem_cons.1 apart
            refine ⟨(character :: first) :: lines, ?_,
              List.forall_mem_cons.2 ⟨?_, othersApart⟩⟩
            · rw [List.cons_append, whole]
              rfl
            · rw [List.mem_cons]
              exact fun member => member.elim (fun same => isNewline same.symm) firstApart

theorem newline_not_mem_repr (number : Nat) : '\n' ∉ (Nat.repr number).toList := by
  rw [Nat.toList_repr]
  intro member
  exact absurd (Nat.isDigit_of_mem_toDigits (by decide) (by decide) member) (by decide)

/-- A list in a line adds no newlines to those of its items. -/
theorem count_newline_intercalate (items : List String) :
    (", ".intercalate items).toList.count '\n' =
      (items.map (·.toList.count '\n')).sum := by
  induction items with
  | nil => rfl
  | cons first items ih =>
      cases items with
      | nil => simp
      | cons second items =>
          have noNewline : (", ".toList).count '\n' = 0 := rfl
          rw [String.intercalate_cons_cons, String.toList_append, String.toList_append,
            List.count_append, List.count_append, noNewline, ih]
          rfl

end Text

theorem Position.newline_not_mem_display (position : Position) :
    '\n' ∉ position.display.toList := by
  have colon : '\n' ∉ (":" : String).toList := by decide
  simp only [display, Text.decimalText, String.toList_append, List.mem_append]
  rintro ((inLine | inColon) | inColumn)
  · exact Text.newline_not_mem_repr _ inLine
  · exact colon inColon
  · exact Text.newline_not_mem_repr _ inColumn

namespace Declaration

/-- The names in a declaration: its own, those of its interfaces, and that of its target. -/
def names (declaration : Declaration) : List String :=
  declaration.name.toList ++ declaration.interfaces ++ declaration.target.toList

/-- How many newlines there are in the names of a declaration. -/
def newlines (declaration : Declaration) : Nat :=
  (declaration.names.map (·.toList.count '\n')).sum

theorem newlines_eq_zero_iff {declaration : Declaration} :
    declaration.newlines = 0 ↔ ∀ name ∈ declaration.names, '\n' ∉ name.toList := by
  simp only [newlines, List.sum_eq_zero_iff_forall_eq_nat, List.forall_mem_map,
    List.count_eq_zero]

section Tokens

variable {tokens : List Token} {declaration : Declaration}

/-- Some identifier among tokens means a name. -/
def NamedIn (tokens : List Token) (name : String) : Prop :=
  ∃ token ∈ tokens, token.isIdentifier = true ∧ token.value = name

theorem NamedIn.of_suffix {name : String} {later : List Token} (named : NamedIn later name)
    (isSuffix : later <:+ tokens) : NamedIn tokens name := by
  obtain ⟨token, isThere, isIdentifier, means⟩ := named
  exact ⟨token, isSuffix.subset isThere, isIdentifier, means⟩

theorem namedIn_of_nameRun {names : List String} (run : Header.NameRun names tokens) :
    ∀ name ∈ names, NamedIn tokens name := by
  induction run with
  | nil noName => simp
  | @last token rest isName noComma =>
      exact List.forall_mem_singleton.2 ⟨token, List.mem_cons_self, isName, rfl⟩
  | @more token comma names rest isName isComma others ih =>
      refine List.forall_mem_cons.2 ⟨⟨token, List.mem_cons_self, isName, rfl⟩, ?_⟩
      intro name isLater
      exact (ih name isLater).of_suffix ⟨[token, comma], rfl⟩

theorem namedIn_of_implements {names : List String} (implements : Header.Implements names tokens) :
    ∀ name ∈ names, NamedIn tokens name := by
  cases implements with
  | clause isClause run =>
      exact fun name member => (namedIn_of_nameRun run name member).of_suffix
        (List.suffix_cons _ _)
  | nil noClause => simp

theorem namedIn_of_targets {keyword : String} {target : Option String}
    (targets : Header.Targets keyword target tokens) :
    ∀ name ∈ target, NamedIn tokens name := by
  cases targets with
  | @clause token name rest isClause isName =>
      rintro _ ⟨⟩
      exact ⟨name, by simp, isName, rfl⟩
  | noName isClause noName => simp
  | noClause noClause => simp

/-- Every name in a declaration is what some identifier among the tokens means. -/
theorem namedIn_of_mem_names (found : declaration ∈ listOfTokens tokens) :
    ∀ name ∈ declaration.names, NamedIn tokens name := by
  obtain ⟨sites, areFound, allStand, -⟩ := exists_sites tokens 0
  rw [List.drop_zero] at areFound
  rw [← areFound] at found
  obtain ⟨site, isSite, rfl⟩ := List.mem_map.1 found
  obtain ⟨-, -, front, clause⟩ := (allStand site isSite).1.spells
  intro name isName
  rw [names, List.mem_append, List.mem_append, Option.mem_toList, Option.mem_toList] at isName
  rcases isName with (ownName | isInterface) | isTarget
  · by_cases hasName : HeaderPart.name ∈ site.kind.parts
    · obtain ⟨token, isThere, isIdentifier, isValue, -⟩ := front.name hasName
      obtain rfl : token.value = name := Option.some.inj (isValue.symm.trans ownName)
      exact ⟨token, List.mem_of_mem_drop (List.mem_of_getElem? isThere), isIdentifier, rfl⟩
    · simp [(front.noName hasName).1] at ownName
  · by_cases hasInterfaces : HeaderPart.interfaces ∈ site.kind.parts
    · have named := namedIn_of_implements (clause.interfaces hasInterfaces)
      exact (named name isInterface).of_suffix (List.drop_suffix _ _)
    · simp [clause.noInterfaces hasInterfaces] at isInterface
  · by_cases hasTarget : ∃ keyword, HeaderPart.target keyword ∈ site.kind.parts
    · obtain ⟨keyword, isPart⟩ := hasTarget
      have named := namedIn_of_targets (clause.target keyword isPart)
      exact (named name isTarget).of_suffix (List.drop_suffix _ _)
    · rw [not_exists] at hasTarget
      simp [clause.noTarget hasTarget] at isTarget

end Tokens

end Declaration

namespace Token

/-- The line and column of a token, counted from one. -/
theorem StandsAfter.display_eq {before : List Char} {token : Token}
    (stands : token.StandsAfter before) (notEmpty : token.text.toList ≠ []) :
    token.position.display = Nat.repr (before.count '\n' + 1) ++ ":" ++
      Nat.repr ((before.reverse.takeWhile (· != '\n')).length + 1) := by
  -- The bytes up to the end of the token can be counted, so one more line or column can be too.
  have bound : Text.byteLength before + 1 < UInt32.size := by
    have stop := stands.stop_eq
    have small := token.span.stop.toNat_lt
    have positive := Text.byteLength_pos notEmpty
    rw [Text.byteLength_append] at stop
    unfold UInt32.size
    omega
  obtain ⟨lineBound, columnBound⟩ := Place.covered_advance_start before
  rw [Place.line_advance, Place.offset_advance_start] at lineBound
  rw [Place.column_advance_start, Place.offset_advance_start] at columnBound
  have oneMore (number : UInt32) (small : number.toNat ≤ Text.byteLength before) :
      (number + 1).toNat = number.toNat + 1 := by
    rw [UInt32.toNat_add]
    exact Nat.mod_eq_of_lt (Nat.lt_of_le_of_lt (Nat.succ_le_succ small) bound)
  have line := oneMore token.position.line
    (stands.line_eq ▸ Nat.le_trans (Nat.le_add_left _ _) lineBound)
  have column := oneMore token.position.column (stands.column_eq ▸ columnBound)
  rw [Position.display, Text.decimalText, Text.decimalText, line, column, stands.line_eq,
    stands.column_eq]

/-- A visible token that means a text of several lines is a quoted identifier, if it can name
something. -/
theorem kind_eq_of_newline {source : String} {symbols : SymbolTable} {token : Token}
    (visible : token ∈ (Preprocessed.ofText source symbols).tokens)
    (isIdentifier : token.isIdentifier = true) (hasNewline : '\n' ∈ token.value.toList) :
    token.kind = .quotedIdentifier := by
  simp only [Token.isIdentifier, Bool.or_eq_true, beq_iff_eq] at isIdentifier
  refine isIdentifier.resolve_left fun isWord => ?_
  rw [Preprocessed.ofText, Preprocessed.ofPieces_eq] at visible
  obtain ⟨piece, isPiece, isToken⟩ :=
    List.mem_filterMap.1 ((Conditions.visibleTokens_sublist _ _).subset visible)
  obtain ⟨-, after, -, -, fits⟩ := Piece.exists_split_of_mem_listFrom isPiece
  obtain ⟨closed, isShape⟩ := Piece.exists_shape_of_token? isToken
  have noQuotes : token.kind.delimiter? = none := by rw [isWord]; rfl
  rw [isShape, ← (Piece.text_of_token? isToken).1] at fits
  rw [Token.value, noQuotes] at hasNewline
  exact Piece.newline_not_mem_of_fits fits noQuotes hasNewline

end Token

namespace Listing

/-- A text to be listed: the path of its file, its characters, and the symbols that are defined
at its start. -/
structure Source where
  path : Path
  text : String
  symbols : SymbolTable

namespace Source

/-- What a scan finds in a source. -/
def scanned (source : Source) : FileScan :=
  ⟨source.path, source.text, Scan.ofText source.text source.symbols⟩

/-- The visible tokens of a source. -/
def tokens (source : Source) : List Token :=
  ((TokenStream.ofText source.text source.symbols).drain []).1

end Source

/-- A declaration and the source that it was found in. -/
structure Entry where
  source : Source
  declaration : Declaration

/-- The declarations in some sources, source by source, each time in their order. -/
def entries (sources : List Source) : List Entry :=
  sources.flatMap fun source => source.scanned.scan.declarations.map (Entry.mk source)

/-- The lines that a declaration takes: one, and one more for each newline in its names.  The
first of them starts with the file and with the line and column of the keyword, counted from
one. -/
structure Entry.Takes (entry : Entry) (lines : List (List Char)) : Prop where
  isLines : Text.Lines (line entry.source.path entry.declaration).toList lines
  length_eq : lines.length = entry.declaration.newlines + 1
  starts : ∃ first others, lines = first :: others ∧
    (entry.source.path.text ++ ":" ++ entry.declaration.position.display ++ " ").toList <+: first
  located : entry.source.text.utf8ByteSize < UInt32.size → ∃ before keyword after,
    entry.source.text.toList = before ++ keyword ++ after ∧
    Text.equalIgnoringCase entry.declaration.kind (String.ofList keyword) = true ∧
    entry.declaration.position.display = Nat.repr (before.count '\n' + 1) ++ ":" ++
      Nat.repr ((before.reverse.takeWhile (· != '\n')).length + 1)

theorem toList_text (sources : List Source) :
    (text (sources.map Source.scanned)).toList =
      (entries sources).flatMap fun entry =>
        (line entry.source.path entry.declaration).toList := by
  simp only [text, entries, String.toList_join, List.flatMap_map, List.flatMap_assoc]
  rfl

/-- A name that may be missing adds its own newlines to a line, and those of the words before
it. -/
theorem count_newline_optional (words : String) (noNewline : words.toList.count '\n' = 0)
    (name : Option String) :
    ((name.map fun name => words ++ name).getD "").toList.count '\n' =
      (name.toList.map (·.toList.count '\n')).sum := by
  cases name with
  | none => rfl
  | some name => simp [noNewline]

/-- A declaration is listed with one newline after those in its names. -/
theorem count_newline_line {path : Path} {declaration : Declaration}
    (onOneLine : '\n' ∉ path.text.toList) (plainKind : '\n' ∉ declaration.kind.toList) :
    (line path declaration).toList.count '\n' = declaration.newlines + 1 := by
  have inPath := List.count_eq_zero_of_not_mem onOneLine
  have inPosition := List.count_eq_zero_of_not_mem declaration.position.newline_not_mem_display
  have inKind := List.count_eq_zero_of_not_mem plainKind
  have inId : ((declaration.id.map fun id => " " ++ Text.decimalText id).getD "").toList.count
      '\n' = 0 := by
    cases declaration.id with
    | none => rfl
    | some id =>
        have inSpace : (" ".toList).count '\n' = 0 := rfl
        rw [Option.map_some, Option.getD_some, String.toList_append, List.count_append, inSpace,
          Nat.zero_add]
        exact List.count_eq_zero_of_not_mem (Text.newline_not_mem_repr id.toNat)
  have inName := count_newline_optional " " rfl declaration.name
  have inInterfaces : (if declaration.interfaces.isEmpty then ""
      else " implements " ++ ", ".intercalate declaration.interfaces).toList.count '\n' =
        (declaration.interfaces.map (·.toList.count '\n')).sum := by
    cases declaration.interfaces with
    | nil => rfl
    | cons first others =>
        have noNewline : (" implements ".toList).count '\n' = 0 := rfl
        rw [← Text.count_newline_intercalate, List.isEmpty_cons, if_neg Bool.false_ne_true,
          String.toList_append, List.count_append, noNewline, Nat.zero_add]
  have inTarget := count_newline_optional " extends " rfl declaration.target
  have inMarks : (":".toList).count '\n' = 0 ∧ (" ".toList).count '\n' = 0 ∧
      ("\n".toList).count '\n' = 1 := ⟨rfl, rfl, rfl⟩
  simp only [line, String.toList_append, List.count_append, inPath, inPosition, inKind, inId,
    inName, inInterfaces, inTarget, inMarks, Declaration.newlines, Declaration.names,
    List.map_append, List.sum_append]
  omega

theorem exists_line_eq (path : Path) (declaration : Declaration) :
    ∃ body, (line path declaration).toList =
      (path.text ++ ":" ++ declaration.position.display ++ " ").toList ++ body ++ ['\n'] := by
  obtain ⟨id, name, interfaces, target, isLine⟩ : ∃ id name interfaces target,
      line path declaration = path.text ++ ":" ++ declaration.position.display ++ " " ++
        declaration.kind ++ id ++ name ++ interfaces ++ target ++ "\n" :=
    ⟨_, _, _, _, rfl⟩
  exact ⟨(declaration.kind ++ id ++ name ++ interfaces ++ target).toList, by simp [isLine]⟩

section Entries

variable {sources : List Source} {entry : Entry}

theorem mem_entries_iff :
    entry ∈ entries sources ↔ entry.source ∈ sources ∧
      entry.declaration ∈ entry.source.scanned.scan.declarations := by
  simp only [entries, List.mem_flatMap, List.mem_map]
  constructor
  · rintro ⟨source, isSource, declaration, found, rfl⟩
    exact ⟨isSource, found⟩
  · rintro ⟨isSource, found⟩
    exact ⟨entry.source, isSource, entry.declaration, found, rfl⟩

theorem Source.tokens_eq (source : Source) :
    source.tokens = (Preprocessed.ofText source.text source.symbols).tokens :=
  (TokenStream.drain_ofText source.text source.symbols).1

/-- The keyword of a declaration is a visible token where the declaration stands. -/
theorem exists_keyword (member : entry ∈ entries sources) :
    ∃ token ∈ (Preprocessed.ofText entry.source.text entry.source.symbols).tokens,
      entry.declaration.kind ∈ ObjectKind.all.map ObjectKind.keyword ∧
      Text.equalIgnoringCase entry.declaration.kind token.text = true ∧
      entry.declaration.position = token.position := by
  obtain ⟨sites, areFound, allStand, -⟩ := Declaration.exists_sites
    (Preprocessed.ofText entry.source.text entry.source.symbols).tokens 0
  have found : entry.declaration ∈ sites.map Declaration.Site.declaration := by
    rw [areFound, List.drop_zero]
    exact (mem_entries_iff.1 member).2
  obtain ⟨site, isSite, isEntry⟩ := List.mem_map.1 found
  obtain ⟨inTable, -, kindEq, ⟨token, isThere, -, isKeyword, positionEq⟩, -, -⟩ :=
    (allStand site isSite).1
  rw [← isEntry]
  exact ⟨token, List.mem_of_getElem? isThere,
    kindEq ▸ List.mem_map_of_mem inTable, isKeyword, positionEq⟩

/-- Where a declaration stands in its source, as the listing shows it. -/
theorem exists_keyword_in_text (member : entry ∈ entries sources)
    (short : entry.source.text.utf8ByteSize < UInt32.size) :
    ∃ before keyword after, entry.source.text.toList = before ++ keyword ++ after ∧
      Text.equalIgnoringCase entry.declaration.kind (String.ofList keyword) = true ∧
      entry.declaration.position.display = Nat.repr (before.count '\n' + 1) ++ ":" ++
        Nat.repr ((before.reverse.takeWhile (· != '\n')).length + 1) := by
  obtain ⟨token, visible, isKind, isKeyword, positionEq⟩ := exists_keyword member
  rw [Preprocessed.ofText, Preprocessed.ofPieces_eq] at visible
  obtain ⟨before, after, isText, stands⟩ :=
    Token.exists_standsAfter short ((Conditions.visibleTokens_sublist _ _).subset visible)
  have notEmpty : token.text.toList ≠ [] := by
    intro isEmpty
    rw [String.toList_eq_nil_iff] at isEmpty
    have noneEmpty : ∀ keyword ∈ ObjectKind.all.map ObjectKind.keyword,
        Text.equalIgnoringCase keyword "" = false := by decide
    rw [isEmpty, noneEmpty _ isKind] at isKeyword
    contradiction
  refine ⟨before, token.text.toList, after, isText, by rwa [String.ofList_toList], ?_⟩
  rw [positionEq, stands.display_eq notEmpty]

/-- Each declaration of files without newlines in their paths takes lines of its own. -/
theorem exists_takes (member : entry ∈ entries sources)
    (onOneLine : '\n' ∉ entry.source.path.text.toList) : ∃ lines, entry.Takes lines := by
  obtain ⟨-, -, isKind, -, -⟩ := exists_keyword member
  have plainKind : '\n' ∉ entry.declaration.kind.toList := by
    have allPlain : ∀ keyword ∈ ObjectKind.all.map ObjectKind.keyword,
        '\n' ∉ keyword.toList := by decide
    exact allPlain _ isKind
  let start := entry.source.path.text ++ ":" ++ entry.declaration.position.display ++ " "
  have noNewline : '\n' ∉ start.toList := by
    have marks : '\n' ∉ (":" : String).toList ∧ '\n' ∉ (" " : String).toList := by decide
    simp only [start, String.toList_append, List.mem_append, onOneLine, marks,
      entry.declaration.position.newline_not_mem_display, or_false, not_false_eq_true]
  obtain ⟨body, isLine⟩ := exists_line_eq entry.source.path entry.declaration
  obtain ⟨lines, isLines⟩ := Text.exists_lines (start.toList ++ body)
  rw [← isLine] at isLines
  have length := isLines.length_eq
  rw [count_newline_line onOneLine plainKind] at length
  have hasLines : lines ≠ [] := List.ne_nil_of_length_eq_add_one length
  rw [List.append_assoc] at isLine
  exact ⟨lines, isLines, length, isLines.exists_first isLine noNewline hasLines,
    exists_keyword_in_text member⟩

end Entries

/-- Where every declaration takes lines of its own, a listing is made of these lines. -/
theorem exists_blocks {found : List Entry} (each : ∀ entry ∈ found, ∃ lines, entry.Takes lines) :
    ∃ blocks, List.Forall₂ Entry.Takes found blocks ∧
      Text.Lines (found.flatMap fun entry =>
        (line entry.source.path entry.declaration).toList) blocks.flatten := by
  induction found with
  | nil => exact ⟨[], .nil, .nil⟩
  | cons entry found ih =>
      obtain ⟨⟨lines, takes⟩, others⟩ := List.forall_mem_cons.1 each
      obtain ⟨blocks, takeOthers, areLines⟩ := ih others
      exact ⟨lines :: blocks, .cons takes takeOthers, takes.isLines.append areLines⟩

theorem length_flatten_blocks {found : List Entry} {blocks : List (List (List Char))}
    (take : List.Forall₂ Entry.Takes found blocks) :
    blocks.flatten.length =
      found.length + (found.map fun entry => entry.declaration.newlines).sum := by
  induction take with
  | nil => rfl
  | cons takes _ ih =>
      rw [List.flatten_cons, List.length_append, takes.length_eq, ih, List.length_cons,
        List.map_cons, List.sum_cons]
      omega

end Listing

/-- A listing of files without newlines in their paths is made of lines that belong to its
declarations, file by file in the order of the sources.  Each declaration takes one line, which
starts with its file, line and column, and one more for each newline in its names.  So there is
just one line for each declaration if and only if no name has a newline, and a name that has
one is what a visible quoted identifier of the source means. -/
theorem listing_takes_lines (sources : List Listing.Source)
    (onOneLine : ∀ source ∈ sources, '\n' ∉ source.path.text.toList) :
    let listed := (Listing.text (sources.map Listing.Source.scanned)).toList
    let found := Listing.entries sources
    ∃ blocks, List.Forall₂ Listing.Entry.Takes found blocks ∧
      Text.Lines listed blocks.flatten ∧
      (blocks.flatten.length = found.length ↔
        ∀ entry ∈ found, ∀ name ∈ entry.declaration.names, '\n' ∉ name.toList) ∧
      ∀ entry ∈ found, ∀ name ∈ entry.declaration.names, '\n' ∈ name.toList →
        ∃ token ∈ entry.source.tokens, token.kind = .quotedIdentifier ∧ token.value = name := by
  intro listed found
  obtain ⟨blocks, take, areLines⟩ := Listing.exists_blocks fun entry member =>
    Listing.exists_takes member (onOneLine _ (Listing.mem_entries_iff.1 member).1)
  rw [← Listing.toList_text] at areLines
  refine ⟨blocks, take, areLines, ?_, ?_⟩
  · rw [Listing.length_flatten_blocks take, Nat.add_eq_left,
      List.sum_eq_zero_iff_forall_eq_nat, List.forall_mem_map]
    exact forall₂_congr fun entry _ => Declaration.newlines_eq_zero_iff
  · intro entry member name isName hasNewline
    obtain ⟨token, visible, isIdentifier, rfl⟩ :=
      Declaration.namedIn_of_mem_names (Listing.mem_entries_iff.1 member).2 name isName
    rw [Listing.Source.tokens_eq]
    exact ⟨token, visible, Token.kind_eq_of_newline visible isIdentifier hasNewline, rfl⟩

/-- Two files, with an identifier over two lines where it names nothing. -/
theorem listing_takes_lines_around_wide_body :
    let sources : List Listing.Source :=
      [⟨⟨"a.al"⟩,
          "table 5 \"T \"\"1\"\"\" \x7b \"x\ny\" \x7d\n enum 7 E implements I, \"J\"", .empty⟩,
        ⟨⟨"b.al"⟩, "#if X\ndotnet \x7b \x7d\n#endif", .ofDefined ["X"]⟩]
    (∀ source ∈ sources, '\n' ∉ source.path.text.toList) ∧
      Listing.text (sources.map Listing.Source.scanned) =
        "a.al:1:1 table 5 T \"1\"\na.al:3:2 enum 7 E implements I, J\nb.al:2:1 dotnet\n" ∧
      ∃ blocks, List.Forall₂ Listing.Entry.Takes (Listing.entries sources) blocks ∧
        blocks.flatten.length = 3 := by
  intro sources
  have onOneLine : ∀ source ∈ sources, '\n' ∉ source.path.text.toList := by decide
  refine ⟨onOneLine, by decide +kernel, ?_⟩
  obtain ⟨blocks, take, areLines, tight, -⟩ := listing_takes_lines sources onOneLine
  have noNewlines : ∀ entry ∈ Listing.entries sources, ∀ name ∈ entry.declaration.names,
      '\n' ∉ name.toList := by decide +kernel
  exact ⟨blocks, take, (tight.2 noNewlines).trans (by decide +kernel)⟩

/-- A name over two lines takes two lines for one declaration. -/
theorem name_takes_two_lines :
    let sources : List Listing.Source :=
      [⟨⟨"a.al"⟩, "codeunit 1 \"a\nb\" \x7b \x7d", .empty⟩]
    ¬∃ lines, Text.Lines (Listing.text (sources.map Listing.Source.scanned)).toList lines ∧
      lines.length = (Listing.entries sources).length := by
  rintro sources ⟨lines, areLines, oneEach⟩
  have counted := areLines.length_eq.symm.trans oneEach
  exact absurd counted (by decide +kernel)

end ObjectIds
