import ObjectIds.Check
import ObjectIds.Proofs.DeclarationSites
import ObjectIds.Proofs.LexemeLocations
import ObjectIds.Proofs.RecordedIds

/-!
# Labels of reports

A report about the id of a declaration points at the number in the text that the id was read
from.  The reports about a file tell first of the ids without a record and then of those outside
the ranges, each time in the order of the declarations.
-/

namespace ObjectIds

namespace Declaration

/-- The ids that declarations have, each with its declaration. -/
def declaredIds (declarations : List Declaration) : List (Declaration × UInt32) :=
  declarations.filterMap fun declaration => declaration.id.map (declaration, ·)

theorem mem_declaredIds_iff {declarations : List Declaration} {declared : Declaration × UInt32} :
    declared ∈ declaredIds declarations ↔
      declared.1 ∈ declarations ∧ declared.1.id = some declared.2 := by
  obtain ⟨declaration, id⟩ := declared
  simp only [declaredIds, List.mem_filterMap, Option.map_eq_some_iff, Prod.mk.injEq]
  constructor
  · rintro ⟨other, member, otherId, isId, rfl, rfl⟩
    exact ⟨member, isId⟩
  · rintro ⟨member, isId⟩
    exact ⟨declaration, member, id, isId, rfl, rfl⟩

/-- What is said about declarations by their ids is said about the ids, in the same order. -/
theorem filterMap_id_bind {α : Type} (declarations : List Declaration)
    (fine : Declaration → UInt32 → Bool) (tell : Declaration → UInt32 → α) :
    (declarations.filterMap fun declaration => declaration.id.bind fun id =>
        if fine declaration id then none else some (tell declaration id)) =
      ((declaredIds declarations).filter fun declared => !fine declared.1 declared.2).map
        fun declared => tell declared.1 declared.2 := by
  unfold declaredIds
  induction declarations with
  | nil => rfl
  | cons declaration declarations ih =>
      cases isId : declaration.id with
      | none => simpa [isId] using ih
      | some id => cases isFine : fine declaration id <;> simpa [isId, isFine] using ih

/-- An id stands in the tokens from which its declaration is read. -/
theorem exists_idToken {tokens : List Token} {declaration : Declaration} {id : UInt32}
    (found : declaration ∈ listOfTokens tokens) (isId : declaration.id = some id) :
    ∃ token ∈ tokens, token.DenotesId id ∧ declaration.idSpan = some token.span := by
  obtain ⟨sites, areFound, allStand, -⟩ := exists_sites tokens 0
  rw [List.drop_zero] at areFound
  rw [← areFound] at found
  obtain ⟨site, member, rfl⟩ := List.mem_map.1 found
  have front := (allStand site member).1.spells.front
  by_cases hasId : HeaderPart.id ∈ site.kind.parts
  · obtain ⟨token, other, isHead, denotes, isOther, isSpan⟩ := front.id hasId
    obtain rfl : other = id := Option.some.inj (isOther.symm.trans isId)
    exact ⟨token, List.mem_of_mem_drop (List.mem_of_mem_head? isHead), denotes, isSpan⟩
  · rw [(front.noId hasId).1] at isId
    contradiction

end Declaration

namespace Diagnostic

/-- The warning that the id of a declaration is outside the ranges. -/
def outsideRanges (declaration : Declaration) (id : UInt32) : Diagnostic where
  severity := .warning
  message := declaration.kind ++ " " ++ Text.decimalText id ++ " is outside the app's id ranges"
  span := idSpan declaration
  hint := none

/-- The declared ids that are not recorded for their kind. -/
def unrecordedIds (consumption : Consumption) (declarations : List Declaration) :
    List (Declaration × UInt32) :=
  (Declaration.declaredIds declarations).filter fun declared =>
    !isRecorded consumption declared.1.kind declared.2

/-- The declared ids that are outside all ranges, if there are ranges. -/
def strayIds (ranges : List IdRange) (declarations : List Declaration) :
    List (Declaration × UInt32) :=
  if ranges.isEmpty then []
  else (Declaration.declaredIds declarations).filter fun declared =>
    !IdRange.anyContains ranges declared.2

theorem unsynchronized_eq (consumption : Consumption) (declarations : List Declaration) :
    unsynchronized consumption declarations =
      (unrecordedIds consumption declarations).map fun declared =>
        notSynchronized declared.1 declared.2 :=
  Declaration.filterMap_id_bind declarations
    (fun declaration id => isRecorded consumption declaration.kind id) notSynchronized

theorem outOfRange_eq (ranges : List IdRange) (declarations : List Declaration) :
    outOfRange ranges declarations =
      (strayIds ranges declarations).map fun declared =>
        outsideRanges declared.1 declared.2 := by
  unfold outOfRange strayIds
  split
  · rfl
  · exact Declaration.filterMap_id_bind declarations
      (fun _ id => IdRange.anyContains ranges id) outsideRanges

end Diagnostic

namespace Report

/-- The label of a report marks some bytes of a text, and they are those of a token. -/
structure Marks (report : Report) (source : String) (token : Token) : Prop where
  notEmpty : 0 < report.label.length
  inside : report.label.offset.toNat + report.label.length.toNat ≤ source.utf8ByteSize
  bytes : ∃ before after, source.toList = before ++ token.text.toList ++ after ∧
    report.label.offset.toNat = Text.byteLength before ∧
      report.label.length.toNat = Text.byteLength token.text.toList

/-- A report tells what is wrong with a declared id, and marks the token among `tokens` that
denotes it. -/
structure TellsOf (file : FileScan) (tokens : List Token) (fault : String)
    (declared : Declaration × UInt32) (report : Report) : Prop where
  file_eq : report.file = file.file.text
  source_eq : report.source = file.source
  message_eq : report.message =
    declared.1.kind ++ " " ++ Text.decimalText declared.2 ++ fault
  span : ∃ span, declared.1.idSpan = some span ∧ span.start < span.stop ∧
    report.label.offset = span.start ∧ report.label.length = span.stop - span.start
  marks : ∃ token ∈ tokens, token.DenotesId declared.2 ∧ report.Marks file.source token

section

variable {path : Path} {source : String} {symbols : SymbolTable}

/-- A label with the span of a visible token marks that token, in a text that 32 bits can
count. -/
theorem marks_of_visible {report : Report} {token : Token}
    (short : source.utf8ByteSize < UInt32.size)
    (visible : token ∈ (Preprocessed.ofText source symbols).tokens)
    (offset : report.label.offset = token.span.start)
    (length : report.label.length = token.span.length) :
    token.span.start < token.span.stop ∧ report.Marks source token := by
  have isRaw : token ∈ (Piece.listOfText source).filterMap Piece.token? := by
    rw [Preprocessed.ofText, Preprocessed.ofPieces_eq] at visible
    exact (Conditions.visibleTokens_sublist _ _).subset visible
  obtain ⟨before, after, isSplit, starts, stops, -, -⟩ := Token.exists_standsAfter short isRaw
  have notEmpty : 0 < Text.byteLength token.text.toList := by
    obtain ⟨piece, isPiece, isToken⟩ := List.mem_filterMap.1 isRaw
    obtain ⟨_, _, standsIn⟩ := Piece.exists_standsIn short isPiece
    rw [(Piece.text_of_token? isToken).1]
    exact Text.byteLength_pos standsIn.fits.ne_nil
  have whole := Text.byteLength_toList source
  rw [isSplit, Text.byteLength_append, Text.byteLength_append] at whole
  rw [Text.byteLength_append] at stops
  have inOrder : token.span.start < token.span.stop := by
    rw [UInt32.lt_iff_toNat_lt]
    omega
  have bytes : report.label.length.toNat = Text.byteLength token.text.toList := by
    rw [length, Span.length, UInt32.toNat_sub_of_le _ _ (UInt32.le_of_lt inOrder)]
    omega
  refine ⟨inOrder, ?_, ?_, before, after, isSplit, ?_, bytes⟩
  · rw [UInt32.lt_iff_toNat_lt, bytes]
    exact notEmpty
  · rw [offset, bytes]
    omega
  · rw [offset, starts]

/-- A diagnostic at the id of a declaration becomes a report that marks the id. -/
theorem tellsOf_ofDiagnostic {declared : Declaration × UInt32} {diagnostic : Diagnostic}
    {fault : String} (short : source.utf8ByteSize < UInt32.size)
    (isDeclared :
      declared ∈ Declaration.declaredIds (Scan.ofText source symbols).declarations)
    (isAbout : diagnostic.span = Diagnostic.idSpan declared.1)
    (message : diagnostic.message =
      declared.1.kind ++ " " ++ Text.decimalText declared.2 ++ fault) :
    TellsOf ⟨path, source, Scan.ofText source symbols⟩
      (Preprocessed.ofText source symbols).tokens fault declared
        (ofDiagnostic path.text source diagnostic) := by
  obtain ⟨found, isId⟩ := Declaration.mem_declaredIds_iff.1 isDeclared
  obtain ⟨token, visible, denotes, isSpan⟩ := Declaration.exists_idToken found isId
  have labelled : diagnostic.span = token.span := by
    rw [isAbout, Diagnostic.idSpan, isSpan, Option.getD_some]
  have offset : (ofDiagnostic path.text source diagnostic).label.offset = token.span.start :=
    congrArg Span.start labelled
  have length : (ofDiagnostic path.text source diagnostic).label.length = token.span.length :=
    congrArg Span.length labelled
  obtain ⟨inOrder, marks⟩ := marks_of_visible short visible offset length
  exact ⟨rfl, rfl, message, ⟨token.span, isSpan, inOrder, offset, length⟩,
    token, visible, denotes, marks⟩

/-- The reports about a file tell of its unrecorded ids and then of its stray ids. -/
theorem forall₂_tellsOf_reportsOf (consumption : Consumption) (ranges : List IdRange)
    (short : source.utf8ByteSize < UInt32.size) :
    let file : FileScan := ⟨path, source, Scan.ofText source symbols⟩
    let tokens := (Preprocessed.ofText source symbols).tokens
    ∃ unrecorded stray, Check.reportsOf consumption ranges file = unrecorded ++ stray ∧
      List.Forall₂ (TellsOf file tokens " is not synchronized")
        (Diagnostic.unrecordedIds consumption file.scan.declarations) unrecorded ∧
      List.Forall₂ (TellsOf file tokens " is outside the app's id ranges")
        (Diagnostic.strayIds ranges file.scan.declarations) stray := by
  intro file tokens
  rw [Check.reportsOf, Diagnostic.unsynchronized_eq, Diagnostic.outOfRange_eq, List.map_append]
  refine ⟨_, _, rfl, ?_, ?_⟩
  · rw [List.map_map, List.forall₂_map_right_iff, List.forall₂_same]
    intro declared isUnrecorded
    apply tellsOf_ofDiagnostic short (List.mem_of_mem_filter isUnrecorded) rfl rfl
  · rw [List.map_map, List.forall₂_map_right_iff, List.forall₂_same]
    intro declared isStray
    apply tellsOf_ofDiagnostic short _ rfl rfl
    unfold Diagnostic.strayIds at isStray
    split at isStray
    · simp at isStray
    · exact List.mem_of_mem_filter isStray

end

end Report

/-- The reports of a check come file by file.  Those about a file tell first of each declared
id that is not recorded for its kind, and then of each that is outside the ranges, in the order
of the declarations, and each marks the visible number that denotes the id it tells of. -/
theorem reports_mark_ids (sources : List (Path × String)) (symbols : SymbolTable)
    (consumption : Consumption) (ranges : List IdRange)
    (short : ∀ source ∈ sources, source.2.utf8ByteSize < UInt32.size) :
    let scans := sources.map fun source =>
      (⟨source.1, source.2, Scan.ofText source.2 symbols⟩ : FileScan)
    ∃ parts, Check.reportsOfAll consumption ranges scans = parts.flatten ∧
      List.Forall₂ (fun file part =>
        let tokens := ((TokenStream.ofText file.source symbols).drain []).1
        ∃ unrecorded stray, part = unrecorded ++ stray ∧
          List.Forall₂ (Report.TellsOf file tokens " is not synchronized")
            (Diagnostic.unrecordedIds consumption file.scan.declarations) unrecorded ∧
          List.Forall₂ (Report.TellsOf file tokens " is outside the app's id ranges")
            (Diagnostic.strayIds ranges file.scan.declarations) stray) scans parts := by
  intro scans
  refine ⟨scans.map (Check.reportsOf consumption ranges), List.flatMap_def .., ?_⟩
  rw [List.forall₂_map_right_iff, List.forall₂_same]
  intro file member
  obtain ⟨source, isSource, rfl⟩ := List.mem_map.1 member
  rw [(TokenStream.drain_ofText source.2 symbols).1]
  exact Report.forall₂_tellsOf_reportsOf consumption ranges (short source isSource)

/-- Two files, of which the second has ids in a branch that a symbol shows, after characters of
more than one byte. -/
theorem reports_mark_ids_after_wide_characters :
    let sources : List (Path × String) :=
      [(⟨"a.al"⟩, "table 07.5 A \x7b \x7d"),
        (⟨"b.al"⟩, "/* é */ #if X\nenum 9 \"ü\" \x7b \x7d codeunit 3 B \x7b \x7d\n#endif")]
    let symbols := SymbolTable.ofDefined ["X"]
    let consumption := Consumption.ofList [("codeunit", [3]), ("table", [7])]
    let ranges : List IdRange := [⟨5, 8, none⟩]
    let scans := sources.map fun source =>
      (⟨source.1, source.2, Scan.ofText source.2 symbols⟩ : FileScan)
    (∀ source ∈ sources, source.2.utf8ByteSize < UInt32.size) ∧
      (Check.reportsOfAll consumption ranges scans).map Report.message =
        ["enum 9 is not synchronized", "enum 9 is outside the app's id ranges",
          "codeunit 3 is outside the app's id ranges"] ∧
      (Check.reportsOfAll consumption ranges scans).map (·.label.offset) = [20, 20, 40] ∧
      ∃ parts, Check.reportsOfAll consumption ranges scans = parts.flatten ∧
        List.Forall₂ (fun file part =>
          let tokens := ((TokenStream.ofText file.source symbols).drain []).1
          ∃ unrecorded stray, part = unrecorded ++ stray ∧
            List.Forall₂ (Report.TellsOf file tokens " is not synchronized")
              (Diagnostic.unrecordedIds consumption file.scan.declarations) unrecorded ∧
            List.Forall₂ (Report.TellsOf file tokens " is outside the app's id ranges")
              (Diagnostic.strayIds ranges file.scan.declarations) stray) scans parts := by
  intro sources symbols consumption ranges scans
  have short : ∀ source ∈ sources, source.2.utf8ByteSize < UInt32.size := by decide +kernel
  refine ⟨short, ?_, ?_, reports_mark_ids sources symbols consumption ranges short⟩
  · decide +kernel
  · decide +kernel

end ObjectIds
