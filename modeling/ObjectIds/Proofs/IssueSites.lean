import Mathlib.Data.List.Nodup
import Mathlib.Data.List.Perm.Subperm
import ObjectIds.Proofs.ConditionalBlocks
import ObjectIds.Proofs.RecoveryNotes

/-!
# Where issues are noted

Each issue of a text is noted at one of its pieces, and at most one is noted at each.  In a
text that 32 bits can count, the span of an issue says which piece that is, so that no two
issues are equal.
-/

namespace ObjectIds

namespace Piece

/-- The note on an `#if` line that is not closed. -/
def unclosedNote? (line : Piece) : Option Issue :=
  if line.opens then some ⟨.unclosedConditional, line.span⟩ else none

/-- Whether an issue can be noted at a piece. -/
def CanNote (piece : Piece) (issue : Issue) : Prop :=
  piece.unmatchedNote? = some issue ∨ piece.faultNote? = some issue ∨
    piece.unclosedNote? = some issue

section Notes

variable {piece : Piece} {issue : Issue}

theorem of_unmatchedNote? (isNote : piece.unmatchedNote? = some issue) :
    issue.span = piece.span ∧ issue.cause.isUnbalanced = true := by
  unfold unmatchedNote? at isNote
  split at isNote
  · obtain rfl := Option.some.inj isNote
    exact ⟨rfl, rfl⟩
  · obtain rfl := Option.some.inj isNote
    exact ⟨rfl, rfl⟩
  · obtain rfl := Option.some.inj isNote
    exact ⟨rfl, rfl⟩
  · contradiction

theorem of_faultNote? (isNote : piece.faultNote? = some issue) :
    issue.span = piece.span ∧ issue.cause.isUnbalanced = false := by
  obtain ⟨cause, isFault, rfl⟩ := Option.map_eq_some_iff.1 isNote
  exact ⟨rfl, Conditions.isUnbalanced_of_fault? isFault⟩

theorem span_of_unclosedNote? (isNote : piece.unclosedNote? = some issue) :
    issue.span = piece.span := by
  unfold unclosedNote? at isNote
  split at isNote
  · rw [← Option.some.inj isNote]
  · contradiction

theorem faultNote?_of_directive {directive : Directive}
    (isDirective : piece.directive? = some directive) : piece.faultNote? = none := by
  unfold directive? at isDirective
  split at isDirective
  · rename_i isShape
    simp [faultNote?, fault?, isShape]
  · contradiction

/-- A directive is not a run, and an `#if` line is none of those that can be unmatched. -/
theorem unmatchedNote?_apart (isNote : piece.unmatchedNote?.isSome = true) :
    piece.faultNote?.isSome = false ∧ piece.unclosedNote?.isSome = false := by
  cases isLine : piece.directive? with
  | none => simp [unmatchedNote?, isLine] at isNote
  | some directive =>
      refine ⟨by simp [faultNote?_of_directive isLine], ?_⟩
      cases directive with
      | ifDefined symbol => simp [unmatchedNote?, isLine] at isNote
      | _ => simp [unclosedNote?, opens, isLine]

theorem faultNote?_apart (isNote : piece.faultNote?.isSome = true) :
    piece.unclosedNote?.isSome = false := by
  cases isLine : piece.directive? with
  | none => simp [unclosedNote?, opens, isLine]
  | some directive => simp [faultNote?_of_directive isLine] at isNote

theorem CanNote.span_eq (canNote : piece.CanNote issue) : issue.span = piece.span := by
  rcases canNote with isNote | isNote | isNote
  · exact (of_unmatchedNote? isNote).1
  · exact (of_faultNote? isNote).1
  · exact span_of_unclosedNote? isNote

end Notes

theorem unmatchedNotes_sublist (before pieces : List Piece) :
    (unmatchedNotes before pieces).Sublist (pieces.filterMap unmatchedNote?) := by
  induction pieces generalizing before with
  | nil => exact .slnil
  | cons piece pieces ih =>
      rw [unmatchedNotes]
      have later := ih (before ++ [piece])
      cases isNote : piece.unmatchedNote? with
      | none => simpa [isNote] using later
      | some issue =>
          split
          · simpa [isNote] using later
          · simpa [isNote] using later.cons issue

theorem unclosedLines_sublist (pieces : List Piece) :
    ((unclosedLines pieces).map fun line => ⟨.unclosedConditional, line.span⟩).Sublist
      (pieces.filterMap unclosedNote?) := by
  induction pieces with
  | nil => exact .slnil
  | cons piece pieces ih =>
      rw [unclosedLines]
      cases isIf : piece.opens with
      | false => simpa [isIf, unclosedNote?] using ih
      | true =>
          split
          · simpa [isIf, unclosedNote?] using ih
          · simpa [isIf, unclosedNote?] using ih.cons _

/-- Notes among those that pieces can give have different pieces as their sites. -/
theorem exists_sites_of_sublist {note? : Piece → Option Issue} {pieces : List Piece}
    {notes : List Issue} (among : notes.Sublist (pieces.filterMap note?)) :
    ∃ sites : List (Piece × Issue), sites.map Prod.snd = notes ∧
      (∀ site ∈ sites, note? site.1 = some site.2) ∧
        (sites.map Prod.fst).Sublist (pieces.filter fun piece => (note? piece).isSome) := by
  let all : List (Piece × Issue) := pieces.filterMap fun piece => (note? piece).map (piece, ·)
  have allNotes : all.map Prod.snd = pieces.filterMap note? := by
    simp [all, List.map_filterMap, Function.comp_def]
  have allPieces : all.map Prod.fst = pieces.filter fun piece => (note? piece).isSome := by
    rw [List.map_filterMap, ← List.filterMap_eq_filter]
    refine List.filterMap_congr fun piece _ => ?_
    cases isNote : note? piece <;> simp [isNote, Option.guard]
  rw [← allNotes] at among
  obtain ⟨sites, areSites, rfl⟩ := List.sublist_map_iff.1 among
  refine ⟨sites, rfl, fun site member => ?_, allPieces ▸ areSites.map Prod.fst⟩
  obtain ⟨piece, -, isSite⟩ := List.mem_filterMap.1 (areSites.mem member)
  obtain ⟨issue, isNote, rfl⟩ := Option.map_eq_some_iff.1 isSite
  exact isNote

/-- What two tests that exclude each other select is what either of them selects. -/
theorem filter_append_filter_perm (first second : Piece → Bool)
    (apart : ∀ piece, first piece = true → second piece = false) (pieces : List Piece) :
    (pieces.filter first ++ pieces.filter second).Perm
      (pieces.filter fun piece => first piece || second piece) := by
  have split := List.filter_append_perm first
    (pieces.filter fun piece => first piece || second piece)
  rw [List.filter_filter, List.filter_filter] at split
  have onlyFirst : ∀ piece ∈ pieces,
      (first piece && (first piece || second piece)) = first piece := by
    intro piece _
    cases isFirst : first piece <;> simp
  have onlySecond : ∀ piece ∈ pieces,
      (!first piece && (first piece || second piece)) = second piece := by
    intro piece _
    cases isFirst : first piece with
    | false => simp
    | true => simp [apart piece isFirst]
  rwa [List.filter_congr onlyFirst, List.filter_congr onlySecond] at split

/-- Pieces start one after the other, also in bytes. -/
theorem pairwise_offset_listFrom (place : Place) (text : List Char) :
    (listFrom place text).Pairwise fun first second =>
      first.start.offset < second.start.offset := by
  induction place, text using cutInduction with
  | nil place => simp
  | piece place shape text rest fits ih =>
      rw [listFrom_append place fits, List.pairwise_cons]
      refine ⟨fun later member => ?_, ih⟩
      obtain ⟨before, -, starts⟩ := start_of_mem_listFrom member
      have positive := Text.byteLength_pos fits.ne_nil
      rw [Text.byteLength] at positive
      rw [starts, Place.offset_advance, Place.offset_advance]
      show place.offset < _
      omega

variable {source : String}

theorem start_toNat (short : source.utf8ByteSize < UInt32.size) {piece : Piece}
    (member : piece ∈ listOfText source) : piece.span.start.toNat = piece.start.offset := by
  obtain ⟨before, after, stands⟩ := exists_standsIn short member
  rw [stands.first_byte, stands.start_eq, Place.offset_advance_start]

/-- In a text that 32 bits can count no two pieces have one span. -/
theorem pairwise_span_listOfText (short : source.utf8ByteSize < UInt32.size) :
    (listOfText source).Pairwise fun first second => first.span ≠ second.span := by
  refine (pairwise_offset_listFrom _ _).imp_of_mem ?_
  intro first second firstMember secondMember earlier same
  rw [← start_toNat short firstMember, ← start_toNat short secondMember, same] at earlier
  exact Nat.lt_irrefl _ earlier

theorem eq_of_span_eq (short : source.utf8ByteSize < UInt32.size) {first second : Piece}
    (firstMember : first ∈ listOfText source) (secondMember : second ∈ listOfText source)
    (same : first.span = second.span) : first = second := by
  have injective : ((listOfText source).map span).Nodup :=
    List.pairwise_map.2 (pairwise_span_listOfText short)
  exact List.inj_on_of_nodup_map injective firstMember secondMember same

end Piece

namespace Preprocessed

variable {source : String} {symbols : SymbolTable} {issue : Issue}

/-- The issues of a text are the unmatched directives, the run that is not terminated and the
conditionals that are not closed. -/
theorem issues_ofText_eq (source : String) (symbols : SymbolTable) :
    (ofText source symbols).issues =
      Piece.unmatchedNotes [] (Piece.listOfText source) ++
        (Piece.listOfText source).filterMap Piece.faultNote? ++
        (unclosedLines (Piece.listOfText source)).map fun line =>
          ⟨.unclosedConditional, line.span⟩ := by
  have met := Conditions.metIssues_listFrom symbols [] Place.start source.toList
  rw [← Piece.listOfText_eq] at met
  rw [ofText, ofPieces_eq, Conditions.unclosed_eq, Conditions.openings_afterAll_initial,
    List.reverse_reverse, List.map_map]
  exact congrArg (· ++ _) met

/-- The issues of a text are noted at different pieces. -/
theorem exists_sites (source : String) (symbols : SymbolTable) :
    ∃ sites : List (Piece × Issue), sites.map Prod.snd = (ofText source symbols).issues ∧
      (∀ site ∈ sites, site.1.CanNote site.2) ∧
        (sites.map Prod.fst).Subperm (Piece.listOfText source) := by
  let pieces := Piece.listOfText source
  obtain ⟨unmatched, isUnmatched, canUnmatched, unmatchedPieces⟩ :=
    Piece.exists_sites_of_sublist (Piece.unmatchedNotes_sublist [] pieces)
  obtain ⟨faults, isFaults, canFault, faultPieces⟩ :=
    Piece.exists_sites_of_sublist (List.Sublist.refl (pieces.filterMap Piece.faultNote?))
  obtain ⟨unclosed, isUnclosed, canUnclosed, unclosedPieces⟩ :=
    Piece.exists_sites_of_sublist (Piece.unclosedLines_sublist pieces)
  refine ⟨unmatched ++ faults ++ unclosed, ?_, fun site member => ?_, ?_⟩
  · rw [List.map_append, List.map_append, isUnmatched, isFaults, isUnclosed, issues_ofText_eq]
  · rcases List.mem_append.1 member with isEarlier | isUnclosed
    · rcases List.mem_append.1 isEarlier with isUnmatched | isFault
      · exact .inl (canUnmatched site isUnmatched)
      · exact .inr (.inl (canFault site isFault))
    · exact .inr (.inr (canUnclosed site isUnclosed))
  · -- The three kinds of notes select disjoint parts of the text's pieces.
    have runsToo := Piece.filter_append_filter_perm
      (·.unmatchedNote?.isSome) (·.faultNote?.isSome)
      (fun _ isNote => (Piece.unmatchedNote?_apart isNote).1) pieces
    have linesToo := Piece.filter_append_filter_perm
      (fun piece => piece.unmatchedNote?.isSome || piece.faultNote?.isSome)
      (·.unclosedNote?.isSome) (fun piece isNote => by
        rcases Bool.or_eq_true_iff.1 isNote with isUnmatched | isFault
        · exact (Piece.unmatchedNote?_apart isUnmatched).2
        · exact Piece.faultNote?_apart isFault) pieces
    rw [List.map_append, List.map_append]
    exact ((unmatchedPieces.append faultPieces).append unclosedPieces).subperm.trans
      (((runsToo.append_right _).trans linesToo).subperm.trans List.filter_sublist.subperm)

theorem exists_site (noted : issue ∈ (ofText source symbols).issues) :
    ∃ piece ∈ Piece.listOfText source, piece.CanNote issue := by
  obtain ⟨sites, isIssues, canNote, arePieces⟩ := exists_sites source symbols
  rw [← isIssues] at noted
  obtain ⟨site, member, rfl⟩ := List.mem_map.1 noted
  exact ⟨site.1, arePieces.subset (List.mem_map_of_mem member), canNote site member⟩

/-- The issues that are not about conditionals are those of the pieces that are not closed. -/
theorem filter_issues_ofText (source : String) (symbols : SymbolTable) :
    (ofText source symbols).issues.filter (!·.cause.isUnbalanced) =
      (Piece.listOfText source).filterMap Piece.faultNote? := by
  have noUnmatched : (Piece.unmatchedNotes [] (Piece.listOfText source)).filter
      (!·.cause.isUnbalanced) = [] := by
    refine List.filter_eq_nil_iff.2 fun issue isUnmatched => ?_
    obtain ⟨line, -, isNote⟩ :=
      List.mem_filterMap.1 ((Piece.unmatchedNotes_sublist _ _).mem isUnmatched)
    simp [(Piece.of_unmatchedNote? isNote).2]
  have allFaults : ((Piece.listOfText source).filterMap Piece.faultNote?).filter
      (!·.cause.isUnbalanced) = (Piece.listOfText source).filterMap Piece.faultNote? := by
    refine List.filter_eq_self.2 fun issue isFault => ?_
    obtain ⟨run, -, isNote⟩ := List.mem_filterMap.1 isFault
    simp [(Piece.of_faultNote? isNote).2]
  rw [issues_ofText_eq, List.filter_append, List.filter_append, noUnmatched, allFaults]
  simp [List.filter_map, Function.comp_def, Issue.Cause.isUnbalanced]

/-- In a text that 32 bits can count no two issues are equal. -/
theorem nodup_issues (symbols : SymbolTable) (short : source.utf8ByteSize < UInt32.size) :
    (ofText source symbols).issues.Nodup := by
  obtain ⟨sites, isIssues, canNote, selected, isPerm, isSublist⟩ := exists_sites source symbols
  have piecesApart : ((Piece.listOfText source).map Piece.span).Nodup :=
    List.pairwise_map.2 (Piece.pairwise_span_listOfText short)
  have sitesApart : ((sites.map Prod.fst).map Piece.span).Nodup :=
    (isPerm.map _).nodup_iff.1 (piecesApart.sublist (isSublist.map _))
  have sameSpans : (sites.map Prod.snd).map Issue.span = (sites.map Prod.fst).map Piece.span := by
    rw [List.map_map, List.map_map]
    exact List.map_congr_left fun site member => (canNote site member).span_eq
  rw [← sameSpans, isIssues] at sitesApart
  exact .of_map _ sitesApart

end Preprocessed

end ObjectIds
