import Mathlib.Data.List.Forall2
import ObjectIds.Proofs.PreprocessedRuns
import ObjectIds.Proofs.Relocation

/-!
# Blanking out what cannot be seen

When every character that belongs to no visible token is blanked out, except for the
newlines, what is left needs no preprocessing.  The tokens keep their texts because a
token ends before a blank character as well as before the one that stood there, and
they keep their places because lines and columns stay as they are.  Only byte offsets
change, since a blanked character may have taken several bytes.
-/

namespace ObjectIds

/-- The character that is left of a character that cannot be seen. -/
def Text.blankOut (character : Char) : Char :=
  if character = '\n' then '\n' else ' '

/-- What is left of pieces when all but their visible tokens is blanked out. -/
def Conditions.blanked (conditions : Conditions) : List Piece → List Char
  | [] => []
  | piece :: pieces =>
      (if (conditions.visible? piece).isSome then piece.text
        else piece.text.map Text.blankOut) ++
        (conditions.after piece).blanked pieces

/-- What is left of a source text when all but its visible tokens is blanked out. -/
def blankedText (source : String) (symbols : SymbolTable) : String :=
  String.ofList ((Conditions.initial symbols).blanked (Piece.listOfText source))

/-- A token without the bytes that it takes. -/
def Token.withoutSpan (token : Token) : Token :=
  token.relocate (fun position => position) fun _ => Span.nowhere

/-- A declaration without the bytes that its id and name take. -/
def Declaration.withoutSpans (declaration : Declaration) : Declaration :=
  declaration.relocate (fun position => position) fun _ => Span.nowhere

theorem Text.isSpacing_blankOut (character : Char) :
    isSpacing (blankOut character) = true := by
  unfold blankOut
  split <;> decide

namespace Place

/-- Whether two places are on the same line and column. -/
def SameSpot (first second : Place) : Prop :=
  first.line = second.line ∧ first.column = second.column

theorem SameSpot.step {first second : Place} (same : SameSpot first second)
    {new old : Char} (lines : new = '\n' ↔ old = '\n') :
    SameSpot (first.step new) (second.step old) := by
  obtain ⟨sameLine, sameColumn⟩ := same
  by_cases isNewline : old = '\n'
  · simp [SameSpot, Place.step, lines.2 isNewline, isNewline, sameLine]
  · have notNewline : new ≠ '\n' := fun isNew => isNewline (lines.1 isNew)
    simp [SameSpot, Place.step, notNewline, isNewline, sameLine, sameColumn]

theorem SameSpot.advance {first second : Place} (same : SameSpot first second)
    (text : List Char) : SameSpot (first.advance text) (second.advance text) := by
  induction text generalizing first second with
  | nil => exact same
  | cons character text ih => exact ih (same.step Iff.rfl)

theorem SameSpot.advance_blankOut {first second : Place} (same : SameSpot first second)
    (text : List Char) :
    SameSpot (first.advance (text.map Text.blankOut)) (second.advance text) := by
  induction text generalizing first second with
  | nil => exact same
  | cons character text ih =>
      apply ih
      apply same.step
      by_cases isNewline : character = '\n' <;> simp [Text.blankOut, isNewline]

theorem SameSpot.position_eq {first second : Place} (same : SameSpot first second) :
    first.position = second.position := by
  simp [Place.position, same.1, same.2]

end Place

namespace Conditions

/-- Every character is either kept or blanked out. -/
theorem blanked_forall₂ (conditions : Conditions) (pieces : List Piece) :
    List.Forall₂ (fun new old => new = old ∨ new = Text.blankOut old)
      (conditions.blanked pieces) (pieces.flatMap Piece.text) := by
  induction pieces generalizing conditions with
  | nil => exact .nil
  | cons piece pieces ih =>
      refine List.rel_append ?_ (ih _)
      split
      · exact List.forall₂_same.2 fun _ _ => Or.inl rfl
      · exact List.forall₂_map_left_iff.2 (List.forall₂_same.2 fun _ _ => Or.inr rfl)

theorem shape_of_visible? (conditions : Conditions) {shape : Piece.Shape}
    {text : List Char} {place : Place} {token : Token}
    (visible : conditions.visible? ⟨shape, text, place⟩ = some token) :
    ∃ kind closed, shape = .token kind closed ∧
      token = ⟨kind, String.ofList text, place.position,
        Piece.span ⟨shape, text, place⟩⟩ := by
  unfold visible? at visible
  split at visible
  · cases shape with
    | token kind closed => exact ⟨kind, closed, rfl, (Option.some.inj visible).symm⟩
    | spacing => contradiction
    | lineComment => contradiction
    | blockComment closed => contradiction
    | directive => contradiction
  · contradiction

/-- A token that fits before a text also fits before what is left of it. -/
theorem fits_blanked (conditions : Conditions) {place : Place} {kind : Token.Kind}
    {closed : Bool} {text rest : List Char}
    (fits : Piece.Fits (.token kind closed) text rest.head?) :
    Piece.Fits (.token kind closed) text
      (conditions.blanked (Piece.listFrom place rest)).head? := by
  have kept := conditions.blanked_forall₂ (Piece.listFrom place rest)
  rw [Piece.flatMap_text_listFrom] at kept
  generalize conditions.blanked (Piece.listFrom place rest) = left at kept
  cases kept with
  | nil => exact fits
  | cons isKept later =>
      rcases isKept with rfl | rfl
      · exact fits
      · cases closed with
        | false => cases fits
        | true => exact fits.token_before_spacing (Text.isSpacing_blankOut _)

end Conditions

namespace Piece

/-- What is left of a text has the visible tokens of the text at the same spots, and no
directives. -/
theorem lexemesFrom_blanked (place : Place) (text : List Char) (conditions : Conditions)
    {other : Place} (same : other.SameSpot place) :
    let left := lexemesFrom other (conditions.blanked (listFrom place text))
    (∀ piece ∈ left, piece.directive? = none) ∧
      (left.filterMap token?).map Token.withoutSpan =
        (conditions.visibleTokens (listFrom place text)).map Token.withoutSpan := by
  induction place, text using cutInduction generalizing conditions other with
  | nil place => simp [Conditions.blanked]
  | piece place shape text rest fits ih =>
      rw [listFrom_append place fits, Conditions.blanked, Conditions.visibleTokens_cons]
      cases visible : conditions.visible? ⟨shape, text, place⟩ with
      | none =>
          have blank : ∀ character ∈ text.map Text.blankOut,
              Text.isSpacing character = true := by
            simp [Text.isSpacing_blankOut]
          rw [if_neg (by simp), lexemesFrom_spacing _ other blank]
          exact ih _ (same.advance_blankOut text)
      | some token =>
          -- A visible token keeps its text, and it still ends where it ended.
          obtain ⟨kind, closed, rfl, rfl⟩ := conditions.shape_of_visible? visible
          have sameAfter : conditions.after ⟨.token kind closed, text, place⟩ = conditions :=
            conditions.after_of_no_directive rfl
          obtain ⟨noDirectives, sameTokens⟩ := ih conditions (same.advance text)
          rw [if_pos (by simp), sameAfter,
            lexemesFrom_token other (conditions.fits_blanked fits)]
          refine ⟨List.forall_mem_cons.2 ⟨rfl, noDirectives⟩, ?_⟩
          simpa [token?, Token.withoutSpan, Token.relocate, same.position_eq]
            using sameTokens

end Piece

/-- A source text and what is left of it have the same tokens, except for the bytes that
these take, and therefore the same declarations. -/
theorem blankedText_unchanged (source : String) (symbols : SymbolTable) :
    (Token.listOfText (blankedText source symbols)).map Token.withoutSpan =
        (Preprocessed.ofText source symbols).tokens.map Token.withoutSpan ∧
      (Scan.ofText (blankedText source symbols) .empty).declarations.map
          Declaration.withoutSpans =
        (Scan.ofText source symbols).declarations.map Declaration.withoutSpans := by
  have sameTokens : (Token.listOfText (blankedText source symbols)).map Token.withoutSpan =
      (Preprocessed.ofText source symbols).tokens.map Token.withoutSpan := by
    obtain ⟨noDirectives, same⟩ := Piece.lexemesFrom_blanked Place.start source.toList
      (Conditions.initial symbols) (⟨rfl, rfl⟩ : Place.start.SameSpot Place.start)
    rw [Token.listOfText, Preprocessed.ofText_eq_ofPieces_lexemesFrom,
      Preprocessed.ofPieces_eq, blankedText, String.toList_ofList, Preprocessed.ofText,
      Preprocessed.ofPieces_eq]
    rw [← Piece.listOfText_eq] at noDirectives same
    rw [← same, Conditions.visibleTokens_of_no_directives rfl noDirectives]
  refine ⟨sameTokens, ?_⟩
  have moved (tokens : List Token) := Declaration.listOfTokens_relocate
    (fun _ => Span.nowhere) (fun _ _ => Iff.rfl) tokens
  calc
    (Scan.ofText (blankedText source symbols) .empty).declarations.map
          Declaration.withoutSpans =
        Declaration.listOfTokens
          ((Token.listOfText (blankedText source symbols)).map Token.withoutSpan) :=
      (moved _).symm
    _ = Declaration.listOfTokens
          ((Preprocessed.ofText source symbols).tokens.map Token.withoutSpan) := by
      rw [sameTokens]
    _ = (Scan.ofText source symbols).declarations.map Declaration.withoutSpans := moved _

-- A quoted name that spans two lines stays; the hidden branch and the comment do not.
example : blankedText "#if A\nx\n#else\n\"y\n#\" // c\n#endif" .empty =
    "     \n \n     \n\"y\n#\"     \n      " := by
  decide +kernel

end ObjectIds
