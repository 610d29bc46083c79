import ObjectIds.Proofs.PieceGrammar

/-!
# Texts as sequences of pieces

The pieces of a text depend on the text and on the place where it starts, and on
nothing before it.  A text is its first piece, which fits before what comes after it,
followed by the pieces of the rest; `Piece.cutInduction` is induction along these cuts.

Spacing and closed comments leave no trace, so `Piece.lexemesFrom` drops them.  In that
view a blank character in front of a text only moves it, and a newline between two
texts keeps their lexemes apart.
-/

namespace ObjectIds

namespace Piece

/-- The pieces of a text that starts at a place. -/
def listFrom (place : Place) (text : List Char) : List Piece :=
  Cursor.pieces ⟨[], text, place⟩

@[simp]
theorem listFrom_nil (place : Place) : listFrom place [] = [] := by
  rw [listFrom, Cursor.pieces_eq]
  rfl

/-- Induction along the pieces of a text. -/
@[elab_as_elim]
theorem cutInduction {motive : Place → List Char → Prop}
    (nil : ∀ place, motive place [])
    (piece : ∀ place shape text rest, Fits shape text rest.head? →
      motive (place.advance text) rest → motive place (text ++ rest))
    (place : Place) (text : List Char) : motive place text := by
  match text with
  | [] => exact nil place
  | character :: others =>
      have shorter := Cut.length_rest_first_le character others
      have later := cutInduction nil piece
        (place.advance (Cut.first character others).text) (Cut.first character others).rest
      rw [← Cut.first_append character others]
      exact piece place _ _ _ (Cut.fits_first character others) later
termination_by text.length

/-- The pieces of a cursor do not depend on what it has read. -/
theorem pieces_eq_listFrom (consumed text : List Char) (place : Place) :
    Cursor.pieces ⟨consumed, text, place⟩ = listFrom place text := by
  induction place, text using cutInduction generalizing consumed with
  | nil place =>
      rw [Cursor.pieces_eq, listFrom_nil]
      rfl
  | piece place shape text rest fits ih =>
      obtain ⟨start, others, rfl⟩ := List.exists_cons_of_ne_nil fits.ne_nil
      rw [listFrom, Cursor.pieces_eq, Cursor.pieces_eq]
      simp only [Cursor.piece?, List.cons_append, Cut.first_of_fits fits, Cursor.advance]
      rw [ih, ih]

/-- A piece that fits is followed by the pieces of the rest. -/
theorem listFrom_append {shape : Shape} {text rest : List Char} (place : Place)
    (fits : Fits shape text rest.head?) :
    listFrom place (text ++ rest) =
      ⟨shape, text, place⟩ :: listFrom (place.advance text) rest := by
  obtain ⟨start, others, rfl⟩ := List.exists_cons_of_ne_nil fits.ne_nil
  rw [listFrom, Cursor.pieces_eq]
  simp only [Cursor.piece?, List.cons_append, Cut.first_of_fits fits, Cursor.advance]
  rw [pieces_eq_listFrom]

theorem listOfText_eq (source : String) :
    listOfText source = listFrom Place.start source.toList := rfl

/-- The pieces of a text are the text. -/
theorem flatMap_text_listFrom (place : Place) (text : List Char) :
    (listFrom place text).flatMap Piece.text = text := by
  induction place, text using cutInduction with
  | nil place => simp
  | piece place shape text rest fits ih => simp [listFrom_append place fits, ih]

/-- Whether a piece neither shows nor changes anything. -/
def isSilent (piece : Piece) : Bool :=
  match piece.shape with
  | .spacing | .lineComment | .blockComment true => true
  | .blockComment false | .directive | .token _ _ => false

/-- The pieces of a text that show or change something. -/
def lexemesFrom (place : Place) (text : List Char) : List Piece :=
  (listFrom place text).filter (!·.isSilent)

@[simp]
theorem lexemesFrom_nil (place : Place) : lexemesFrom place [] = [] := by
  simp [lexemesFrom]

theorem lexemesFrom_append {shape : Shape} {text rest : List Char} (place : Place)
    (fits : Fits shape text rest.head?) :
    lexemesFrom place (text ++ rest) =
      [⟨shape, text, place⟩].filter (!·.isSilent) ++
        lexemesFrom (place.advance text) rest := by
  rw [lexemesFrom, listFrom_append place fits, ← List.singleton_append, List.filter_append]
  rfl

theorem lexemesFrom_token {kind : Token.Kind} {closed : Bool} {text rest : List Char}
    (place : Place) (fits : Fits (.token kind closed) text rest.head?) :
    lexemesFrom place (text ++ rest) =
      ⟨.token kind closed, text, place⟩ :: lexemesFrom (place.advance text) rest := by
  simp [lexemesFrom_append place fits, isSilent]

/-- Spacing in front of a text moves its lexemes and changes nothing else. -/
theorem lexemesFrom_spacing {run : List Char} (rest : List Char) (place : Place)
    (blank : ∀ character ∈ run, Text.isSpacing character = true) :
    lexemesFrom place (run ++ rest) = lexemesFrom (place.advance run) rest := by
  cases run with
  | nil => rfl
  | cons first others =>
      -- The spacing goes on into the rest, where it is cut at the same character.
      have blankFurther := fun character (member : character ∈ rest.takeWhile Text.isSpacing) =>
        List.mem_takeWhile_imp member
      have stops := stops_head?_dropWhile Text.isSpacing rest
      have fits : Fits .spacing (first :: others ++ rest.takeWhile Text.isSpacing)
          (rest.dropWhile Text.isSpacing).head? := by
        refine Fits.spacing ?_ stops
        intro character member
        rcases List.mem_append.1 (List.cons_append ▸ member) with inRun | inRest
        · exact blank character inRun
        · exact blankFurther character inRest
      have whole := lexemesFrom_append place fits
      rw [List.append_assoc, List.takeWhile_append_dropWhile] at whole
      rw [whole, Place.advance_append]
      cases isRun : rest.takeWhile Text.isSpacing with
      | nil =>
          have unchanged : rest.dropWhile Text.isSpacing = rest := by
            simpa [isRun] using @List.takeWhile_append_dropWhile _ Text.isSpacing rest
          simp [unchanged, isSilent]
      | cons start further =>
          have later : Fits .spacing (start :: further)
              (rest.dropWhile Text.isSpacing).head? :=
            Fits.spacing (isRun ▸ blankFurther) stops
          have split := lexemesFrom_append (place.advance (first :: others)) later
          rw [← isRun, List.takeWhile_append_dropWhile] at split
          rw [split, isRun]
          simp [isSilent]

theorem forall_blank_of_fits {text : List Char} {next : Option Char}
    (fits : Fits .spacing text next) :
    ∀ character ∈ text, Text.isSpacing character = true := by
  cases fits with
  | spacing blank stops => exact blank

theorem isSpacing_newline : ∀ character ∈ ['\n'], Text.isSpacing character = true :=
  List.forall_mem_singleton.2 (by decide)

/-- A newline after a text whose pieces are all closed keeps its lexemes as they are. -/
theorem lexemesFrom_append_newline (place : Place) (text rest : List Char)
    (closed : ∀ piece ∈ listFrom place text, piece.shape.isClosed = true) :
    lexemesFrom place (text ++ '\n' :: rest) =
      lexemesFrom place text ++ lexemesFrom (place.advance (text ++ ['\n'])) rest := by
  induction place, text using cutInduction with
  | nil place =>
      simpa using lexemesFrom_spacing rest place isSpacing_newline
  | piece place shape text later fits ih =>
      rw [listFrom_append place fits, List.forall_mem_cons] at closed
      obtain ⟨thisClosed, laterClosed⟩ := closed
      have ih := ih laterClosed
      rw [List.append_assoc, lexemesFrom_append place fits]
      by_cases isSpacing : shape = .spacing
      · subst isSpacing
        rw [lexemesFrom_spacing _ place (forall_blank_of_fits fits), ih]
        simp [isSilent]
      · have fitsFurther : Fits shape text (later ++ '\n' :: rest).head? := by
          cases later with
          | nil => exact fits.before_newline thisClosed isSpacing
          | cons next later => exact fits
        rw [lexemesFrom_append place fitsFurther, ih]
        simp

end Piece

end ObjectIds
