import ObjectIds.Conditions
import ObjectIds.Text.Cursor

/-!
# The pieces of a source text

Every text is cut, from its start to its end, into pieces that are as long as they can
be: runs of spacing, comments, directive lines and tokens.  The pieces are not empty
and together they are the whole text, so that a token lies where the pieces before it
end.  Which pieces can be seen is decided elsewhere.

A character that can start nothing else starts a word, so cutting never fails.
-/

namespace ObjectIds

/-- What a piece of a source text is.  Only a block comment and a quoted token can
fail to be closed. -/
inductive Piece.Shape where
  | spacing
  | lineComment
  | blockComment (closed : Bool)
  | directive
  | token (kind : Token.Kind) (closed : Bool)
deriving DecidableEq, Repr

/-- A piece of a source text, and the place where it starts. -/
structure Piece where
  shape : Piece.Shape
  text : List Char
  start : Place
deriving DecidableEq, Repr

namespace Piece

/-- The first piece of a text, and what comes after it. -/
structure Cut where
  shape : Shape
  text : List Char
  rest : List Char
deriving DecidableEq, Repr

/-- The marks that are symbols by themselves. -/
def punctuation : List Char :=
  ['{', '}', '[', ']', '(', ')', ';', '.', ',', '=']

/-- The marks that may make a symbol together with an equals sign. -/
def operators : List Char := [':', '+', '-', '*', '/', '<', '>']

/-- Whether a character ends a word. -/
def endsWord (character : Char) : Bool :=
  Text.isSpacing character || punctuation.contains character ||
    operators.contains character || ['#', '"', '\''].contains character

namespace Cut

/-- Cuts after the characters that extend `start` while they satisfy a test. -/
def extend (shape : Shape) (start : List Char) (test : Char → Bool)
    (rest : List Char) : Cut :=
  ⟨shape, start ++ rest.takeWhile test, rest.dropWhile test⟩

/-- Cuts after a quoted text that starts with its delimiter. -/
def quoted (kind : Token.Kind) (delimiter : Char) (rest : List Char) : Cut :=
  let run := Text.quotedRun delimiter rest
  ⟨.token kind run.closed, delimiter :: run.text, run.rest⟩

/-- Cuts after a number: digits, and perhaps a point and more digits. -/
def number (first : Char) (rest : List Char) : Cut :=
  match rest.dropWhile Char.isDigit with
  | '.' :: fraction =>
      extend (.token .number true) (first :: rest.takeWhile Char.isDigit ++ ['.'])
        Char.isDigit fraction
  | _ => extend (.token .number true) [first] Char.isDigit rest

/-- Cuts after an operator: a doubled colon, an operator with an equals sign, or a
single character. -/
def operator (first : Char) (rest : List Char) : Cut :=
  match rest with
  | second :: others =>
      if second = '=' ∨ first = ':' ∧ second = ':' then
        ⟨.token .symbol true, [first, second], others⟩
      else ⟨.token .symbol true, [first], rest⟩
  | [] => ⟨.token .symbol true, [first], []⟩

/-- Cuts after a token that starts with a character. -/
def token (first : Char) (rest : List Char) : Cut :=
  if first.isDigit then number first rest
  else if first = '"' then quoted .quotedIdentifier first rest
  else if first = '\'' then quoted .string first rest
  else if operators.contains first then operator first rest
  else if punctuation.contains first then ⟨.token .symbol true, [first], rest⟩
  else extend (.token .word true) [first] (!endsWord ·) rest

/-- Cuts after the first piece of a text that starts with a character. -/
def first (first : Char) (rest : List Char) : Cut :=
  if Text.isSpacing first then extend .spacing [first] Text.isSpacing rest
  else if first = '#' then extend .directive ['#'] (!Text.isLineBreak ·) rest
  else if first = '/' then
    match rest with
    | '/' :: comment =>
        extend .lineComment ['/', '/'] (!Text.isLineBreak ·) comment
    | '*' :: comment =>
        let run := Text.commentRun comment
        ⟨.blockComment run.closed, '/' :: '*' :: run.text, run.rest⟩
    | _ => token '/' rest
  else token first rest

end Cut

namespace Cut

@[simp]
theorem extend_append (shape : Shape) (start : List Char) (test : Char → Bool)
    (rest : List Char) :
    (extend shape start test rest).text ++ (extend shape start test rest).rest =
      start ++ rest := by
  simp [extend, List.takeWhile_append_dropWhile]

theorem number_append (first : Char) (rest : List Char) :
    (number first rest).text ++ (number first rest).rest = first :: rest := by
  unfold number
  split
  · rename_i fraction isPoint
    rw [extend_append]
    simp [← isPoint, List.takeWhile_append_dropWhile]
  · simp

theorem operator_append (first : Char) (rest : List Char) :
    (operator first rest).text ++ (operator first rest).rest = first :: rest := by
  unfold operator
  split
  · split <;> rfl
  · rfl

theorem token_append (first : Char) (rest : List Char) :
    (token first rest).text ++ (token first rest).rest = first :: rest := by
  unfold token
  split
  · exact number_append first rest
  · split
    · simp [quoted]
    · split
      · simp [quoted]
      · split
        · exact operator_append first rest
        · split
          · rfl
          · simp

/-- The first piece of a text and what comes after it are the whole text. -/
theorem first_append (character : Char) (rest : List Char) :
    (first character rest).text ++ (first character rest).rest =
      character :: rest := by
  unfold first
  split
  · simp
  · split
    · rename_i isHash
      simp [isHash]
    · split
      · rename_i isSlash
        split
        · simp [isSlash]
        · simp [isSlash]
        · rw [token_append, isSlash]
      · exact token_append character rest

theorem token_ne_nil (first : Char) (rest : List Char) :
    (token first rest).text ≠ [] := by
  unfold token number operator
  repeat' split
  all_goals simp [extend, quoted]

/-- A piece is not empty. -/
theorem first_ne_nil (character : Char) (rest : List Char) :
    (first character rest).text ≠ [] := by
  unfold first
  repeat' split
  all_goals first
    | exact token_ne_nil _ _
    | simp [extend]

/-- Cutting off a piece leaves a shorter text. -/
theorem length_rest_first_le (character : Char) (rest : List Char) :
    (first character rest).rest.length ≤ rest.length := by
  have lengths := congrArg List.length (first_append character rest)
  have positive := List.length_pos_iff.2 (first_ne_nil character rest)
  simp only [List.length_append, List.length_cons] at lengths
  omega

end Cut

/-- The place after a piece. -/
def stop (piece : Piece) : Place := piece.start.advance piece.text

/-- The bytes of a piece. -/
def span (piece : Piece) : Span := piece.start.spanTo piece.stop

/-- The token that a piece is. -/
def token? (piece : Piece) : Option Token :=
  match piece.shape with
  | .token kind _ =>
      some ⟨kind, String.ofList piece.text, piece.start.position, piece.span⟩
  | _ => none

/-- The directive that a piece is. -/
def directive? (piece : Piece) : Option Directive :=
  match piece.shape with
  | .directive => some (Directive.ofLine piece.text)
  | _ => none

/-- What is wrong with a piece that is not closed. -/
def fault? (piece : Piece) : Option Issue.Cause :=
  match piece.shape with
  | .blockComment false => some .unterminatedComment
  | .token kind false => Issue.Cause.ofUnterminated? kind
  | _ => none

end Piece

namespace Cursor

/-- Reads the next piece. -/
def piece? (cursor : Cursor) : Option (Piece × Cursor) :=
  match cursor.rest with
  | [] => none
  | character :: rest =>
      let cut := Piece.Cut.first character rest
      some (⟨cut.shape, cut.text, cursor.place⟩, cursor.advance cut.text cut.rest)

/-- Reading a piece leaves fewer characters to come. -/
theorem length_rest_lt_of_piece? {cursor next : Cursor} {piece : Piece}
    (found : cursor.piece? = some (piece, next)) :
    next.rest.length < cursor.rest.length := by
  unfold piece? at found
  split at found
  · simp at found
  · rename_i character rest isRest
    simp only [Option.some.injEq, Prod.mk.injEq] at found
    rw [isRest, ← found.2, advance_rest, List.length_cons]
    exact Nat.lt_succ_of_le (Piece.Cut.length_rest_first_le character rest)

/-- The pieces still to come, after the pieces in `found`, which are given latest
first. -/
def piecesAfter (found : List Piece) (cursor : Cursor) : List Piece :=
  match isNext : cursor.piece? with
  | none => found.reverse
  | some (piece, rest) =>
      have := length_rest_lt_of_piece? isNext
      piecesAfter (piece :: found) rest
termination_by cursor.rest.length

/-- The pieces still to come. -/
def pieces (cursor : Cursor) : List Piece := cursor.piecesAfter []

theorem piecesAfter_append (found earlier : List Piece) (cursor : Cursor) :
    cursor.piecesAfter (found ++ earlier) =
      earlier.reverse ++ cursor.piecesAfter found := by
  fun_induction piecesAfter found cursor with
  | case1 found cursor atEnd =>
      rw [piecesAfter]
      split
      · simp
      · simp_all
  | case2 found cursor piece rest isNext shorter ih =>
      rw [piecesAfter]
      split
      · simp_all
      · rename_i otherPiece otherRest isOther
        rw [isNext] at isOther
        cases isOther
        exact ih

/-- The pieces still to come are the next piece and the pieces after it. -/
theorem pieces_eq (cursor : Cursor) :
    cursor.pieces =
      match cursor.piece? with
      | none => []
      | some (piece, rest) => piece :: rest.pieces := by
  rw [pieces, piecesAfter]
  split
  · simp_all
  · rename_i piece rest isNext
    simp only [isNext]
    exact piecesAfter_append [] [piece] rest

end Cursor

/-- The pieces of a source text. -/
def Piece.listOfText (source : String) : List Piece :=
  (Cursor.ofText source).pieces

end ObjectIds
