import Mathlib.Data.List.Basic
import ObjectIds.Proofs.TokenGrammar

/-!
# Lexed texts

The lexemes of a text are its tokens and its directive lines.  A text is `Lexed` into
lexemes when they match the grammar where they stand and there is only filler around them.
This can be done in exactly one way, which is how the text is cut into pieces.
-/

namespace ObjectIds

/-- A token or a directive line, by what is written. -/
inductive Lexeme where
  | token (kind : Token.Kind) (text : List Char)
  | directive (line : List Char)
deriving DecidableEq, Repr

namespace Lexeme

def text : Lexeme → List Char
  | .token _ text => text
  | .directive line => line

/-- The lexemes before the character `next` or before the end of the source. -/
inductive Matches : Lexeme → Option Char → Prop
  | token {kind : Token.Kind} {text : List Char} {next : Option Char}
      (fits : Token.Matches kind text next) : Matches (.token kind text) next
  | directive {body : List Char} {next : Option Char}
      (inLine : ∀ character ∈ body, Text.isLineBreak character = false)
      (stops : ∀ character ∈ next, Text.isLineBreak character = true) :
      Matches (.directive ('#' :: body)) next

end Lexeme

/-- A text that consists of lexemes with filler around them. -/
inductive Lexed : List Lexeme → List Char → Prop
  | last {rest : List Char} (filler : Text.Filler rest none) : Lexed [] rest
  | lexeme {gap rest : List Char} {lexeme : Lexeme} {lexemes : List Lexeme}
      (filler : Text.Filler gap lexeme.text.head?)
      (noComment : ¬Text.StartsComment (lexeme.text ++ rest))
      (fits : lexeme.Matches rest.head?) (later : Lexed lexemes rest) :
      Lexed (lexeme :: lexemes) (gap ++ lexeme.text ++ rest)

namespace Piece

/-- The lexeme that a piece is. -/
def lexeme? (piece : Piece) : Option Lexeme :=
  match piece.shape with
  | .token kind _ => some (.token kind piece.text)
  | .directive => some (.directive piece.text)
  | .spacing | .lineComment | .blockComment _ => none

/-- Whether a byte of a text belongs to a piece. -/
def Covers (piece : Piece) (offset : Nat) : Prop :=
  piece.start.offset ≤ offset ∧ offset < piece.stop.offset

section Lexemes

variable {shape : Shape} {text rest : List Char} {place : Place} {lexeme : Lexeme}

theorem isLexeme_eq_false_of_lexeme? {piece : Piece} (noLexeme : piece.lexeme? = none) :
    piece.isLexeme = false := by
  obtain ⟨shape, text, start⟩ := piece
  cases shape with
  | token kind closed => contradiction
  | directive => contradiction
  | spacing => rfl
  | lineComment => rfl
  | blockComment closed => rfl

theorem lexeme?_of_isSilent {piece : Piece} (silent : piece.isSilent = true) :
    piece.lexeme? = none := by
  obtain ⟨shape, text, start⟩ := piece
  cases shape with
  | token kind closed => contradiction
  | directive => contradiction
  | spacing => rfl
  | lineComment => rfl
  | blockComment closed => rfl

/-- A lexeme that is cut matches where it stands. -/
theorem matches_of_lexeme? (fits : Fits shape text rest.head?)
    (isLexeme : lexeme? ⟨shape, text, place⟩ = some lexeme) :
    lexeme.text = text ∧ lexeme.Matches rest.head? ∧ ¬Text.StartsComment (text ++ rest) := by
  cases shape with
  | token kind closed =>
      cases isLexeme
      exact ⟨rfl, .token (matches_of_fits fits), not_startsComment_of_fits fits⟩
  | directive =>
      cases isLexeme
      cases fits with
      | directive inLine stops =>
          refine ⟨rfl, .directive inLine ?_, Text.not_startsComment_of_ne (by decide)⟩
          simpa using stops_iff.1 stops
  | spacing => contradiction
  | lineComment => contradiction
  | blockComment closed => contradiction

/-- A lexeme that matches where it stands is cut there. -/
theorem exists_fits_of_lexeme (place : Place) (fits : lexeme.Matches rest.head?)
    (noComment : ¬Text.StartsComment (lexeme.text ++ rest)) :
    ∃ shape, Fits shape lexeme.text rest.head? ∧
      lexeme? ⟨shape, lexeme.text, place⟩ = some lexeme := by
  cases fits with
  | token fits =>
      obtain ⟨closed, isCut⟩ := exists_fits_of_matches fits noComment
      exact ⟨_, isCut, rfl⟩
  | directive inLine stops =>
      refine ⟨.directive, .directive inLine (stops_iff.2 ?_), rfl⟩
      simpa using stops

/-- A piece that is no lexeme can be put in front of a lexed text. -/
theorem lexed_append {lexemes : List Lexeme} (noLexeme : lexeme? ⟨shape, text, place⟩ = none)
    (fits : Fits shape text rest.head?) (lexed : Lexed lexemes rest) :
    Lexed lexemes (text ++ rest) := by
  have isFiller := isLexeme_eq_false_of_lexeme? noLexeme
  cases lexed with
  | last filler =>
      exact .last (filler_append isFiller (by simpa using fits) filler)
  | @lexeme gap after lexeme lexemes filler noComment fitsThere later =>
      obtain ⟨lexemeShape, isCut, -⟩ := exists_fits_of_lexeme place fitsThere noComment
      rw [List.append_assoc, List.head?_append,
        List.head?_append_of_ne_nil lexeme.text isCut.ne_nil] at fits
      have longer := filler_append isFiller fits filler
      rw [← List.append_assoc, ← List.append_assoc]
      exact .lexeme longer noComment fitsThere later

end Lexemes

theorem filterMap_lexeme?_lexemesFrom (place : Place) (text : List Char) :
    (lexemesFrom place text).filterMap lexeme? = (listFrom place text).filterMap lexeme? := by
  rw [lexemesFrom, List.filterMap_filter]
  congr 1
  funext piece
  cases silent : piece.isSilent with
  | true => simp [lexeme?_of_isSilent silent]
  | false => simp

/-- Filler in front of a text moves its lexemes and adds none. -/
theorem filterMap_lexeme?_filler {gap rest : List Char} (place : Place)
    (filler : Text.Filler gap rest.head?) :
    (listFrom place (gap ++ rest)).filterMap lexeme? =
      (listFrom (place.advance gap) rest).filterMap lexeme? := by
  generalize isNext : rest.head? = next at filler
  induction filler generalizing place with
  | nil => rfl
  | @spacing character gap next blank later ih =>
      have moved := lexemesFrom_spacing (gap ++ rest) place (List.forall_mem_singleton.2 blank)
      have same := congrArg (List.filterMap lexeme?) moved
      rw [filterMap_lexeme?_lexemesFrom, filterMap_lexeme?_lexemesFrom] at same
      rw [List.cons_append, ← List.singleton_append, same, ih _ isNext]
      rfl
  | @lineComment body gap next inLine stops later ih =>
      have fits : Fits .lineComment ('/' :: '/' :: body) (gap ++ rest).head? := by
        refine .lineComment inLine (stops_iff.2 fun character isNext' => ?_)
        rw [List.head?_append, isNext] at isNext'
        simpa using stops character isNext'
      have isText : '/' :: '/' :: (body ++ gap) ++ rest =
          '/' :: '/' :: body ++ (gap ++ rest) := by simp
      rw [isText, listFrom_append place fits, List.filterMap_cons_none rfl, ih _ isNext,
        ← Place.advance_append]
      rfl
  | @blockComment body gap next inside later ih =>
      have fits : Fits (.blockComment true) ('/' :: '*' :: (body ++ ['*', '/']))
          (gap ++ rest).head? := .closedComment inside
      have isText : '/' :: '*' :: (body ++ '*' :: '/' :: gap) ++ rest =
          '/' :: '*' :: (body ++ ['*', '/']) ++ (gap ++ rest) := by simp
      rw [isText, listFrom_append place fits, List.filterMap_cons_none rfl, ih _ isNext,
        ← Place.advance_append]
      simp
  | @openComment body inside =>
      obtain rfl := List.head?_eq_none_iff.1 isNext
      have fits : Fits (.blockComment false) ('/' :: '*' :: body) ([] : List Char).head? :=
        .openComment inside
      rw [listFrom_append place fits]
      rfl

theorem lexed_listFrom (place : Place) (text : List Char) :
    Lexed ((listFrom place text).filterMap lexeme?) text := by
  induction place, text using cutInduction with
  | nil place =>
      rw [listFrom_nil]
      exact .last .nil
  | piece place shape text rest fits ih =>
      rw [listFrom_append place fits]
      cases isLexeme : lexeme? ⟨shape, text, place⟩ with
      | some lexeme =>
          obtain ⟨rfl, fitsThere, noComment⟩ := matches_of_lexeme? fits isLexeme
          rw [List.filterMap_cons_some isLexeme]
          exact .lexeme .nil noComment fitsThere ih
      | none =>
          rw [List.filterMap_cons_none isLexeme]
          exact lexed_append isLexeme fits ih

theorem filterMap_lexeme?_of_lexed {lexemes : List Lexeme} {text : List Char}
    (lexed : Lexed lexemes text) (place : Place) :
    (listFrom place text).filterMap lexeme? = lexemes := by
  induction lexed generalizing place with
  | @last rest filler =>
      have noLexemes := @filterMap_lexeme?_filler rest [] place filler
      simpa using noLexemes
  | @lexeme gap rest lexeme lexemes filler noComment fits later ih =>
      obtain ⟨shape, isCut, isLexeme⟩ := exists_fits_of_lexeme (place.advance gap) fits noComment
      have isNext : (lexeme.text ++ rest).head? = lexeme.text.head? :=
        List.head?_append_of_ne_nil _ isCut.ne_nil
      rw [List.append_assoc, filterMap_lexeme?_filler place (isNext ▸ filler),
        listFrom_append _ isCut, List.filterMap_cons_some isLexeme, ih]

/-- Every byte of a text belongs to exactly one piece. -/
theorem existsUnique_covers (place : Place) (text : List Char) {offset : Nat}
    (starts : place.offset ≤ offset) (stops : offset < (place.advance text).offset) :
    ∃! piece, piece ∈ listFrom place text ∧ piece.Covers offset := by
  induction place, text using cutInduction with
  | nil place =>
      rw [Place.advance_nil] at stops
      omega
  | piece place shape text rest fits ih =>
      rw [listFrom_append place fits]
      by_cases inFirst : offset < (place.advance text).offset
      · refine ⟨⟨shape, text, place⟩, ⟨List.mem_cons_self, starts, inFirst⟩, ?_⟩
        rintro other ⟨member, startsBefore, -⟩
        rcases List.mem_cons.1 member with rfl | later
        · rfl
        · obtain ⟨before, -, isStart⟩ := start_of_mem_listFrom later
          rw [isStart, Place.offset_advance] at startsBefore
          omega
      · rw [Place.advance_append] at stops
        obtain ⟨piece, ⟨member, covers⟩, only⟩ := ih (by omega) stops
        refine ⟨piece, ⟨List.mem_cons_of_mem _ member, covers⟩, ?_⟩
        rintro other ⟨otherMember, otherCovers⟩
        rcases List.mem_cons.1 otherMember with rfl | later
        · exact absurd otherCovers.2 inFirst
        · exact only other ⟨later, otherCovers⟩

end Piece

theorem Token.longestBefore {token : Token} {after : List Char} {closed : Bool}
    (fits : Piece.Fits (.token token.kind closed) token.text.toList after.head?) :
    token.LongestBefore after := by
  refine ⟨Piece.matches_of_fits fits, ?_, Piece.not_startsComment_of_fits fits, ?_⟩
  · intro isHash
    -- A text that starts with `#` is cut after a directive.
    obtain ⟨others, isText⟩ := List.head?_eq_some_iff.1 isHash
    rw [isText] at fits
    have isCut := congrArg Piece.Cut.shape (Piece.Cut.first_of_fits fits)
    contradiction
  · intro kind other otherFits starts
    exact Piece.prefix_of_matches fits otherFits starts

/-- The tokens of a source text are the longest matches of their grammar.  Every byte belongs
to exactly one piece of the text, and what is neither a token nor a directive is filler.
Whoever divides the text into tokens and directives that match, with filler around them,
finds these and no others. -/
theorem tokens_longest_matches (source : String) :
    let pieces := Piece.listOfText source
    (∀ piece ∈ pieces, ∃ before after,
        source.toList = before ++ piece.text ++ after ∧
          piece.start = Place.start.advance before ∧
          (piece.lexeme? = none → Text.Filler piece.text after.head?) ∧
          ∀ token, piece.token? = some token →
            token.text.toList = piece.text ∧ token.LongestBefore after) ∧
      (∀ offset < source.utf8ByteSize, ∃! piece, piece ∈ pieces ∧ piece.Covers offset) ∧
      ∀ lexemes, pieces.filterMap Piece.lexeme? = lexemes ↔ Lexed lexemes source.toList := by
  intro pieces
  refine ⟨?_, ?_, ?_⟩
  · intro piece member
    obtain ⟨before, after, isSource, starts, fits⟩ := Piece.exists_split_of_mem_listFrom member
    refine ⟨before, after, isSource, starts, fun noLexeme => ?_, fun token isToken => ?_⟩
    · have isFiller := Piece.isLexeme_eq_false_of_lexeme? noLexeme
      have filler := @Piece.filler_append piece [] after.head? isFiller fits .nil
      rwa [List.append_nil] at filler
    · obtain ⟨text, -⟩ := Piece.text_of_token? isToken
      obtain ⟨closed, isShape⟩ := Piece.exists_shape_of_token? isToken
      rw [isShape, ← text] at fits
      exact ⟨text, Token.longestBefore fits⟩
  · intro offset inside
    apply Piece.existsUnique_covers _ _ (Nat.zero_le offset)
    rwa [Place.offset_advance_start, Text.byteLength_toList]
  · intro lexemes
    constructor
    · rintro rfl
      exact Piece.lexed_listFrom _ _
    · intro lexed
      exact Piece.filterMap_lexeme?_of_lexed lexed _

/-- A point too many, an operator before an equals sign, a comment with a quote inside, and
an identifier whose doubled quote ends the source. -/
theorem tokens_longest_matches_with_open_identifier :
    let source := "#if A\n7..5:=x1/*'*/'it''s'::=\"n\"\""
    let lexemes : List Lexeme :=
      [.directive "#if A".toList, .token .number "7.".toList, .token .symbol ['.'],
        .token .number ['5'], .token .symbol [':', '='], .token .word ['x', '1'],
        .token .string "'it''s'".toList, .token .symbol [':', ':'], .token .symbol ['='],
        .token .quotedIdentifier "\"n\"\"".toList]
    (Piece.listOfText source).filterMap Piece.lexeme? = lexemes ∧
      Lexed lexemes source.toList ∧
      8 < source.utf8ByteSize ∧
      ∃! piece, piece ∈ Piece.listOfText source ∧ piece.Covers 8 := by
  intro source lexemes
  have isCut : (Piece.listOfText source).filterMap Piece.lexeme? = lexemes := by
    decide +kernel
  have inside : 8 < source.utf8ByteSize := by decide +kernel
  obtain ⟨-, covered, exactly⟩ := tokens_longest_matches source
  exact ⟨isCut, (exactly lexemes).1 isCut, inside, covered 8 inside⟩

end ObjectIds
