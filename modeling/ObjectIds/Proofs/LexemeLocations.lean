import Mathlib.Data.List.Induction
import ObjectIds.Proofs.PlaceOrder

/-!
# Where lexemes stand

The lexemes of a text are its tokens and its directives, whether or not they can be seen.
They stand one after the other, each in the bytes of its span, and between them there is
only filler: spacing and comments.  So nothing of a text is lost when it is cut, and in a
text without directives all that is not filler can be seen.
-/

namespace ObjectIds

namespace Text

/-- The number of bytes that a text takes. -/
def byteLength (text : List Char) : Nat := (String.ofList text).utf8ByteSize

@[simp]
theorem byteLength_append (first second : List Char) :
    byteLength (first ++ second) = byteLength first + byteLength second := by
  rw [byteLength, String.ofList_append, String.utf8ByteSize_append]
  rfl

theorem byteLength_toList (source : String) :
    byteLength source.toList = source.utf8ByteSize := by
  rw [byteLength, String.ofList_toList]

theorem byteLength_cons (character : Char) (text : List Char) :
    byteLength (character :: text) = character.utf8Size + byteLength text := by
  rw [← List.singleton_append, byteLength_append, byteLength,
    ← String.singleton_eq_ofList, String.utf8ByteSize_singleton]

theorem byteLength_pos {text : List Char} (notEmpty : text ≠ []) : 0 < byteLength text := by
  obtain ⟨character, rest, rfl⟩ := List.exists_cons_of_ne_nil notEmpty
  rw [byteLength_cons]
  exact Nat.add_pos_left character.utf8Size_pos _

/-- What may stand around lexemes, before the character `next` or before the end of the
source.  A line comment ends where its line ends, and only at the end of the source a block
comment can be left open. -/
inductive Filler : List Char → Option Char → Prop
  | nil {next : Option Char} : Filler [] next
  | spacing {character : Char} {rest : List Char} {next : Option Char}
      (blank : isSpacing character = true) (later : Filler rest next) :
      Filler (character :: rest) next
  | lineComment {body rest : List Char} {next : Option Char}
      (inLine : ∀ character ∈ body, isLineBreak character = false)
      (stops : ∀ character ∈ rest.head?.or next, isLineBreak character = true)
      (later : Filler rest next) :
      Filler ('/' :: '/' :: (body ++ rest)) next
  | blockComment {body rest : List Char} {next : Option Char}
      (inside : ¬['*', '/'] <:+: body ++ ['*']) (later : Filler rest next) :
      Filler ('/' :: '*' :: (body ++ '*' :: '/' :: rest)) next
  | openComment {body : List Char} (inside : ¬['*', '/'] <:+: body) :
      Filler ('/' :: '*' :: body) none

/-- A text that comes after `before` and consists of lexemes in their spans, with filler
around them. -/
inductive Tiled : List Char → List (List Char × Span) → List Char → Prop
  | last {before rest : List Char} (filler : Filler rest none) : Tiled before [] rest
  | lexeme {before gap text rest : List Char} {span : Span}
      {lexemes : List (List Char × Span)} (filler : Filler gap text.head?)
      (notEmpty : text ≠ []) (starts : span.start.toNat = byteLength (before ++ gap))
      (stops : span.stop.toNat = byteLength (before ++ gap ++ text))
      (later : Tiled (before ++ gap ++ text) lexemes rest) :
      Tiled before ((text, span) :: lexemes) (gap ++ text ++ rest)

theorem Filler.append_spacing {run rest : List Char} {next : Option Char}
    (blank : ∀ character ∈ run, isSpacing character = true) (later : Filler rest next) :
    Filler (run ++ rest) next := by
  induction run with
  | nil => exact later
  | cons character run ih =>
      obtain ⟨firstBlank, othersBlank⟩ := List.forall_mem_cons.1 blank
      exact .spacing firstBlank (ih othersBlank)

namespace Tiled

variable {before text : List Char} {lexemes : List (List Char × Span)}

/-- Lexemes take bytes of their own, in their order, after the text before them. -/
theorem inside (tiled : Tiled before lexemes text) :
    ∀ lexeme ∈ lexemes, byteLength before ≤ lexeme.2.start.toNat ∧
      lexeme.2.start < lexeme.2.stop ∧ lexeme.2.stop.toNat ≤ byteLength (before ++ text) := by
  induction tiled with
  | last filler => simp
  | @lexeme before gap text rest span lexemes filler notEmpty starts stops later ih =>
      have positive := byteLength_pos notEmpty
      simp only [byteLength_append] at starts stops ih ⊢
      intro lexeme member
      rcases List.mem_cons.1 member with rfl | isLater
      · rw [UInt32.lt_iff_toNat_lt]
        simp only
        omega
      · obtain ⟨startsAfter, notEmpty, stopsBefore⟩ := ih lexeme isLater
        exact ⟨by omega, notEmpty, by omega⟩

theorem pairwise (tiled : Tiled before lexemes text) :
    lexemes.Pairwise fun earlier later => earlier.2.stop ≤ later.2.start := by
  induction tiled with
  | last filler => exact .nil
  | lexeme filler notEmpty starts stops later ih =>
      refine List.pairwise_cons.2 ⟨fun other member => ?_, ih⟩
      rw [UInt32.le_iff_toNat_le, stops]
      exact (later.inside other member).1

end Tiled

end Text

namespace Place

theorem line_advance (place : Place) (text : List Char) :
    (place.advance text).line = place.line + text.count '\n' := by
  induction text generalizing place with
  | nil => rfl
  | cons character text ih =>
      rw [advance_cons, ih]
      by_cases isNewline : character = '\n'
      · rw [step, if_pos isNewline, isNewline, List.count_cons_self, Nat.add_right_comm,
          Nat.add_assoc]
      · rw [step, if_neg isNewline, List.count_cons_of_ne isNewline]

/-- A column counts the characters after the last newline. -/
theorem column_advance_start (text : List Char) :
    (start.advance text).column = (text.reverse.takeWhile (· != '\n')).length := by
  induction text using List.reverseRecOn with
  | nil => rfl
  | append_singleton text character ih =>
      rw [advance_append, advance_cons, advance_nil, step, List.reverse_append]
      by_cases isNewline : character = '\n'
      · simp [isNewline]
      · simp [isNewline, ih]

theorem offset_advance_start (text : List Char) :
    (start.advance text).offset = Text.byteLength text := by
  rw [offset_advance]
  exact Nat.zero_add _

theorem covered_advance_start (text : List Char) : (start.advance text).Covered := by
  have startCovered : start.Covered := ⟨Nat.le_refl _, Nat.le_refl _⟩
  exact startCovered.advance text

end Place

namespace Piece

/-- Whether a piece is a token or a directive. -/
def isLexeme (piece : Piece) : Bool := piece.token?.isSome || piece.directive?.isSome

/-- The characters of a piece and the bytes in which they stand. -/
def spanned (piece : Piece) : List Char × Span := (piece.text, piece.span)

/-- The spans of pieces are exact in a text that 32 bits can count. -/
theorem span_toNat {before text after : List Char} (shape : Shape)
    (short : Text.byteLength (before ++ text ++ after) < UInt32.size) :
    (span ⟨shape, text, Place.start.advance before⟩).start.toNat = Text.byteLength before ∧
      (span ⟨shape, text, Place.start.advance before⟩).stop.toNat =
        Text.byteLength (before ++ text) := by
  rw [Text.byteLength_append] at short
  have beforeShort : Text.byteLength before < UInt32.size := by
    rw [Text.byteLength_append] at short
    omega
  unfold span stop Place.spanTo
  rw [← Place.advance_append, Place.offset_advance_start, Place.offset_advance_start]
  exact ⟨UInt32.toNat_ofNat_of_lt' beforeShort,
    UInt32.toNat_ofNat_of_lt' (Nat.lt_of_le_of_lt (Nat.le_add_right _ _) short)⟩

/-- After a piece come the pieces of the text after it. -/
theorem exists_pieces_of_mem_listFrom {place : Place} {text : List Char} {piece : Piece}
    (member : piece ∈ listFrom place text) :
    ∃ before earlier after, text = before ++ piece.text ++ after ∧
      piece.start = place.advance before ∧ Fits piece.shape piece.text after.head? ∧
      listFrom place text = earlier ++ piece :: listFrom piece.stop after := by
  induction place, text using cutInduction with
  | nil place => simp at member
  | piece place shape text rest fits ih =>
      rw [listFrom_append place fits] at member ⊢
      rcases List.mem_cons.1 member with rfl | later
      · exact ⟨[], [], rest, rfl, rfl, fits, rfl⟩
      · obtain ⟨before, earlier, after, rfl, starts, fitsThere, isList⟩ := ih later
        refine ⟨text ++ before, ⟨shape, text, place⟩ :: earlier, after, by simp, ?_, fitsThere, ?_⟩
        · rw [starts, Place.advance_append]
        · rw [isList, List.cons_append]

/-- A piece stands after the text that comes before it, and before the rest of the text. -/
theorem exists_split_of_mem_listFrom {place : Place} {text : List Char} {piece : Piece}
    (member : piece ∈ listFrom place text) :
    ∃ before after, text = before ++ piece.text ++ after ∧
      piece.start = place.advance before ∧ Fits piece.shape piece.text after.head? := by
  obtain ⟨before, -, after, isText, starts, fits, -⟩ := exists_pieces_of_mem_listFrom member
  exact ⟨before, after, isText, starts, fits⟩

/-- A piece of a source text that 32 bits can count, with the text before it and the text
after it. -/
structure StandsIn (source : String) (before after : List Char) (piece : Piece) : Prop where
  source_eq : source.toList = before ++ piece.text ++ after
  start_eq : piece.start = Place.start.advance before
  fits : Fits piece.shape piece.text after.head?
  first_byte : piece.span.start.toNat = Text.byteLength before
  last_byte : piece.span.stop.toNat = Text.byteLength (before ++ piece.text)

theorem exists_standsIn {source : String} {piece : Piece}
    (short : source.utf8ByteSize < UInt32.size) (member : piece ∈ listOfText source) :
    ∃ before after, piece.StandsIn source before after := by
  rw [listOfText_eq] at member
  obtain ⟨before, after, isSource, starts, fits⟩ := exists_split_of_mem_listFrom member
  obtain ⟨shape, text, start⟩ := piece
  simp only at starts
  subst starts
  rw [← Text.byteLength_toList, isSource] at short
  obtain ⟨exactStart, exactStop⟩ := span_toNat shape short
  exact ⟨before, after, isSource, rfl, fits, exactStart, exactStop⟩

/-- A piece that is no lexeme can be put in front of filler. -/
theorem filler_append {piece : Piece} {gap : List Char} {next : Option Char}
    (noLexeme : piece.isLexeme = false)
    (fits : Fits piece.shape piece.text (gap.head?.or next)) (filler : Text.Filler gap next) :
    Text.Filler (piece.text ++ gap) next := by
  obtain ⟨shape, text, start⟩ := piece
  generalize isAfter : gap.head?.or next = after at fits
  cases fits with
  | spacing blank stops => exact filler.append_spacing blank
  | lineComment inLine stops =>
      refine .lineComment inLine (fun character isNext => ?_) filler
      rw [isAfter] at isNext
      rw [Option.mem_def.1 isNext] at stops
      simpa using stops
  | @closedComment body _ inside =>
      have comment := Text.Filler.blockComment inside filler
      simpa using comment
  | openComment inside =>
      obtain ⟨noGap, rfl⟩ := Option.or_eq_none_iff.1 isAfter
      rw [List.head?_eq_none_iff.1 noGap, List.append_nil]
      exact .openComment inside
  | _ => contradiction

/-- The lexemes of a text tile it. -/
theorem tiled_listFrom (before text : List Char)
    (short : Text.byteLength (before ++ text) < UInt32.size) :
    Text.Tiled before
      (((listFrom (Place.start.advance before) text).filter isLexeme).map spanned) text := by
  generalize isPlace : Place.start.advance before = place
  induction place, text using cutInduction generalizing before with
  | nil place =>
      rw [listFrom_nil]
      exact .last .nil
  | piece place shape text rest fits ih =>
      subst isPlace
      have exactly := span_toNat shape (List.append_assoc before text rest ▸ short)
      have later := ih (before ++ text) (by rwa [List.append_assoc])
        (Place.advance_append _ _ _)
      rw [listFrom_append _ fits, List.filter_cons]
      cases isLexeme : isLexeme ⟨shape, text, Place.start.advance before⟩ with
      | true =>
          rw [if_pos rfl, List.map_cons]
          have tiled := @Text.Tiled.lexeme before [] text rest _ _ .nil fits.ne_nil
            (by simpa using exactly.1) (by simpa using exactly.2) (by simpa using later)
          exact tiled
      | false =>
          -- The piece lengthens the filler before the next lexeme or before the end.
          rw [if_neg Bool.false_ne_true]
          generalize List.map spanned _ = lexemes at later ⊢
          cases later with
          | last filler =>
              have longer := filler_append isLexeme (by simpa using fits) filler
              exact .last longer
          | @lexeme _ gap next others span lexemes filler notEmpty starts stops later =>
              obtain ⟨first, more, rfl⟩ := List.exists_cons_of_ne_nil notEmpty
              have head : (gap ++ first :: more ++ others).head? =
                  gap.head?.or (first :: more).head? := by
                cases gap <;> rfl
              have longer := filler_append isLexeme (by rwa [← head]) filler
              have tiled := @Text.Tiled.lexeme before (text ++ gap) (first :: more) others span
                lexemes longer notEmpty (by simpa using starts) (by simpa using stops)
                (by simpa using later)
              simpa using tiled

theorem filterMap_token?_filter_isLexeme (pieces : List Piece) :
    (pieces.filter isLexeme).filterMap token? = pieces.filterMap token? := by
  rw [List.filterMap_filter]
  congr 1
  funext piece
  cases isToken : piece.token? <;> simp [isLexeme, isToken]

theorem text_of_token? {piece : Piece} {token : Token} (isToken : piece.token? = some token) :
    token.text.toList = piece.text ∧ token.span = piece.span := by
  unfold token? at isToken
  split at isToken
  · obtain rfl := Option.some.inj isToken
    exact ⟨String.toList_ofList, rfl⟩
  · contradiction

theorem exists_shape_of_token? {piece : Piece} {token : Token}
    (isToken : piece.token? = some token) : ∃ closed, piece.shape = .token token.kind closed := by
  unfold token? at isToken
  split at isToken
  · rename_i kind closed isShape
    obtain rfl := Option.some.inj isToken
    exact ⟨closed, isShape⟩
  · contradiction

end Piece

namespace Token

/-- The characters of a token and the bytes in which they stand. -/
def spanned (token : Token) : List Char × Span := (token.text.toList, token.span)

/-- A token whose span holds its text, and whose position counts the newlines before it and
the characters after the last of them. -/
structure StandsAfter (before : List Char) (token : Token) : Prop where
  start_eq : token.span.start.toNat = Text.byteLength before
  stop_eq : token.span.stop.toNat = Text.byteLength (before ++ token.text.toList)
  line_eq : token.position.line.toNat = before.count '\n'
  column_eq :
    token.position.column.toNat = (before.reverse.takeWhile (· != '\n')).length

/-- Where nothing is a directive, the lexemes are the tokens. -/
theorem map_spanned_filterMap_token? {pieces : List Piece}
    (noDirectives : ∀ piece ∈ pieces, piece.directive? = none) :
    (pieces.filterMap Piece.token?).map spanned =
      (pieces.filter Piece.isLexeme).map Piece.spanned := by
  induction pieces with
  | nil => rfl
  | cons piece pieces ih =>
      obtain ⟨noDirective, noneLater⟩ := List.forall_mem_cons.1 noDirectives
      have later := ih noneLater
      cases isToken : piece.token? with
      | none => simp [Piece.isLexeme, isToken, noDirective, later]
      | some token =>
          obtain ⟨text, span⟩ := Piece.text_of_token? isToken
          simp [Piece.isLexeme, isToken, later, spanned, Piece.spanned, text, span]

theorem exists_standsAfter {source : String} {token : Token}
    (short : source.utf8ByteSize < UInt32.size)
    (member : token ∈ (Piece.listOfText source).filterMap Piece.token?) :
    ∃ before after, source.toList = before ++ token.text.toList ++ after ∧
      token.StandsAfter before := by
  obtain ⟨piece, isPiece, isToken⟩ := List.mem_filterMap.1 member
  obtain ⟨before, after, stands⟩ := Piece.exists_standsIn short isPiece
  obtain ⟨text, span⟩ := Piece.text_of_token? isToken
  have position := Piece.position_of_token? isToken
  have beforeShort : Text.byteLength before < UInt32.size := by
    rw [← stands.first_byte]
    exact piece.span.start.toNat_lt
  -- Lines and columns are at most as many as bytes, so 32 bits can count them too.
  obtain ⟨lineBound, columnBound⟩ := Place.covered_advance_start before
  rw [Place.offset_advance_start] at lineBound columnBound
  refine ⟨before, after, by rw [stands.source_eq, text], ?_, ?_, ?_, ?_⟩
  · rw [span, stands.first_byte]
  · rw [span, stands.last_byte, text]
  · have line := UInt32.toNat_ofNat_of_lt' (Nat.lt_of_le_of_lt lineBound beforeShort)
    rw [Place.line_advance] at line
    rw [position, stands.start_eq, Place.position, Place.line_advance, line]
    exact Nat.zero_add _
  · have column := UInt32.toNat_ofNat_of_lt' (Nat.lt_of_le_of_lt columnBound beforeShort)
    rw [Place.column_advance_start] at column
    rw [position, stands.start_eq, Place.position, Place.column_advance_start, column]

end Token

/-- The lexemes of a text tile it, in spans that are not empty and follow one another, and
tokens have the text and the position of their place.  A run from any symbols shows some of
these tokens, and all of them when there are no directives. -/
theorem lexemes_tile_source (source : String) (short : source.utf8ByteSize < UInt32.size) :
    let lexemes := (Piece.listOfText source).filter Piece.isLexeme
    let tokens := lexemes.filterMap Piece.token?
    Text.Tiled [] (lexemes.map Piece.spanned) source.toList ∧
      (∀ lexeme ∈ lexemes, lexeme.span.start < lexeme.span.stop ∧
        lexeme.span.stop.toNat ≤ source.utf8ByteSize) ∧
      (lexemes.Pairwise fun earlier later => earlier.span.stop ≤ later.span.start) ∧
      (∀ token ∈ tokens, ∃ before after,
        source.toList = before ++ token.text.toList ++ after ∧ token.StandsAfter before) ∧
      ∀ symbols, (((TokenStream.ofText source symbols).drain []).1.Sublist tokens) ∧
        ((∀ lexeme ∈ lexemes, lexeme.directive? = none) →
          Text.Tiled [] (((TokenStream.ofText source symbols).drain []).1.map Token.spanned)
            source.toList) := by
  intro lexemes tokens
  have tokensEq : tokens = (Piece.listOfText source).filterMap Piece.token? :=
    Piece.filterMap_token?_filter_isLexeme _
  have tiled : Text.Tiled [] (lexemes.map Piece.spanned) source.toList := by
    apply Piece.tiled_listFrom
    rwa [List.nil_append, Text.byteLength_toList]
  refine ⟨tiled, ?_, ?_, ?_, fun symbols => ?_⟩
  · intro lexeme member
    obtain ⟨-, notEmpty, inside⟩ := tiled.inside _ (List.mem_map_of_mem member)
    rw [List.nil_append, Text.byteLength_toList] at inside
    exact ⟨notEmpty, inside⟩
  · exact List.pairwise_map.1 tiled.pairwise
  · intro token member
    apply Token.exists_standsAfter short
    rwa [← tokensEq]
  · obtain ⟨drained, -, -⟩ := TokenStream.drain_ofText source symbols
    rw [Preprocessed.ofText, Preprocessed.ofPieces_eq] at drained
    simp only at drained
    rw [drained]
    constructor
    · rw [tokensEq]
      exact Conditions.visibleTokens_sublist _ _
    · intro noDirectives
      have nowhere : ∀ piece ∈ Piece.listOfText source, piece.directive? = none := by
        intro piece member
        cases isDirective : piece.directive? with
        | none => rfl
        | some directive =>
            have isLexeme : piece.isLexeme = true := by simp [Piece.isLexeme, isDirective]
            rw [← isDirective]
            exact noDirectives piece (List.mem_filter.2 ⟨member, isLexeme⟩)
      rw [Conditions.visibleTokens_of_no_directives rfl nowhere,
        Token.map_spanned_filterMap_token? nowhere]
      exact tiled

/-- A string over two lines, a block comment with `//` inside, and one that is left open. -/
theorem lexemes_tile_source_around_comments :
    let source := "é /* // */ 'b''\n' // c\r\n::/* d"
    let shown := ((TokenStream.ofText source .empty).drain []).1
    source.utf8ByteSize < UInt32.size ∧
      (∀ lexeme ∈ (Piece.listOfText source).filter Piece.isLexeme,
        lexeme.directive? = none) ∧
      shown.map Token.text = ["é", "'b''\n'", "::"] ∧
      shown.map Token.span = [⟨0, 2⟩, ⟨12, 18⟩, ⟨25, 27⟩] ∧
      shown.map Token.position = [⟨0, 0⟩, ⟨0, 11⟩, ⟨2, 0⟩] ∧
      Text.Tiled [] (shown.map Token.spanned) source.toList := by
  intro source shown
  have short : source.utf8ByteSize < UInt32.size := by decide +kernel
  have noDirectives : ∀ lexeme ∈ (Piece.listOfText source).filter Piece.isLexeme,
      lexeme.directive? = none := by decide +kernel
  obtain ⟨-, -, -, -, runs⟩ := lexemes_tile_source source short
  refine ⟨short, noDirectives, ?_, ?_, ?_, (runs .empty).2 noDirectives⟩
  · decide +kernel
  · decide +kernel
  · decide +kernel

end ObjectIds
