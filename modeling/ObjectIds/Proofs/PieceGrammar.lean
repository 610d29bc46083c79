import Mathlib.Data.List.TakeWhile
import ObjectIds.Piece
import ObjectIds.Proofs.DelimitedRuns

/-!
# The grammar of pieces

Cutting a text looks ahead by as much as a piece needs, but where a piece ends depends
only on its own characters and on the one character after it.  `Piece.Fits` says which
characters form a piece of each shape before which next character, and a text is cut
after its first piece exactly when that piece fits before the rest.
-/

namespace ObjectIds

namespace Piece

/-- A run of characters that satisfy a test cannot go on with `next`. -/
def Stops (test : Char → Bool) : Option Char → Prop
  | none => True
  | some character => test character = false

@[simp]
theorem stops_none (test : Char → Bool) : Stops test none := trivial

@[simp]
theorem stops_some (test : Char → Bool) (character : Char) :
    Stops test (some character) ↔ test character = false := Iff.rfl

theorem stops_iff {test : Char → Bool} {next : Option Char} :
    Stops test next ↔ ∀ character ∈ next, test character = false := by
  cases next <;> simp

/-- The texts of the pieces of each shape, before the character `next` or before the
end of the source. -/
inductive Fits : Shape → List Char → Option Char → Prop
  | spacing {first : Char} {others : List Char} {next : Option Char}
      (blank : ∀ character ∈ first :: others, Text.isSpacing character = true)
      (stops : Stops Text.isSpacing next) :
      Fits .spacing (first :: others) next
  | lineComment {body : List Char} {next : Option Char}
      (inLine : ∀ character ∈ body, Text.isLineBreak character = false)
      (stops : Stops (!Text.isLineBreak ·) next) :
      Fits .lineComment ('/' :: '/' :: body) next
  | closedComment {body : List Char} {next : Option Char}
      (inside : ¬['*', '/'] <:+: body ++ ['*']) :
      Fits (.blockComment true) ('/' :: '*' :: (body ++ ['*', '/'])) next
  | openComment {body : List Char} (inside : ¬['*', '/'] <:+: body) :
      Fits (.blockComment false) ('/' :: '*' :: body) none
  | directive {body : List Char} {next : Option Char}
      (inLine : ∀ character ∈ body, Text.isLineBreak character = false)
      (stops : Stops (!Text.isLineBreak ·) next) :
      Fits .directive ('#' :: body) next
  | integer {first : Char} {others : List Char} {next : Option Char}
      (digits : ∀ character ∈ first :: others, character.isDigit = true)
      (stops : Stops Char.isDigit next) (noPoint : next ≠ some '.') :
      Fits (.token .number true) (first :: others) next
  | decimal {first : Char} {others fraction : List Char} {next : Option Char}
      (digits : ∀ character ∈ first :: others, character.isDigit = true)
      (fractionDigits : ∀ character ∈ fraction, character.isDigit = true)
      (stops : Stops Char.isDigit next) :
      Fits (.token .number true) (first :: (others ++ '.' :: fraction)) next
  | closedQuote {kind : Token.Kind} {delimiter : Char} {value : List Char}
      {next : Option Char} (delimits : kind.delimiter? = some delimiter)
      (alone : next ≠ some delimiter) :
      Fits (.token kind true)
        (delimiter :: (Text.quote delimiter value ++ [delimiter])) next
  | openQuote {kind : Token.Kind} {delimiter : Char} {value : List Char}
      (delimits : kind.delimiter? = some delimiter) :
      Fits (.token kind false) (delimiter :: Text.quote delimiter value) none
  | punctuation {mark : Char} {next : Option Char} (isMark : mark ∈ punctuation) :
      Fits (.token .symbol true) [mark] next
  | operator {mark : Char} {next : Option Char} (isMark : mark ∈ operators)
      (noEquals : next ≠ some '=') (noColon : mark = ':' → next ≠ some ':')
      (noComment : mark = '/' → next ≠ some '/' ∧ next ≠ some '*') :
      Fits (.token .symbol true) [mark] next
  | compound {mark second : Char} {next : Option Char} (isMark : mark ∈ operators)
      (joins : second = '=' ∨ mark = ':' ∧ second = ':') :
      Fits (.token .symbol true) [mark, second] next
  | word {first : Char} {others : List Char} {next : Option Char}
      (noDigit : first.isDigit = false)
      (inside : ∀ character ∈ first :: others, endsWord character = false)
      (stops : Stops (!endsWord ·) next) :
      Fits (.token .word true) (first :: others) next

theorem isSpacing_of_isDigit {character : Char} (digit : character.isDigit = true) :
    Text.isSpacing character = false := by
  have bounds : 48 ≤ character.toNat ∧ character.toNat ≤ 57 := by
    simpa [Char.isDigit, UInt32.le_iff_toNat_le] using digit
  have notMark : character ≠ Text.byteOrderMark := by
    rintro rfl
    exact absurd bounds.2 (by decide)
  have notBlank : Text.isBlank character = false := by
    simp [Text.isBlank, Text.blankRanges]
    omega
  simp [Text.isSpacing, notBlank, notMark]

theorem ne_of_isDigit {character other : Char} (digit : character.isDigit = true)
    (noDigit : other.isDigit = false) : character ≠ other := by
  rintro rfl
  simp [noDigit] at digit

/-- A mark starts none of the pieces that are tried before symbols. -/
theorem mark_starts_symbol {mark : Char} (isMark : mark ∈ operators ∨ mark ∈ punctuation) :
    Text.isSpacing mark = false ∧ mark ≠ '#' ∧ mark.isDigit = false ∧ mark ≠ '"' ∧
      mark ≠ '\'' := by
  have marks : (operators ++ punctuation).all fun mark => decide (Text.isSpacing mark = false ∧
      mark ≠ '#' ∧ mark.isDigit = false ∧ mark ≠ '"' ∧ mark ≠ '\'') := by decide
  exact of_decide_eq_true (List.all_eq_true.1 marks mark (List.mem_append.2 isMark))

theorem endsWord_eq_false_iff {character : Char} :
    endsWord character = false ↔
      Text.isSpacing character = false ∧ character ∉ punctuation ∧
        character ∉ operators ∧ character ≠ '#' ∧ character ≠ '"' ∧
          character ≠ '\'' := by
  simp [endsWord, and_assoc]

theorem stops_head?_dropWhile (test : Char → Bool) (text : List Char) :
    Stops test (text.dropWhile test).head? := by
  have head := List.head?_dropWhile_not test text
  cases next : (text.dropWhile test).head? with
  | none => trivial
  | some character => simpa [next] using head

theorem takeWhile_append_of_stops {test : Char → Bool} {run rest : List Char}
    (inside : ∀ character ∈ run, test character = true) (stops : Stops test rest.head?) :
    (run ++ rest).takeWhile test = run := by
  rw [List.takeWhile_append_of_pos inside]
  cases rest with
  | nil => simp
  | cons next rest =>
      rw [List.head?_cons, stops_some] at stops
      simp [stops]

theorem dropWhile_append_of_stops {test : Char → Bool} {run rest : List Char}
    (inside : ∀ character ∈ run, test character = true) (stops : Stops test rest.head?) :
    (run ++ rest).dropWhile test = rest := by
  rw [List.dropWhile_append_of_pos inside]
  cases rest with
  | nil => simp
  | cons next rest =>
      rw [List.head?_cons, stops_some] at stops
      simp [stops]

theorem forall_mem_cons_takeWhile {test : Char → Bool} {first : Char} (rest : List Char)
    (holds : test first = true) :
    ∀ character ∈ first :: rest.takeWhile test, test character = true := by
  intro character member
  rcases List.mem_cons.1 member with rfl | later
  · exact holds
  · exact List.mem_takeWhile_imp later

namespace Cut

theorem extend_of_stops (shape : Shape) (start : List Char) {test : Char → Bool}
    {run rest : List Char} (inside : ∀ character ∈ run, test character = true)
    (stops : Stops test rest.head?) :
    extend shape start test (run ++ rest) = ⟨shape, start ++ run, rest⟩ := by
  rw [extend, takeWhile_append_of_stops inside stops, dropWhile_append_of_stops inside stops]

theorem fits_extend_word {first : Char} {rest : List Char} (noDigit : first.isDigit = false)
    (inside : endsWord first = false) :
    let cut := extend (.token .word true) [first] (!endsWord ·) rest
    Fits cut.shape cut.text cut.rest.head? := by
  refine Fits.word noDigit ?_ (stops_head?_dropWhile _ rest)
  simpa using @forall_mem_cons_takeWhile (!endsWord ·) first rest (by simp [inside])

theorem fits_number {first : Char} (rest : List Char) (digit : first.isDigit = true) :
    Fits (number first rest).shape (number first rest).text (number first rest).rest.head? := by
  have digits := forall_mem_cons_takeWhile rest digit
  unfold number
  split
  · rename_i fraction isPoint
    have fractionDigits : ∀ character ∈ fraction.takeWhile Char.isDigit,
        character.isDigit = true := fun _ => List.mem_takeWhile_imp
    have fits := Fits.decimal digits fractionDigits
      (stops_head?_dropWhile Char.isDigit fraction)
    simpa [extend] using fits
  · rename_i noPoint
    refine Fits.integer digits (stops_head?_dropWhile Char.isDigit rest) ?_
    intro isPoint
    obtain ⟨fraction, isRest⟩ := List.head?_eq_some_iff.1 isPoint
    exact noPoint fraction isRest

theorem fits_quoted {kind : Token.Kind} {delimiter : Char} (rest : List Char)
    (delimits : kind.delimiter? = some delimiter) :
    let cut := quoted kind delimiter rest
    Fits cut.shape cut.text cut.rest.head? := by
  obtain ⟨value, rfl | ⟨later, rfl, alone⟩⟩ := Text.exists_quote delimiter rest
  · simpa [quoted, Text.quotedRun_open] using Fits.openQuote delimits
  · simpa [quoted, Text.quotedRun_closed value alone] using Fits.closedQuote delimits alone

theorem fits_operator {first : Char} {rest : List Char} (isMark : first ∈ operators)
    (noComment : first = '/' → rest.head? ≠ some '/' ∧ rest.head? ≠ some '*') :
    let cut := operator first rest
    Fits cut.shape cut.text cut.rest.head? := by
  unfold operator
  split
  · rename_i second others
    split
    · rename_i joins
      exact Fits.compound isMark joins
    · rename_i apart
      refine Fits.operator isMark ?_ ?_ noComment
      · simpa using fun isEquals => apart (Or.inl isEquals)
      · simpa using fun isColon nextColon => apart (Or.inr ⟨isColon, nextColon⟩)
  · exact Fits.operator isMark (by simp) (by simp) (by simp)

/-- A token fits unless its characters start another piece. -/
theorem fits_token {first : Char} {rest : List Char} (noSpacing : Text.isSpacing first = false)
    (noHash : first ≠ '#')
    (noComment : first = '/' → rest.head? ≠ some '/' ∧ rest.head? ≠ some '*') :
    Fits (token first rest).shape (token first rest).text (token first rest).rest.head? := by
  unfold token
  split
  · rename_i digit
    exact fits_number rest digit
  · rename_i noDigit
    split
    · rename_i isQuote
      exact fits_quoted rest (by rw [isQuote]; rfl)
    · rename_i noQuote
      split
      · rename_i isQuote
        exact fits_quoted rest (by rw [isQuote]; rfl)
      · rename_i noSingleQuote
        split
        · rename_i isMark
          exact fits_operator (by simpa using isMark) noComment
        · rename_i noOperator
          split
          · rename_i isMark
            exact Fits.punctuation (by simpa using isMark)
          · rename_i noPunctuation
            refine fits_extend_word (by simpa using noDigit) (endsWord_eq_false_iff.2 ?_)
            exact ⟨noSpacing, by simpa using noPunctuation, by simpa using noOperator,
              noHash, noQuote, noSingleQuote⟩

/-- The first piece of a text fits before what comes after it. -/
theorem fits_first (character : Char) (rest : List Char) :
    Fits (first character rest).shape (first character rest).text
      (first character rest).rest.head? := by
  unfold first
  split
  · rename_i isSpacing
    exact Fits.spacing (forall_mem_cons_takeWhile rest isSpacing)
      (stops_head?_dropWhile _ rest)
  · rename_i noSpacing
    split
    · exact Fits.directive (fun _ member => by simpa using List.mem_takeWhile_imp member)
        (stops_head?_dropWhile _ rest)
    · rename_i noHash
      split
      · rename_i isSlash
        split
        · rename_i comment
          exact Fits.lineComment (fun _ member => by simpa using List.mem_takeWhile_imp member)
            (stops_head?_dropWhile _ comment)
        · rename_i comment
          rcases Text.exists_comment comment with inside | ⟨body, later, rfl, inside⟩
          · simpa [Text.commentRun_open inside] using Fits.openComment inside
          · simpa [Text.commentRun_closed later inside] using Fits.closedComment inside
        · rename_i noLine noBlock
          subst isSlash
          refine fits_token (by decide) (by decide) fun _ => ⟨?_, ?_⟩
          · intro isSlash
            obtain ⟨others, isRest⟩ := List.head?_eq_some_iff.1 isSlash
            exact noLine others isRest
          · intro isStar
            obtain ⟨others, isRest⟩ := List.head?_eq_some_iff.1 isStar
            exact noBlock others isRest
      · rename_i noSlash
        exact fits_token (by simpa using noSpacing) noHash fun isSlash => (noSlash isSlash).elim

theorem number_integer {first : Char} {others rest : List Char}
    (digits : ∀ character ∈ others, character.isDigit = true)
    (stops : Stops Char.isDigit rest.head?) (noPoint : rest.head? ≠ some '.') :
    number first (others ++ rest) = ⟨.token .number true, first :: others, rest⟩ := by
  unfold number
  rw [dropWhile_append_of_stops digits stops]
  split
  · simp at noPoint
  · exact extend_of_stops _ _ digits stops

theorem number_decimal {first : Char} {others fraction rest : List Char}
    (digits : ∀ character ∈ others, character.isDigit = true)
    (fractionDigits : ∀ character ∈ fraction, character.isDigit = true)
    (stops : Stops Char.isDigit rest.head?) :
    number first (others ++ '.' :: (fraction ++ rest)) =
      ⟨.token .number true, first :: (others ++ '.' :: fraction), rest⟩ := by
  have pointStops : Stops Char.isDigit ('.' :: (fraction ++ rest)).head? := by simp
  unfold number
  rw [dropWhile_append_of_stops digits pointStops,
    takeWhile_append_of_stops digits pointStops]
  simp [extend_of_stops _ _ fractionDigits stops]

/-- A character that starts no spacing, directive or comment starts a token. -/
theorem first_eq_token {character : Char} {rest : List Char}
    (noSpacing : Text.isSpacing character = false) (noHash : character ≠ '#')
    (noComment : character = '/' → rest.head? ≠ some '/' ∧ rest.head? ≠ some '*') :
    first character rest = token character rest := by
  unfold first
  rw [if_neg (by simp [noSpacing]), if_neg noHash]
  split
  · rename_i isSlash
    have noSecond := noComment isSlash
    subst isSlash
    split
    · simp at noSecond
    · simp at noSecond
    · rfl
  · rfl

theorem first_digit {character : Char} (rest : List Char) (digit : character.isDigit = true) :
    first character rest = number character rest := by
  have noSlash : character ≠ '/' := ne_of_isDigit digit (by decide)
  rw [first_eq_token (isSpacing_of_isDigit digit) (ne_of_isDigit digit (by decide))
    (fun isSlash => (noSlash isSlash).elim), token, if_pos digit]

theorem first_quote {kind : Token.Kind} {delimiter : Char} (rest : List Char)
    (delimits : kind.delimiter? = some delimiter) :
    first delimiter rest = quoted kind delimiter rest := by
  cases kind with
  | string => cases delimits; rfl
  | quotedIdentifier => cases delimits; rfl
  | word => cases delimits
  | number => cases delimits
  | symbol => cases delimits

theorem first_operator {mark : Char} {rest : List Char} (isMark : mark ∈ operators)
    (noComment : mark = '/' → rest.head? ≠ some '/' ∧ rest.head? ≠ some '*') :
    first mark rest = operator mark rest := by
  obtain ⟨noSpacing, noHash, noDigit, noQuote, noSingleQuote⟩ :=
    mark_starts_symbol (Or.inl isMark)
  rw [first_eq_token noSpacing noHash noComment, token, if_neg (by simp [noDigit]),
    if_neg noQuote, if_neg noSingleQuote, if_pos (by simpa using isMark)]

theorem first_punctuation {mark : Char} (rest : List Char) (isMark : mark ∈ punctuation) :
    first mark rest = ⟨.token .symbol true, [mark], rest⟩ := by
  obtain ⟨noSpacing, noHash, noDigit, noQuote, noSingleQuote⟩ :=
    mark_starts_symbol (Or.inr isMark)
  have noOperator : mark ∉ operators := by
    have apart : punctuation.all fun mark => decide (mark ∉ operators) := by decide
    exact of_decide_eq_true (List.all_eq_true.1 apart mark isMark)
  have noSlash : mark ≠ '/' := by
    rintro rfl
    exact noOperator (by decide)
  rw [first_eq_token noSpacing noHash (fun isSlash => (noSlash isSlash).elim), token,
    if_neg (by simp [noDigit]), if_neg noQuote, if_neg noSingleQuote,
    if_neg (by simpa using noOperator), if_pos (by simpa using isMark)]

theorem first_word {character : Char} (rest : List Char)
    (noDigit : character.isDigit = false) (inside : endsWord character = false) :
    first character rest = extend (.token .word true) [character] (!endsWord ·) rest := by
  obtain ⟨noSpacing, noPunctuation, noOperator, noHash, noQuote, noSingleQuote⟩ :=
    endsWord_eq_false_iff.1 inside
  have noSlash : character ≠ '/' := by
    rintro rfl
    exact noOperator (by decide)
  rw [first_eq_token noSpacing noHash (fun isSlash => (noSlash isSlash).elim), token,
    if_neg (by simp [noDigit]), if_neg noQuote, if_neg noSingleQuote,
    if_neg (by simpa using noOperator), if_neg (by simpa using noPunctuation)]

theorem operator_alone {mark : Char} {rest : List Char} (noEquals : rest.head? ≠ some '=')
    (noColon : mark = ':' → rest.head? ≠ some ':') :
    operator mark rest = ⟨.token .symbol true, [mark], rest⟩ := by
  cases rest with
  | nil => rfl
  | cons next rest =>
      have apart : ¬(next = '=' ∨ mark = ':' ∧ next = ':') := by
        rintro (rfl | ⟨isColon, rfl⟩)
        · simp at noEquals
        · exact noColon isColon rfl
      simp only [operator, if_neg apart]

theorem first_blockComment (comment : List Char) :
    first '/' ('*' :: comment) =
      ⟨.blockComment (Text.commentRun comment).closed,
        '/' :: '*' :: (Text.commentRun comment).text, (Text.commentRun comment).rest⟩ := rfl

/-- A text that fits before a rest is the first piece of the two together. -/
theorem first_of_fits {shape : Shape} {character : Char} {others rest : List Char}
    (fits : Fits shape (character :: others) rest.head?) :
    first character (others ++ rest) = ⟨shape, character :: others, rest⟩ := by
  generalize isNext : rest.head? = next at fits
  cases fits with
  | spacing blank stops =>
      obtain ⟨firstBlank, othersBlank⟩ := List.forall_mem_cons.1 blank
      unfold first
      rw [if_pos firstBlank]
      exact extend_of_stops _ _ othersBlank (isNext ▸ stops)
  | lineComment inLine stops =>
      exact extend_of_stops _ _ (by simpa using inLine) (isNext ▸ stops)
  | closedComment inside =>
      rename_i body
      have run := Text.commentRun_closed rest inside
      simp [first_blockComment, run]
  | openComment inside =>
      obtain rfl := List.head?_eq_none_iff.1 isNext
      have run := Text.commentRun_open inside
      simp [first_blockComment, run]
  | directive inLine stops =>
      exact extend_of_stops _ _ (by simpa using inLine) (isNext ▸ stops)
  | integer digits stops noPoint =>
      obtain ⟨digit, otherDigits⟩ := List.forall_mem_cons.1 digits
      rw [first_digit _ digit,
        number_integer otherDigits (isNext ▸ stops) (isNext ▸ noPoint)]
  | decimal digits fractionDigits stops =>
      obtain ⟨digit, otherDigits⟩ := List.forall_mem_cons.1 digits
      rw [first_digit _ digit, List.append_assoc, List.cons_append,
        number_decimal otherDigits fractionDigits (isNext ▸ stops)]
  | closedQuote delimits alone =>
      rename_i kind value
      have run := Text.quotedRun_closed value (isNext ▸ alone : rest.head? ≠ some character)
      rw [first_quote _ delimits]
      simp [quoted, run]
  | openQuote delimits =>
      obtain rfl := List.head?_eq_none_iff.1 isNext
      rw [first_quote _ delimits]
      simp [quoted, Text.quotedRun_open]
  | punctuation isMark => exact first_punctuation _ isMark
  | operator isMark noEquals noColon noComment =>
      subst isNext
      rw [List.nil_append, first_operator isMark noComment]
      exact operator_alone noEquals noColon
  | compound isMark joins =>
      rename_i second
      have noComment : character = '/' →
          (second :: rest).head? ≠ some '/' ∧ (second :: rest).head? ≠ some '*' := by
        rintro rfl
        rcases joins with rfl | ⟨isColon, _⟩
        · simp
        · simp at isColon
      rw [List.singleton_append, first_operator isMark noComment]
      simp only [operator, if_pos joins]
  | word noDigit inside stops =>
      obtain ⟨firstInside, othersInside⟩ := List.forall_mem_cons.1 inside
      rw [first_word _ noDigit firstInside]
      exact extend_of_stops _ _ (by simpa using othersInside) (isNext ▸ stops)

end Cut

theorem Fits.ne_nil {shape : Shape} {text : List Char} {next : Option Char}
    (fits : Fits shape text next) : text ≠ [] := by
  cases fits <;> simp

/-- Whether a piece of this shape ends where its text says, and not where the source
ends. -/
def Shape.isClosed : Shape → Bool
  | .blockComment closed | .token _ closed => closed
  | .spacing | .lineComment | .directive => true

theorem endsWord_of_isSpacing {character : Char}
    (blank : Text.isSpacing character = true) : endsWord character = true := by
  simp [endsWord, blank]

theorem isDigit_of_isSpacing {character : Char}
    (blank : Text.isSpacing character = true) : character.isDigit = false := by
  cases digit : character.isDigit with
  | false => rfl
  | true =>
      rw [isSpacing_of_isDigit digit] at blank
      contradiction

theorem ne_of_isSpacing {character other : Char}
    (blank : Text.isSpacing character = true) (noSpacing : Text.isSpacing other = false) :
    character ≠ other := by
  rintro rfl
  simp [noSpacing] at blank

/-- A piece that ends before some character also ends where the source ends. -/
theorem Fits.at_end {shape : Shape} {text : List Char} {next : Option Char}
    (fits : Fits shape text next) : Fits shape text none := by
  cases fits with
  | spacing blank stops => exact .spacing blank trivial
  | lineComment inLine stops => exact .lineComment inLine trivial
  | closedComment inside => exact .closedComment inside
  | openComment inside => exact .openComment inside
  | directive inLine stops => exact .directive inLine trivial
  | integer digits stops noPoint => exact .integer digits trivial (by simp)
  | decimal digits fractionDigits stops => exact .decimal digits fractionDigits trivial
  | closedQuote delimits alone => exact .closedQuote delimits (by simp)
  | openQuote delimits => exact .openQuote delimits
  | punctuation isMark => exact .punctuation isMark
  | operator isMark noEquals noColon noComment =>
      exact .operator isMark (by simp) (by simp) (by simp)
  | compound isMark joins => exact .compound isMark joins
  | word noDigit inside stops => exact .word noDigit inside trivial

/-- A closed token also ends before a blank character. -/
theorem Fits.token_before_spacing {kind : Token.Kind} {text : List Char}
    {next : Option Char} {character : Char} (fits : Fits (.token kind true) text next)
    (blank : Text.isSpacing character = true) :
    Fits (.token kind true) text (some character) := by
  have apart {other : Char} (noSpacing : Text.isSpacing other = false) :
      some character ≠ some other := by
    simpa using ne_of_isSpacing blank noSpacing
  cases fits with
  | integer digits stops noPoint =>
      exact .integer digits (isDigit_of_isSpacing blank) (apart (by decide))
  | decimal digits fractionDigits stops =>
      exact .decimal digits fractionDigits (isDigit_of_isSpacing blank)
  | closedQuote delimits alone =>
      refine .closedQuote delimits (apart ?_)
      cases kind <;> cases delimits <;> decide
  | punctuation isMark => exact .punctuation isMark
  | operator isMark noEquals noColon noComment =>
      exact .operator isMark (apart (by decide)) (fun _ => apart (by decide))
        fun _ => ⟨apart (by decide), apart (by decide)⟩
  | compound isMark joins => exact .compound isMark joins
  | word noDigit inside stops =>
      exact .word noDigit inside (by simp [endsWord_of_isSpacing blank])

/-- A closed piece other than spacing also ends before a newline. -/
theorem Fits.before_newline {shape : Shape} {text : List Char} {next : Option Char}
    (fits : Fits shape text next) (closed : shape.isClosed = true)
    (noSpacing : shape ≠ .spacing) : Fits shape text (some '\n') := by
  cases shape with
  | spacing => contradiction
  | lineComment =>
      cases fits with
      | lineComment inLine stops => exact .lineComment inLine (by simp [Text.isLineBreak])
  | blockComment _ =>
      cases fits with
      | closedComment inside => exact .closedComment inside
      | openComment inside => contradiction
  | directive =>
      cases fits with
      | directive inLine stops => exact .directive inLine (by simp [Text.isLineBreak])
  | token kind tokenClosed =>
      obtain rfl : tokenClosed = true := closed
      exact fits.token_before_spacing (by decide)

end Piece

end ObjectIds
