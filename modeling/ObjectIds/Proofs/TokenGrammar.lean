import ObjectIds.Proofs.LexemeLocations

/-!
# The grammar of tokens

`Token.Matches` says which characters are a token of each class before which next
character.  Pieces are cut where these tokens are, unless a comment starts there.  What is
cut is also a longest match: whatever else would be a token if the source ended after it,
and starts where the token starts, does not go on beyond it.
-/

namespace ObjectIds

namespace Text

/-- What may stand between two delimiters: characters other than the delimiter, and
delimiters in pairs. -/
inductive Undelimited (delimiter : Char) : List Char → Prop
  | nil : Undelimited delimiter []
  | other {character : Char} {rest : List Char} (different : character ≠ delimiter)
      (later : Undelimited delimiter rest) : Undelimited delimiter (character :: rest)
  | doubled {rest : List Char} (later : Undelimited delimiter rest) :
      Undelimited delimiter (delimiter :: delimiter :: rest)

/-- Whether a text starts with a comment. -/
def StartsComment (text : List Char) : Prop :=
  ['/', '/'] <+: text ∨ ['/', '*'] <+: text

theorem undelimited_quote (delimiter : Char) (value : List Char) :
    Undelimited delimiter (quote delimiter value) := by
  induction value with
  | nil => exact .nil
  | cons character value ih =>
      by_cases same : character = delimiter
      · rw [same, quote_cons_self]
        exact .doubled ih
      · rw [quote_cons_of_ne same]
        exact .other same ih

theorem Undelimited.exists_quote {delimiter : Char} {text : List Char}
    (undelimited : Undelimited delimiter text) : ∃ value, text = quote delimiter value := by
  induction undelimited with
  | nil => exact ⟨[], rfl⟩
  | @other character rest different later ih =>
      obtain ⟨value, rfl⟩ := ih
      exact ⟨character :: value, (quote_cons_of_ne different value).symm⟩
  | doubled later ih =>
      obtain ⟨value, rfl⟩ := ih
      exact ⟨delimiter :: value, (quote_cons_self delimiter value).symm⟩

theorem startsComment_cons {first : Char} {rest : List Char} :
    StartsComment (first :: rest) ↔
      first = '/' ∧ (rest.head? = some '/' ∨ rest.head? = some '*') := by
  cases rest with
  | nil => simp [StartsComment, List.cons_prefix_cons]
  | cons second rest =>
      simp only [StartsComment, List.cons_prefix_cons, List.nil_prefix, List.head?_cons,
        Option.some.injEq]
      grind

theorem StartsComment.mono {text longer : List Char} (starts : StartsComment text)
    (isPrefix : text <+: longer) : StartsComment longer :=
  starts.imp (·.trans isPrefix) (·.trans isPrefix)

theorem not_startsComment_of_ne {first : Char} {rest : List Char} (noSlash : first ≠ '/') :
    ¬StartsComment (first :: rest) := fun starts => noSlash (startsComment_cons.1 starts).1

/-- A quoted run never gives back what it has found. -/
theorem prefix_quotedRunAfter (delimiter : Char) (found text : List Char) :
    found.reverse <+: (quotedRunAfter delimiter found text).text := by
  fun_induction quotedRunAfter delimiter found text with
  | case1 found => exact List.prefix_rfl
  | case2 found character =>
      rw [List.reverse_cons]
      exact List.prefix_append _ _
  | case3 found rest ih =>
      rw [List.reverse_cons, List.reverse_cons, List.append_assoc] at ih
      exact (List.prefix_append _ _).trans ih
  | case4 found next rest alone =>
      rw [List.reverse_cons]
      exact List.prefix_append _ _
  | case5 found character next rest different ih =>
      rw [List.reverse_cons] at ih
      exact (List.prefix_append _ _).trans ih

/-- A quoted text that can be read from after a delimiter is part of the run from there. -/
theorem quote_prefix_quotedRun (delimiter : Char) (value rest : List Char) :
    quote delimiter value <+: (quotedRun delimiter (quote delimiter value ++ rest)).text := by
  rw [quotedRun, quotedRunAfter_quote_append]
  have kept := prefix_quotedRunAfter delimiter ((quote delimiter value).reverse ++ []) rest
  simpa using kept

/-- A delimiter after such a text is in the run too, as its end or as the first of two. -/
theorem quote_delimiter_prefix_quotedRun (delimiter : Char) (value rest : List Char) :
    quote delimiter value ++ [delimiter] <+:
      (quotedRun delimiter (quote delimiter value ++ [delimiter] ++ rest)).text := by
  by_cases doubled : rest.head? = some delimiter
  · obtain ⟨later, rfl⟩ := List.head?_eq_some_iff.1 doubled
    have isQuote : quote delimiter (value ++ [delimiter]) =
        quote delimiter value ++ [delimiter] ++ [delimiter] := by simp [quote]
    have isText : quote delimiter value ++ [delimiter] ++ delimiter :: later =
        quote delimiter (value ++ [delimiter]) ++ later := by simp [isQuote]
    rw [isText]
    refine List.IsPrefix.trans ?_ (quote_prefix_quotedRun delimiter _ later)
    rw [isQuote]
    exact List.prefix_append _ _
  · refine ⟨[], ?_⟩
    rw [List.append_nil, List.append_assoc, List.singleton_append, quotedRun_closed value doubled]

end Text

namespace Token

/-- The marks that end a word. -/
def wordMarks : List Char := "{}[]();.,=:+-*/<>#\"'".toList

/-- The texts of the tokens of each class, before the character `next` or before the end of
the source. -/
inductive Matches : Kind → List Char → Option Char → Prop
  | integer {digits : List Char} {next : Option Char} (notEmpty : digits ≠ [])
      (isNumeral : ∀ character ∈ digits, character.isDigit = true)
      (noDigit : ∀ character ∈ next, character.isDigit = false)
      (noPoint : next ≠ some '.') :
      Matches .number digits next
  | decimal {digits fraction : List Char} {next : Option Char} (notEmpty : digits ≠ [])
      (isNumeral : ∀ character ∈ digits ++ fraction, character.isDigit = true)
      (noDigit : ∀ character ∈ next, character.isDigit = false) :
      Matches .number (digits ++ '.' :: fraction) next
  | closedQuote {kind : Kind} {delimiter : Char} {body : List Char} {next : Option Char}
      (delimits : kind.delimiter? = some delimiter) (inside : Text.Undelimited delimiter body)
      (alone : next ≠ some delimiter) :
      Matches kind (delimiter :: (body ++ [delimiter])) next
  | openQuote {kind : Kind} {delimiter : Char} {body : List Char}
      (delimits : kind.delimiter? = some delimiter) (inside : Text.Undelimited delimiter body) :
      Matches kind (delimiter :: body) none
  | punctuation {mark : Char} {next : Option Char} (isMark : mark ∈ "{}[]();.,=".toList) :
      Matches .symbol [mark] next
  | operator {mark : Char} {next : Option Char} (isMark : mark ∈ ":+-*/<>".toList)
      (noEquals : next ≠ some '=') (noColon : mark = ':' → next ≠ some ':') :
      Matches .symbol [mark] next
  | doubleColon {next : Option Char} : Matches .symbol [':', ':'] next
  | withEquals {mark : Char} {next : Option Char} (isMark : mark ∈ ":+-*/<>".toList) :
      Matches .symbol [mark, '='] next
  | word {text : List Char} {next : Option Char} (notEmpty : text ≠ [])
      (inside : ∀ character ∈ text, Text.isSpacing character = false ∧ character ∉ wordMarks)
      (noDigit : ∀ character ∈ text.head?, character.isDigit = false)
      (stops : ∀ character ∈ next, Text.isSpacing character = true ∨ character ∈ wordMarks) :
      Matches .word text next

/-- A token that is a longest match where it stands, before the text `after`. -/
structure LongestBefore (after : List Char) (token : Token) : Prop where
  fits : Matches token.kind token.text.toList after.head?
  no_directive : token.text.toList.head? ≠ some '#'
  no_comment : ¬Text.StartsComment (token.text.toList ++ after)
  longest : ∀ kind other, Matches kind other none →
    other <+: token.text.toList ++ after → other <+: token.text.toList

end Token

namespace Piece

theorem endsWord_eq_false_iff_marks {character : Char} :
    endsWord character = false ↔
      Text.isSpacing character = false ∧ character ∉ Token.wordMarks := by
  have marks : Token.wordMarks = punctuation ++ (operators ++ ['#', '"', '\'']) := by decide
  rw [endsWord_eq_false_iff, marks]
  simp

theorem endsWord_eq_true_iff_marks {character : Char} :
    endsWord character = true ↔
      Text.isSpacing character = true ∨ character ∈ Token.wordMarks := by
  rw [← Bool.not_eq_false, endsWord_eq_false_iff_marks]
  grind

namespace Cut

theorem prefix_extend {shape : Shape} {start run rest : List Char} {test : Char → Bool}
    (inside : ∀ character ∈ run, test character = true) :
    start ++ run <+: (extend shape start test (run ++ rest)).text := by
  rw [extend, List.takeWhile_append_of_pos inside, ← List.append_assoc]
  exact List.prefix_append _ _

theorem prefix_number {first : Char} {digits : List Char} (rest : List Char)
    (isNumeral : ∀ character ∈ digits, character.isDigit = true) :
    first :: digits <+: (number first (digits ++ rest)).text := by
  unfold number
  split
  · rw [extend, List.takeWhile_append_of_pos isNumeral, List.append_assoc]
    refine List.IsPrefix.trans ?_ (List.prefix_append _ _)
    rw [← List.cons_append]
    exact List.prefix_append _ _
  · exact @prefix_extend _ [first] digits rest _ isNumeral

theorem prefix_number_point {first : Char} {digits fraction : List Char} (rest : List Char)
    (isNumeral : ∀ character ∈ digits, character.isDigit = true)
    (fractionDigits : ∀ character ∈ fraction, character.isDigit = true) :
    first :: (digits ++ '.' :: fraction) <+:
      (number first (digits ++ '.' :: (fraction ++ rest))).text := by
  have pointStops : Stops Char.isDigit ('.' :: (fraction ++ rest)).head? := by simp
  unfold number
  rw [dropWhile_append_of_stops isNumeral pointStops,
    takeWhile_append_of_stops isNumeral pointStops]
  have kept := @prefix_extend (.token .number true) (first :: digits ++ ['.']) fraction rest _
    fractionDigits
  simpa using kept

end Cut

section Fits

variable {kind : Token.Kind} {closed : Bool} {text : List Char} {next : Option Char}

theorem matches_of_fits (fits : Fits (.token kind closed) text next) :
    Token.Matches kind text next := by
  cases fits with
  | integer digits stops noPoint =>
      exact .integer (List.cons_ne_nil _ _) digits (stops_iff.1 stops) noPoint
  | @decimal first others fraction _ digits fractionDigits stops =>
      rw [← List.cons_append]
      refine .decimal (List.cons_ne_nil _ _) ?_ (stops_iff.1 stops)
      exact List.forall_mem_append.2 ⟨digits, fractionDigits⟩
  | closedQuote delimits alone =>
      exact .closedQuote delimits (Text.undelimited_quote _ _) alone
  | openQuote delimits => exact .openQuote delimits (Text.undelimited_quote _ _)
  | punctuation isMark => exact .punctuation isMark
  | operator isMark noEquals noColon noComment => exact .operator isMark noEquals noColon
  | compound isMark joins =>
      rcases joins with rfl | ⟨rfl, rfl⟩
      · exact .withEquals isMark
      · exact .doubleColon
  | word noDigit inside stops =>
      refine .word (List.cons_ne_nil _ _) ?_ ?_ ?_
      · exact fun character member => endsWord_eq_false_iff_marks.1 (inside character member)
      · simpa using noDigit
      · intro character isNext
        apply endsWord_eq_true_iff_marks.1
        simpa using stops_iff.1 stops character isNext

/-- Where a token is cut no comment starts. -/
theorem not_startsComment_of_fits {rest : List Char}
    (fits : Fits (.token kind closed) text rest.head?) : ¬Text.StartsComment (text ++ rest) := by
  generalize isNext : rest.head? = next at fits
  cases fits with
  | integer digits stops noPoint =>
      exact Text.not_startsComment_of_ne
        (ne_of_isDigit (digits _ List.mem_cons_self) (by decide))
  | decimal digits fractionDigits stops =>
      exact Text.not_startsComment_of_ne
        (ne_of_isDigit (digits _ List.mem_cons_self) (by decide))
  | closedQuote delimits alone =>
      apply Text.not_startsComment_of_ne
      cases kind <;> cases delimits <;> decide
  | openQuote delimits =>
      apply Text.not_startsComment_of_ne
      cases kind <;> cases delimits <;> decide
  | punctuation isMark =>
      apply Text.not_startsComment_of_ne
      rintro rfl
      exact absurd isMark (by decide)
  | operator isMark noEquals noColon noComment =>
      rw [List.singleton_append, Text.startsComment_cons, isNext]
      rintro ⟨isSlash, isLine | isBlock⟩
      · exact (noComment isSlash).1 isLine
      · exact (noComment isSlash).2 isBlock
  | compound isMark joins =>
      intro starts
      obtain ⟨rfl, isSecond⟩ := Text.startsComment_cons.1 starts
      rcases joins with rfl | ⟨isColon, -⟩
      · simp at isSecond
      · simp at isColon
  | word noDigit inside stops =>
      apply Text.not_startsComment_of_ne
      rintro rfl
      exact absurd (inside _ List.mem_cons_self) (by decide)

/-- A token of the grammar is cut where it stands, unless a comment starts there. -/
theorem exists_fits_of_matches {rest : List Char}
    (fits : Token.Matches kind text rest.head?)
    (noComment : ¬Text.StartsComment (text ++ rest)) :
    ∃ closed, Fits (.token kind closed) text rest.head? := by
  generalize isNext : rest.head? = next at fits
  cases fits with
  | integer notEmpty isNumeral noDigit noPoint =>
      obtain ⟨first, others, rfl⟩ := List.exists_cons_of_ne_nil notEmpty
      exact ⟨true, .integer isNumeral (stops_iff.2 noDigit) noPoint⟩
  | decimal notEmpty isNumeral noDigit =>
      obtain ⟨first, others, rfl⟩ := List.exists_cons_of_ne_nil notEmpty
      obtain ⟨digits, fractionDigits⟩ := List.forall_mem_append.1 isNumeral
      exact ⟨true, .decimal digits fractionDigits (stops_iff.2 noDigit)⟩
  | closedQuote delimits inside alone =>
      obtain ⟨value, rfl⟩ := inside.exists_quote
      exact ⟨true, .closedQuote delimits alone⟩
  | openQuote delimits inside =>
      obtain ⟨value, rfl⟩ := inside.exists_quote
      exact ⟨false, .openQuote delimits⟩
  | punctuation isMark => exact ⟨true, .punctuation isMark⟩
  | @operator mark _ isMark noEquals noColon =>
      refine ⟨true, .operator isMark noEquals noColon ?_⟩
      rintro rfl
      rw [List.singleton_append, Text.startsComment_cons, isNext] at noComment
      exact ⟨fun isLine => noComment ⟨rfl, .inl isLine⟩,
        fun isBlock => noComment ⟨rfl, .inr isBlock⟩⟩
  | doubleColon => exact ⟨true, .compound (by decide) (.inr ⟨rfl, rfl⟩)⟩
  | withEquals isMark => exact ⟨true, .compound isMark (.inl rfl)⟩
  | word notEmpty inside noDigit stops =>
      obtain ⟨first, others, rfl⟩ := List.exists_cons_of_ne_nil notEmpty
      refine ⟨true, .word (noDigit first rfl) ?_ (stops_iff.2 ?_)⟩
      · exact fun character member => endsWord_eq_false_iff_marks.2 (inside character member)
      · intro character isNext
        simpa using endsWord_eq_true_iff_marks.2 (stops character isNext)

/-- What would be a token at the end of a source is part of the piece that starts there. -/
theorem prefix_first_of_fits {first : Char} {others : List Char} (rest : List Char)
    (fits : Fits (.token kind closed) (first :: others) none) :
    first :: others <+: (Cut.first first (others ++ rest)).text := by
  have single : [first] <+: (Cut.first first rest).text := by
    obtain ⟨start, text, isText⟩ :=
      List.exists_cons_of_ne_nil (Cut.first_ne_nil first rest)
    have whole := Cut.first_append first rest
    rw [isText] at whole ⊢
    obtain ⟨rfl, -⟩ := List.cons.inj whole
    exact ⟨text, rfl⟩
  cases fits with
  | integer digits stops noPoint =>
      obtain ⟨digit, otherDigits⟩ := List.forall_mem_cons.1 digits
      rw [Cut.first_digit _ digit]
      exact Cut.prefix_number rest otherDigits
  | @decimal _ others fraction _ digits fractionDigits stops =>
      obtain ⟨digit, otherDigits⟩ := List.forall_mem_cons.1 digits
      rw [Cut.first_digit _ digit, List.append_assoc, List.cons_append]
      exact Cut.prefix_number_point rest otherDigits fractionDigits
  | @closedQuote _ _ value _ delimits alone =>
      rw [Cut.first_quote _ delimits]
      exact (List.prefix_cons_inj _).2 (Text.quote_delimiter_prefix_quotedRun _ _ _)
  | openQuote delimits =>
      rw [Cut.first_quote _ delimits]
      exact (List.prefix_cons_inj _).2 (Text.quote_prefix_quotedRun _ _ _)
  | punctuation isMark => exact single
  | operator isMark noEquals noColon noComment => exact single
  | @compound _ second _ isMark joins =>
      refine ⟨[], ?_⟩
      rw [Cut.first_of_fits (Fits.compound isMark joins), List.append_nil]
  | @word _ others _ noDigit inside stops =>
      obtain ⟨firstInside, othersInside⟩ := List.forall_mem_cons.1 inside
      rw [Cut.first_word _ noDigit firstInside]
      exact @Cut.prefix_extend _ [first] others rest _ (by simpa using othersInside)

/-- A token that is cut is a longest match. -/
theorem prefix_of_matches {other rest : List Char} {otherKind : Token.Kind}
    (fits : Fits (.token kind closed) text rest.head?)
    (otherFits : Token.Matches otherKind other none) (starts : other <+: text ++ rest) :
    other <+: text := by
  have noComment : ¬Text.StartsComment (other ++ []) := fun comment =>
    not_startsComment_of_fits fits ((List.append_nil other ▸ comment).mono starts)
  obtain ⟨otherClosed, otherCut⟩ := exists_fits_of_matches otherFits noComment
  obtain ⟨first, others, rfl⟩ := List.exists_cons_of_ne_nil otherCut.ne_nil
  obtain ⟨start, later, rfl⟩ := List.exists_cons_of_ne_nil fits.ne_nil
  obtain ⟨otherRest, whole⟩ := starts
  obtain ⟨rfl, sameRest⟩ : first = start ∧ others ++ otherRest = later ++ rest :=
    List.cons.inj whole
  have isPrefix := prefix_first_of_fits otherRest otherCut
  rwa [sameRest, Cut.first_of_fits fits] at isPrefix

end Fits

end Piece

end ObjectIds
