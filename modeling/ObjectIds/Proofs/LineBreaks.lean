import Mathlib.Data.List.Infix
import ObjectIds.Proofs.LexemeLocations

/-!
# Where lines end

A comment after `//` and a directive take what is left of their line.  They stop at the first
newline or carriage return, while lines are counted by newlines only.  So nothing else starts
on their line, unless they stop at a carriage return with no newline after it: what comes after
a stray return is read as usual, still on the same line.
-/

namespace ObjectIds

namespace Text

/-- A text before which a line ends: nothing, a newline, or a carriage return and a newline. -/
inductive EndsLine : List Char → Prop
  | atEnd : EndsLine []
  | newline (rest : List Char) : EndsLine ('\n' :: rest)
  | returnNewline (rest : List Char) : EndsLine ('\r' :: '\n' :: rest)

/-- A text that starts with a carriage return before no newline. -/
def StartsStray (text : List Char) : Prop :=
  text.head? = some '\r' ∧ text.tail.head? ≠ some '\n'

instance (text : List Char) : Decidable (StartsStray text) := inferInstanceAs (Decidable (_ ∧ _))

/-- A text in which every carriage return stands before a newline. -/
def NoStrayReturn (text : List Char) : Prop := ∀ suffix ∈ text.tails, ¬StartsStray suffix

instance (text : List Char) : Decidable (NoStrayReturn text) :=
  inferInstanceAs (Decidable (∀ suffix ∈ text.tails, ¬StartsStray suffix))

theorem endsLine_or_startsStray {text : List Char}
    (stops : Piece.Stops (!isLineBreak ·) text.head?) : EndsLine text ∨ StartsStray text := by
  cases text with
  | nil => exact Or.inl .atEnd
  | cons character rest =>
      rw [List.head?_cons, Piece.stops_some, Bool.not_eq_false'] at stops
      have breaks : character = '\n' ∨ character = '\r' := by
        simpa [isLineBreak] using stops
      rcases breaks with rfl | rfl
      · exact Or.inl (.newline rest)
      · by_cases alone : rest.head? = some '\n'
        · obtain ⟨others, rfl⟩ := List.head?_eq_some_iff.1 alone
          exact Or.inl (.returnNewline others)
        · exact Or.inr ⟨rfl, alone⟩

theorem NoStrayReturn.endsLine {text suffix : List Char} (noStray : NoStrayReturn text)
    (isSuffix : suffix <:+ text) (stops : Piece.Stops (!isLineBreak ·) suffix.head?) :
    EndsLine suffix :=
  (endsLine_or_startsStray stops).resolve_right (noStray suffix ((List.mem_tails _ _).2 isSuffix))

theorem NoStrayReturn.of_append {first second : List Char}
    (noStray : NoStrayReturn (first ++ second)) : NoStrayReturn second := by
  intro suffix member
  have isSuffix := ((List.mem_tails _ _).1 member).trans (List.suffix_append first second)
  exact noStray suffix ((List.mem_tails _ _).2 isSuffix)

end Text

theorem Place.line_advance_of_inLine (place : Place) {text : List Char}
    (inLine : ∀ character ∈ text, Text.isLineBreak character = false) :
    (place.advance text).line = place.line := by
  have noNewline : '\n' ∉ text := fun member => absurd (inLine _ member) (by decide)
  rw [line_advance, List.count_eq_zero_of_not_mem noNewline, Nat.add_zero]

namespace Piece

/-- Whether a piece takes what is left of its line. -/
def takesLine (piece : Piece) : Bool :=
  match piece.shape with
  | .lineComment | .directive => true
  | .spacing | .blockComment _ | .token _ _ => false

/-- A piece that takes its line has no line break inside and stands before one. -/
theorem of_takesLine {line : Piece} {next : Option Char} (takes : line.takesLine = true)
    (fits : Fits line.shape line.text next) :
    (∀ character ∈ line.text, Text.isLineBreak character = false) ∧
      Stops (!Text.isLineBreak ·) next := by
  obtain ⟨shape, text, start⟩ := line
  have slash : Text.isLineBreak '/' = false := by decide
  have hash : Text.isLineBreak '#' = false := by decide
  cases fits with
  | lineComment inLine stops =>
      exact ⟨List.forall_mem_cons.2 ⟨slash, List.forall_mem_cons.2 ⟨slash, inLine⟩⟩, stops⟩
  | directive inLine stops => exact ⟨List.forall_mem_cons.2 ⟨hash, inLine⟩, stops⟩
  | _ => contradiction

theorem isSilent_of_isLexeme {piece : Piece} (isLexeme : piece.isLexeme = true) :
    piece.isSilent = false := by
  obtain ⟨shape, text, start⟩ := piece
  cases shape with
  | directive => rfl
  | token kind closed => rfl
  | spacing | lineComment | blockComment closed => contradiction

theorem isSpacing_return : Text.isSpacing '\r' = true := by
  decide

/-- The lexemes of a text, with spacing in front of it, are those of the text. -/
theorem filter_isLexeme_spacing {run : List Char} (rest : List Char) (place : Place)
    (blank : ∀ character ∈ run, Text.isSpacing character = true) :
    (listFrom place (run ++ rest)).filter isLexeme =
      (listFrom (place.advance run) rest).filter isLexeme := by
  have lexemesOnly (pieces : List Piece) :
      (pieces.filter (!·.isSilent)).filter isLexeme = pieces.filter isLexeme := by
    rw [List.filter_filter]
    refine List.filter_congr fun piece _ => ?_
    cases isLexeme : piece.isLexeme with
    | false => rfl
    | true => simp [isSilent_of_isLexeme isLexeme]
  have moved := congrArg (List.filter isLexeme) (lexemesFrom_spacing rest place blank)
  rwa [lexemesFrom, lexemesFrom, lexemesOnly, lexemesOnly] at moved

theorem mem_of_before {source : String} {piece other : Piece} {earlier later : List Piece}
    (isList : listOfText source = earlier ++ piece :: later) (member : other ∈ listOfText source)
    (isLater : piece.start.Before other.start) : other ∈ later := by
  have ordered := pairwise_start_listFrom Place.start source.toList
  rw [← listOfText_eq, isList, List.pairwise_append] at ordered
  rw [isList, List.mem_append, List.mem_cons] at member
  have noneBefore (place : Place) : ¬place.Before place := by simp [Place.Before]
  rcases member with isEarlier | rfl | comesLater
  · have isBefore := ordered.2.2 other isEarlier piece List.mem_cons_self
    exact (noneBefore _ (isLater.trans isBefore)).elim
  · exact (noneBefore _ isLater).elim
  · exact comesLater

/-- After a text before which a line ends, lexemes start on later lines. -/
theorem line_lt_of_endsLine {place : Place} {text : List Char} (ends : Text.EndsLine text)
    {lexeme : Piece} (member : lexeme ∈ listFrom place text)
    (isLexeme : lexeme.isLexeme = true) : place.line < lexeme.start.line := by
  -- The line break is spacing, and the lexemes are those of what comes after it.
  have startsAfter (run rest : List Char) (isText : text = run ++ rest)
      (blank : ∀ character ∈ run, Text.isSpacing character = true) (hasNewline : '\n' ∈ run) :
      place.line < lexeme.start.line := by
    have isThere := List.mem_filter.2 ⟨member, isLexeme⟩
    rw [isText, filter_isLexeme_spacing rest place blank] at isThere
    obtain ⟨before, -, starts⟩ := start_of_mem_listFrom (List.mem_filter.1 isThere).1
    have counted := List.count_pos_iff.2 hasNewline
    rw [starts, Place.line_advance, Place.line_advance]
    omega
  cases ends with
  | atEnd => simp at member
  | newline rest => exact startsAfter ['\n'] rest rfl isSpacing_newline (by simp)
  | returnNewline rest =>
      have blank : ∀ character ∈ ['\r', '\n'], Text.isSpacing character = true :=
        List.forall_mem_cons.2 ⟨isSpacing_return, isSpacing_newline⟩
      exact startsAfter ['\r', '\n'] rest rfl blank (by simp)

/-- In a text that 32 bits can count, the line of a position is exact. -/
theorem line_position_toNat {source : String} {piece : Piece}
    (short : source.utf8ByteSize < UInt32.size) (member : piece ∈ listOfText source) :
    piece.start.position.line.toNat = piece.start.line := by
  obtain ⟨before, after, stands⟩ := exists_standsIn short member
  have counted := (Place.covered_advance_start before).line
  have beforeShort := piece.span.start.toNat_lt
  rw [stands.first_byte] at beforeShort
  rw [Place.offset_advance_start, ← stands.start_eq] at counted
  exact UInt32.toNat_ofNat_of_lt' (Nat.lt_of_le_of_lt counted beforeShort)

end Piece

/-- A comment after `//` and a directive go up to the next line break or to the end of the
source.  Where that is the end of a line, and in a source without stray returns it always is,
every token and every directive after them starts on a later line.  At a stray return the rest
of the source is read from the return on, on the line of the comment or directive. -/
theorem lines_run_to_breaks (source : String) :
    ∀ line ∈ Piece.listOfText source, line.takesLine = true →
      ∃ before earlier after,
        source.toList = before ++ line.text ++ after ∧
        line.start = Place.start.advance before ∧
        Piece.listOfText source = earlier ++ line :: Piece.listFrom line.stop after ∧
        (∀ character ∈ line.text, Text.isLineBreak character = false) ∧
        (Text.NoStrayReturn source.toList → Text.EndsLine after) ∧
        (Text.EndsLine after → ∀ lexeme ∈ Piece.listOfText source, lexeme.isLexeme = true →
          line.start.Before lexeme.start → line.start.line < lexeme.start.line ∧
            (source.utf8ByteSize < UInt32.size →
              line.start.position.line < lexeme.start.position.line)) ∧
        (¬Text.EndsLine after → ∃ rest, after = '\r' :: rest ∧ rest.head? ≠ some '\n' ∧
          (line.stop.step '\r').line = line.start.line ∧
          (Piece.listFrom line.stop after).filter Piece.isLexeme =
            (Piece.listFrom (line.stop.step '\r') rest).filter Piece.isLexeme) := by
  intro line member takes
  obtain ⟨before, earlier, after, isSource, starts, fits, isList⟩ :=
    Piece.exists_pieces_of_mem_listFrom member
  obtain ⟨inLine, stops⟩ := Piece.of_takesLine takes fits
  have sameLine : line.stop.line = line.start.line := line.start.line_advance_of_inLine inLine
  have isSuffix : after <:+ source.toList := isSource ▸ List.suffix_append _ after
  refine ⟨before, earlier, after, isSource, starts, isList, inLine,
    fun noStray => noStray.endsLine isSuffix stops, ?_, fun notEnds => ?_⟩
  · intro ends lexeme lexemeMember isLexeme isLater
    have comesLater := Piece.mem_of_before isList lexemeMember isLater
    have further : line.start.line < lexeme.start.line := by
      rw [← sameLine]
      exact Piece.line_lt_of_endsLine ends comesLater isLexeme
    refine ⟨further, fun short => ?_⟩
    rw [UInt32.lt_iff_toNat_lt, Piece.line_position_toNat short member,
      Piece.line_position_toNat short lexemeMember]
    exact further
  · obtain ⟨isReturn, alone⟩ := (Text.endsLine_or_startsStray stops).resolve_left notEnds
    obtain ⟨rest, rfl⟩ := List.head?_eq_some_iff.1 isReturn
    refine ⟨rest, rfl, alone, sameLine, ?_⟩
    exact Piece.filter_isLexeme_spacing rest line.stop
      (List.forall_mem_singleton.2 Piece.isSpacing_return)

/-- A directive with a comment on it, before a carriage return and a newline. -/
theorem lines_run_to_breaks_before_return_newline :
    let source := "#if A // b\r\nc"
    let line : Piece := ⟨.directive, "#if A // b".toList, ⟨0, 0, 0⟩⟩
    let token : Piece := ⟨.token .word true, ['c'], ⟨1, 0, 12⟩⟩
    source.utf8ByteSize < UInt32.size ∧ Text.NoStrayReturn source.toList ∧
      line ∈ Piece.listOfText source ∧ line.takesLine = true ∧
      token ∈ Piece.listOfText source ∧ token.isLexeme = true ∧
      line.start.position.line < token.start.position.line := by
  intro source line token
  have short : source.utf8ByteSize < UInt32.size := by decide +kernel
  have noStray : Text.NoStrayReturn source.toList := by decide +kernel
  have member : line ∈ Piece.listOfText source := by decide +kernel
  have tokenMember : token ∈ Piece.listOfText source := by decide +kernel
  obtain ⟨-, -, after, -, -, -, -, endsLine, laterLines, -⟩ :=
    lines_run_to_breaks source line member rfl
  obtain ⟨-, onLaterLine⟩ :=
    laterLines (endsLine noStray) token tokenMember rfl (Or.inl (by decide))
  exact ⟨short, noStray, member, rfl, tokenMember, rfl, onLaterLine short⟩

/-- A token on the line of a comment that stops at a stray return. -/
theorem line_goes_on_after_stray_return :
    ¬∀ line ∈ Piece.listOfText "// a\rb", line.takesLine = true →
      ∀ token ∈ Token.listOfText "// a\rb", line.start.position.Before token.position →
        token.position.line ≠ line.start.position.line := by
  intro claimed
  exact claimed ⟨.lineComment, "// a".toList, ⟨0, 0, 0⟩⟩ (by decide +kernel) rfl
    ⟨.word, "b", ⟨0, 5⟩, ⟨5, 6⟩⟩ (by decide +kernel) (Or.inr ⟨rfl, by decide⟩) rfl

end ObjectIds
