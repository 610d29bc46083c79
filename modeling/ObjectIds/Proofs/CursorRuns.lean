import Mathlib.Data.List.Infix
import ObjectIds.Proofs.LexemeLocations

/-!
# Where a cursor stands

However a cursor has been moved, it stands between the characters that it has read and those to
come, and its place counts the ones it has read.  Looking ahead does not move it, reading moves
it past one character, and skipping past as many as one after the other satisfy a test.  A byte
at which the cursor has stood never lies inside a character, so the text since then can always
be taken.
-/

namespace ObjectIds

namespace Cursor

/-- What can be asked of a cursor. -/
inductive Call where
  | read
  | peek (count : Nat)
  | skipWhile (test : Char → Bool)
  | isAtEnd
  | isAtLineEnd

/-- A cursor after a call.  Reading at the end leaves it where it is. -/
def afterCall (cursor : Cursor) : Call → Cursor
  | .read => (cursor.read?.map Prod.snd).getD cursor
  | .skipWhile test => cursor.skipWhile test
  | .peek _ | .isAtEnd | .isAtLineEnd => cursor

def afterCalls (cursor : Cursor) (calls : List Call) : Cursor :=
  calls.foldl afterCall cursor

/-- The longest run of characters at the start of a text that satisfy a test. -/
structure LongestRun (test : Char → Bool) (text run : List Char) : Prop where
  starts : run <+: text
  holds : ∀ character ∈ run, test character = true
  longest : ∀ other, other <+: text → (∀ character ∈ other, test character = true) →
    other <+: run

/-- A cursor that has read `before` and has `after` to come. -/
structure StandsBetween (before after : List Char) (cursor : Cursor) : Prop where
  consumed_eq : cursor.consumed.reverse = before
  rest_eq : cursor.rest = after
  place_eq : cursor.place = Place.start.advance before

/-- A cursor in a source, with all that it tells about where it stands. -/
structure StandsIn (source : String) (before after : List Char) (cursor : Cursor) : Prop where
  source_eq : source.toList = before ++ after
  consumed_eq : cursor.consumed.reverse = before
  offset_eq : cursor.place.offset = Text.byteLength before
  offset_le : cursor.place.offset ≤ source.utf8ByteSize
  boundary : String.Pos.Raw.IsValid source ⟨cursor.place.offset⟩
  line_eq : cursor.place.position.line.toNat = before.count '\n'
  column_eq :
    cursor.place.position.column.toNat = (before.reverse.takeWhile (· != '\n')).length
  peek_eq : ∀ count, cursor.peek? count = after[count]?
  isAtEnd_iff : cursor.isAtEnd = true ↔ source.utf8ByteSize ≤ cursor.place.offset
  isAtLineEnd_iff :
    cursor.isAtLineEnd = true ↔ after.head? = some '\n' ∨ after.head? = some '\r'

theorem longestRun_takeWhile (test : Char → Bool) (text : List Char) :
    LongestRun test text (text.takeWhile test) := by
  refine ⟨List.takeWhile_prefix test, fun character => List.mem_takeWhile_imp, ?_⟩
  rintro other ⟨more, rfl⟩ holds
  rw [List.takeWhile_append_of_pos holds]
  exact List.prefix_append other _

theorem afterCall_read_cons {cursor : Cursor} {character : Char} {rest : List Char}
    (isRest : cursor.rest = character :: rest) :
    cursor.afterCall .read = cursor.advance [character] rest := by
  simp [afterCall, read?, isRest]

/-- As many reads as a text has characters move past the text. -/
theorem afterCalls_replicate_read (text rest : List Char) {cursor : Cursor}
    (isRest : cursor.rest = text ++ rest) :
    cursor.afterCalls (List.replicate text.length .read) = cursor.advance text rest := by
  induction text generalizing cursor with
  | nil =>
      rw [List.nil_append] at isRest
      rw [← isRest]
      rfl
  | cons character text ih =>
      have next := afterCall_read_cons isRest
      rw [List.length_cons, List.replicate_succ, afterCalls, List.foldl_cons, next]
      exact (ih rfl).trans (advance_advance _ _ _ _ _)

theorem skipWhile_eq_afterCalls (cursor : Cursor) (test : Char → Bool) :
    cursor.skipWhile test =
      cursor.afterCalls (List.replicate (cursor.rest.takeWhile test).length .read) :=
  (afterCalls_replicate_read _ _ List.takeWhile_append_dropWhile.symm).symm

namespace StandsBetween

variable {before after : List Char} {cursor : Cursor}

theorem ofText (source : String) : StandsBetween [] source.toList (Cursor.ofText source) :=
  ⟨rfl, rfl, rfl⟩

theorem advance {text rest : List Char} (stands : cursor.StandsBetween before (text ++ rest)) :
    (cursor.advance text rest).StandsBetween (before ++ text) rest := by
  obtain ⟨consumed, -, place⟩ := stands
  refine ⟨?_, rfl, ?_⟩
  · rw [advance_consumed, List.reverse_append, consumed, List.reverse_reverse]
  · rw [advance_place, place, Place.advance_append]

theorem afterCall_read (stands : cursor.StandsBetween before after) :
    (cursor.afterCall .read).StandsBetween (before ++ after.take 1) (after.drop 1) := by
  cases after with
  | nil =>
      have noMore : cursor.afterCall .read = cursor := by
        simp [afterCall, read?, stands.rest_eq]
      rw [noMore]
      simpa using stands
  | cons character rest =>
      have splits : cursor.StandsBetween before ([character] ++ rest) := stands
      rw [afterCall_read_cons stands.rest_eq]
      exact splits.advance

theorem afterCall_skipWhile (stands : cursor.StandsBetween before after) (test : Char → Bool) :
    (cursor.afterCall (.skipWhile test)).StandsBetween (before ++ after.takeWhile test)
      (after.dropWhile test) := by
  have isSkipped : cursor.afterCall (.skipWhile test) =
      cursor.advance (after.takeWhile test) (after.dropWhile test) := by
    rw [← stands.rest_eq]
    rfl
  rw [isSkipped]
  rw [← @List.takeWhile_append_dropWhile _ test after] at stands
  exact stands.advance

/-- A call moves a cursor on by some characters, perhaps none. -/
theorem afterCall (stands : cursor.StandsBetween before after) (call : Call) :
    ∃ text rest, after = text ++ rest ∧
      (cursor.afterCall call).StandsBetween (before ++ text) rest := by
  cases call with
  | read => exact ⟨_, _, (List.take_append_drop 1 after).symm, stands.afterCall_read⟩
  | skipWhile test =>
      exact ⟨_, _, List.takeWhile_append_dropWhile.symm, stands.afterCall_skipWhile test⟩
  | peek count | isAtEnd | isAtLineEnd =>
      exact ⟨[], after, rfl, by rwa [List.append_nil]⟩

theorem afterCalls (stands : cursor.StandsBetween before after) (calls : List Call) :
    ∃ text rest, after = text ++ rest ∧
      (cursor.afterCalls calls).StandsBetween (before ++ text) rest := by
  induction calls generalizing cursor before after with
  | nil => exact ⟨[], after, rfl, by rwa [List.append_nil]⟩
  | cons call calls ih =>
      obtain ⟨text, middle, rfl, standsNext⟩ := stands.afterCall call
      obtain ⟨more, rest, rfl, standsLater⟩ := ih standsNext
      refine ⟨text ++ more, rest, (List.append_assoc _ _ _).symm, ?_⟩
      rwa [← List.append_assoc]

theorem offset_eq (stands : cursor.StandsBetween before after) :
    cursor.place.offset = Text.byteLength before := by
  rw [stands.place_eq, Place.offset_advance_start]

/-- A cursor tells where it stands in a source that 32 bits can count. -/
theorem standsIn {source : String} (stands : cursor.StandsBetween before after)
    (isSource : source.toList = before ++ after) (short : source.utf8ByteSize < UInt32.size) :
    cursor.StandsIn source before after := by
  have bytes : source.utf8ByteSize = Text.byteLength before + Text.byteLength after := by
    rw [← Text.byteLength_toList, isSource, Text.byteLength_append]
  have offset := stands.offset_eq
  have isAfter := stands.rest_eq
  obtain ⟨lineBound, columnBound⟩ := Place.covered_advance_start before
  rw [Place.offset_advance_start] at lineBound columnBound
  refine ⟨isSource, stands.consumed_eq, offset, by omega, ?_, ?_, ?_, ?_, ?_, ?_⟩
  · rw [String.Pos.Raw.isValid_iff_exists_append]
    refine ⟨String.ofList before, String.ofList after, ?_, ?_⟩
    · rw [← String.ofList_append, ← isSource, String.ofList_toList]
    · rw [offset]
      rfl
  · have line := UInt32.toNat_ofNat_of_lt' (by omega : (Place.start.advance before).line < _)
    rw [stands.place_eq, Place.position, line, Place.line_advance]
    exact Nat.zero_add _
  · have column := UInt32.toNat_ofNat_of_lt' (by omega : (Place.start.advance before).column < _)
    rw [stands.place_eq, Place.position, column, Place.column_advance_start]
  · intro count
    rw [peek?, isAfter]
  · rw [isAtEnd, isAfter, offset, bytes, List.isEmpty_iff]
    constructor
    · rintro rfl
      exact Nat.le_refl _
    · intro atEnd
      by_contra more
      have positive := Text.byteLength_pos more
      omega
  · rw [isAtLineEnd, isAfter]
    cases after with
    | nil => simp
    | cons character rest => simp [Text.isLineBreak]

end StandsBetween

/-- The bytes of a text are dropped together with the text. -/
theorem dropBytes?_append (text rest : List Char) :
    dropBytes? (text ++ rest) (Text.byteLength text) = some rest := by
  induction text with
  | nil =>
      have noBytes : Text.byteLength [] = 0 := rfl
      rw [noBytes, List.nil_append, dropBytes?]
  | cons character text ih =>
      have size := character.utf8Size_pos
      obtain ⟨count, isCount⟩ : ∃ count, Text.byteLength (character :: text) = count + 1 :=
        Nat.exists_eq_add_one.2 (Text.byteLength_pos (List.cons_ne_nil _ _))
      have bytes := Text.byteLength_cons character text
      have isLater : count + 1 - character.utf8Size = Text.byteLength text := by omega
      rw [isCount, List.cons_append, dropBytes?, if_pos (by omega), isLater, ih]

/-- The bytes between two places of a source are those of the text between them. -/
theorem toByteArray_extract {source : String} {before passed after : List Char}
    (isSource : source.toList = before ++ passed ++ after) :
    source.toByteArray.extract (Text.byteLength before) (Text.byteLength (before ++ passed)) =
      (String.ofList passed).toByteArray := by
  have isAppend : source =
      String.ofList before ++ String.ofList passed ++ String.ofList after := by
    rw [← String.ofList_append, ← String.ofList_append, ← isSource, String.ofList_toList]
  have bytes : Text.byteLength (before ++ passed) =
      (String.ofList before ++ String.ofList passed).toByteArray.size := by
    rw [Text.byteLength, String.ofList_append, String.size_toByteArray]
  rw [isAppend, String.toByteArray_append, bytes, ByteArray.extract_append_size_left,
    String.toByteArray_append]
  exact ByteArray.extract_append_eq_right rfl ByteArray.size_append

namespace StandsBetween

variable {before passed after : List Char} {cursor : Cursor}

theorem textSince?_eq (stands : cursor.StandsBetween (before ++ passed) after) :
    cursor.textSince? (Text.byteLength before) = some (String.ofList passed) := by
  rw [textSince?, stands.consumed_eq, dropBytes?_append, Option.map_some]

theorem spanSince_toNat (stands : cursor.StandsBetween (before ++ passed) after)
    (short : Text.byteLength (before ++ passed) < UInt32.size) :
    (cursor.spanSince (Text.byteLength before)).start.toNat = Text.byteLength before ∧
      (cursor.spanSince (Text.byteLength before)).stop.toNat =
        Text.byteLength (before ++ passed) := by
  have beforeShort : Text.byteLength before < UInt32.size := by
    rw [Text.byteLength_append] at short
    omega
  rw [spanSince, stands.offset_eq]
  exact ⟨UInt32.toNat_ofNat_of_lt' beforeShort, UInt32.toNat_ofNat_of_lt' short⟩

end StandsBetween

end Cursor

/-- After any calls a cursor stands behind a prefix of its source, and it tells how many bytes,
lines and characters on the last line that prefix has.  Reading moves it past the next
character, and skipping past the longest run, as that many reads do.  From where it has stood
before, it gives the text that it has passed since then, which are the bytes of the source from
there to here, and its span does not go back. -/
theorem cursor_stands_behind_prefix (source : String) (short : source.utf8ByteSize < UInt32.size)
    (earlier later : List Cursor.Call) :
    let mark := (Cursor.ofText source).afterCalls earlier
    let start := mark.place.offset
    let cursor := mark.afterCalls later
    let stop := cursor.place.offset
    let span := cursor.spanSince start
    ∃ before passed after,
      mark.StandsIn source before (passed ++ after) ∧
      cursor.StandsIn source (before ++ passed) after ∧
      (cursor.read?.map Prod.fst = after.head? ∧
        (cursor.afterCall .read).StandsIn source (before ++ passed ++ after.take 1)
          (after.drop 1)) ∧
      (∀ test, ∃ run rest, Cursor.LongestRun test after run ∧
        (cursor.afterCall (.skipWhile test)).StandsIn source (before ++ passed ++ run) rest ∧
        cursor.afterCall (.skipWhile test) =
          cursor.afterCalls (List.replicate run.length .read)) ∧
      cursor.textSince? start = some (String.ofList passed) ∧
      (String.ofList passed).toByteArray = source.toByteArray.extract start stop ∧
      span.start ≤ span.stop ∧ span.start.toNat = start ∧ span.stop.toNat = stop := by
  intro mark start cursor stop span
  obtain ⟨before, rest, isSource, standsMark⟩ :=
    (Cursor.StandsBetween.ofText source).afterCalls earlier
  obtain ⟨passed, after, rfl, stands⟩ := standsMark.afterCalls later
  rw [List.nil_append] at standsMark stands
  have isSplit : source.toList = before ++ passed ++ after := by
    rw [isSource, List.append_assoc]
  have isStart : start = Text.byteLength before := standsMark.offset_eq
  have isStop : stop = Text.byteLength (before ++ passed) := stands.offset_eq
  refine ⟨before, passed, after, standsMark.standsIn isSource short, stands.standsIn isSplit short,
    ⟨?_, ?_⟩, fun test => ?_, ?_, ?_, ?_⟩
  · rw [Cursor.read?, stands.rest_eq]
    cases after <;> rfl
  · refine stands.afterCall_read.standsIn ?_ short
    rw [isSplit, List.append_assoc _ (after.take 1), List.take_append_drop]
  · refine ⟨after.takeWhile test, after.dropWhile test, Cursor.longestRun_takeWhile test after,
      (stands.afterCall_skipWhile test).standsIn ?_ short, ?_⟩
    · rw [isSplit, List.append_assoc _ (after.takeWhile test), List.takeWhile_append_dropWhile]
    · rw [← stands.rest_eq]
      exact cursor.skipWhile_eq_afterCalls test
  · rw [isStart]
    exact stands.textSince?_eq
  · rw [isStart, isStop]
    exact (Cursor.toByteArray_extract isSplit).symm
  · have stopShort : Text.byteLength (before ++ passed) < UInt32.size := by
      rw [← Text.byteLength_toList, isSplit, Text.byteLength_append] at short
      omega
    obtain ⟨spanStart, spanStop⟩ := stands.spanSince_toNat stopShort
    have isSpan : span = cursor.spanSince (Text.byteLength before) :=
      congrArg cursor.spanSince isStart
    rw [UInt32.le_iff_toNat_le, isSpan, spanStart, spanStop, isStart, isStop,
      Text.byteLength_append]
    exact ⟨Nat.le_add_right _ _, rfl, rfl⟩

/-- A cursor that has stood behind a character of two bytes, and is now on the next line. -/
theorem cursor_stands_behind_prefix_across_lines :
    let source := "é12\r\n 3"
    let earlier : List Cursor.Call := [.peek 9, .read, .isAtEnd]
    let later : List Cursor.Call := [.skipWhile Char.isDigit, .isAtLineEnd, .read, .read, .read]
    let mark := (Cursor.ofText source).afterCalls earlier
    let cursor := mark.afterCalls later
    source.utf8ByteSize < UInt32.size ∧ mark.place.offset = 2 ∧
      cursor.textSince? 2 = some "12\r\n " ∧ cursor.spanSince 2 = ⟨2, 7⟩ ∧
      cursor.place.position = ⟨1, 1⟩ ∧ cursor.peek? 0 = some '3' ∧
      "12\r\n ".toByteArray = source.toByteArray.extract 2 7 := by
  intro source earlier later mark cursor
  have short : source.utf8ByteSize < UInt32.size := by decide +kernel
  have isStart : mark.place.offset = 2 := by decide +kernel
  have isStop : cursor.place.offset = 7 := by decide +kernel
  have isText : cursor.textSince? 2 = some "12\r\n " := by decide +kernel
  obtain ⟨before, passed, after, -, -, -, -, sinceMark, bytes, -⟩ :=
    cursor_stands_behind_prefix source short earlier later
  have isPassed : String.ofList passed = "12\r\n " := by
    rw [isStart] at sinceMark
    exact Option.some.inj (sinceMark.symm.trans isText)
  rw [isPassed, isStart, isStop] at bytes
  exact ⟨short, isStart, isText, by decide +kernel, by decide +kernel, by decide +kernel, bytes⟩

end ObjectIds
