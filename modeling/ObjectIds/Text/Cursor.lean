import ObjectIds.Text.Blank
import ObjectIds.Text.Location

/-!
# Reading a text from its start

A cursor divides a text into the characters already read and the characters still to
come.  Its place is a function of the characters read, and reading never goes back.
-/

namespace ObjectIds

/-- A reader inside a text: the characters read, latest first, the characters to come,
and the place between them. -/
structure Cursor where
  consumed : List Char
  rest : List Char
  place : Place
deriving Repr

namespace Cursor

/-- A cursor before the first character of a text. -/
def ofText (text : String) : Cursor := ⟨[], text.toList, Place.start⟩

/-- Moves past `text`, after which `rest` is still to come. -/
def advance (cursor : Cursor) (text rest : List Char) : Cursor :=
  ⟨text.reverseAux cursor.consumed, rest, cursor.place.advance text⟩

/-- Reads one character. -/
def read? (cursor : Cursor) : Option (Char × Cursor) :=
  match cursor.rest with
  | [] => none
  | character :: rest => some (character, cursor.advance [character] rest)

/-- The character that comes after `count` more. -/
def peek? (cursor : Cursor) (count : Nat) : Option Char := cursor.rest[count]?

/-- Moves past the longest run of characters that satisfy a test. -/
def skipWhile (cursor : Cursor) (test : Char → Bool) : Cursor :=
  cursor.advance (cursor.rest.takeWhile test) (cursor.rest.dropWhile test)

/-- Whether every character has been read. -/
def isAtEnd (cursor : Cursor) : Bool := cursor.rest.isEmpty

/-- Whether the next character is a line break. -/
def isAtLineEnd (cursor : Cursor) : Bool := cursor.rest.head?.any Text.isLineBreak

/-- What remains of a text after its first `count` bytes, unless they end inside a
character or beyond the text. -/
def dropBytes? : List Char → Nat → Option (List Char)
  | text, 0 => some text
  | [], _ + 1 => none
  | character :: text, count + 1 =>
      if character.utf8Size ≤ count + 1 then
        dropBytes? text (count + 1 - character.utf8Size)
      else none

/-- The characters read since byte `start`, unless it lies ahead or inside a
character. -/
def textSince? (cursor : Cursor) (start : Nat) : Option String :=
  (dropBytes? cursor.consumed.reverse start).map String.ofList

/-- The bytes from `start` up to here. -/
def spanSince (cursor : Cursor) (start : Nat) : Span :=
  ⟨UInt32.ofNat start, UInt32.ofNat cursor.place.offset⟩

@[simp]
theorem advance_rest (cursor : Cursor) (text rest : List Char) :
    (cursor.advance text rest).rest = rest := rfl

@[simp]
theorem advance_place (cursor : Cursor) (text rest : List Char) :
    (cursor.advance text rest).place = cursor.place.advance text := rfl

@[simp]
theorem advance_consumed (cursor : Cursor) (text rest : List Char) :
    (cursor.advance text rest).consumed = text.reverse ++ cursor.consumed := by
  simp [advance, List.reverseAux_eq]

/-- Moving past two texts is moving past the two together. -/
theorem advance_advance (cursor : Cursor) (first second middle rest : List Char) :
    (cursor.advance first middle).advance second rest =
      cursor.advance (first ++ second) rest := by
  simp [advance, List.reverseAux_eq]

end Cursor

end ObjectIds
