import ObjectIds.Text.Decimal

/-!
# Locations in a text

A *place* counts, without bound, the lines, columns and bytes that come before a
character.  Positions and spans are what a reader of the results sees of places: they
hold 32-bit numbers, which are exact for every text shorter than 2³² bytes.
-/

namespace ObjectIds

/-- How far a reader has come: complete lines read, characters read on the current
line, and bytes of the encoded text read. -/
structure Place where
  line : Nat
  column : Nat
  offset : Nat
deriving DecidableEq, Repr, Inhabited

/-- A line and a column, both counted from zero. -/
structure Position where
  line : UInt32
  column : UInt32
deriving DecidableEq, Repr, Inhabited

/-- The bytes from `start` up to but not including `stop`. -/
structure Span where
  start : UInt32
  stop : UInt32
deriving DecidableEq, Repr, Inhabited

namespace Place

/-- The place before the first character. -/
def start : Place := ⟨0, 0, 0⟩

/-- The place after one more character.  Only a newline ends a line. -/
def step (place : Place) (character : Char) : Place :=
  if character = '\n' then
    ⟨place.line + 1, 0, place.offset + character.utf8Size⟩
  else
    ⟨place.line, place.column + 1, place.offset + character.utf8Size⟩

/-- The place after the characters of a text. -/
def advance (place : Place) (text : List Char) : Place :=
  text.foldl step place

@[simp]
theorem advance_nil (place : Place) : place.advance [] = place := rfl

@[simp]
theorem advance_cons (place : Place) (character : Char) (text : List Char) :
    place.advance (character :: text) = (place.step character).advance text := rfl

@[simp]
theorem advance_append (place : Place) (first second : List Char) :
    place.advance (first ++ second) = (place.advance first).advance second :=
  List.foldl_append

/-- The line and column of a place. -/
def position (place : Place) : Position :=
  ⟨UInt32.ofNat place.line, UInt32.ofNat place.column⟩

/-- The bytes between two places. -/
def spanTo (first last : Place) : Span :=
  ⟨UInt32.ofNat first.offset, UInt32.ofNat last.offset⟩

end Place

namespace Position

/-- The first position of a text. -/
def origin : Position := ⟨0, 0⟩

/-- The line and column counted from one, as editors show them. -/
def display (position : Position) : String :=
  Text.decimalText (position.line + 1) ++ ":" ++
    Text.decimalText (position.column + 1)

end Position

namespace Span

/-- The empty span before the first byte, for things that stand nowhere in a text. -/
def nowhere : Span := ⟨0, 0⟩

/-- The number of bytes in a span. -/
def length (span : Span) : UInt32 := span.stop - span.start

end Span

end ObjectIds
