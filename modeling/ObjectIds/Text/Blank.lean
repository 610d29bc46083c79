/-!
# Blank characters

Two classes of characters separate things in a source text.  A *blank* character
has the Unicode property `White_Space`; it delimits the name of a directive and is
trimmed from the ends of a symbol.  A *spacing* character is a blank one or the
byte-order mark, and may stand between two tokens.
-/

namespace ObjectIds

namespace Text

/-- The first and last code points of each run of characters with the Unicode
property `White_Space`. -/
def blankRanges : List (Nat × Nat) :=
  [(0x09, 0x0D), (0x20, 0x20), (0x85, 0x85), (0xA0, 0xA0), (0x1680, 0x1680),
    (0x2000, 0x200A), (0x2028, 0x2029), (0x202F, 0x202F), (0x205F, 0x205F),
    (0x3000, 0x3000)]

/-- Whether a character has the Unicode property `White_Space`. -/
def isBlank (character : Char) : Bool :=
  blankRanges.any fun (first, last) =>
    decide (first ≤ character.toNat) && decide (character.toNat ≤ last)

/-- The mark that some editors write at the start of a text. -/
def byteOrderMark : Char := '\uFEFF'

/-- Whether a character may stand between two tokens. -/
def isSpacing (character : Char) : Bool :=
  isBlank character || character == byteOrderMark

/-- Whether a character ends a comment or a directive that runs to the end of its
line. -/
def isLineBreak (character : Char) : Bool :=
  character == '\n' || character == '\r'

/-- A text without the blank characters at its two ends. -/
def trim (text : List Char) : List Char :=
  ((text.dropWhile isBlank).reverse.dropWhile isBlank).reverse

/-- A line break is itself a blank character. -/
theorem isBlank_of_isLineBreak {character : Char} (breaks : isLineBreak character = true) :
    isBlank character = true := by
  rcases Bool.or_eq_true _ _ ▸ breaks with newline | carriageReturn
  · rw [eq_of_beq newline]; decide
  · rw [eq_of_beq carriageReturn]; decide

end Text

end ObjectIds
