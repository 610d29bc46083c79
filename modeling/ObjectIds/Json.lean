/-!
# JSON values

A value keeps everything that its text says apart from spacing: the order and the
repetition of the members of an object, the digits of a number, and surrogate escapes
that do not form a pair.  Such a half of a pair may stand in a string that nobody
reads, but a string that holds one is no text.
-/

namespace ObjectIds

/-- A character of a JSON string: a Unicode character, or half of a surrogate pair
whose other half is missing. -/
inductive Json.Character where
  | scalar (character : Char)
  | surrogate (unit : UInt16)
deriving DecidableEq, Repr

/-- A JSON value.  A number is given by its digits, point, signs and exponent as they
are written. -/
inductive Json where
  | null
  | bool (value : Bool)
  | number (literal : String)
  | string (characters : List Json.Character)
  | array (elements : List Json)
  | object (members : List (List Json.Character × Json))

namespace Json

/-- The Unicode character that a character of a JSON string is. -/
def Character.scalar? : Character → Option Char
  | .scalar character => some character
  | .surrogate _ => none

/-- The characters of a text. -/
def characters (text : String) : List Character :=
  text.toList.map .scalar

/-- The text with given characters, if none is half of a surrogate pair. -/
def textOf? (characters : List Character) : Option String :=
  (characters.mapM Character.scalar?).map String.ofList

/-- The value that stands for a text. -/
def ofText (text : String) : Json := .string (characters text)

/-- The value that stands for a natural number. -/
def ofNat (number : Nat) : Json := .number (Nat.repr number)

end Json

end ObjectIds
