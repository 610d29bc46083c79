import ObjectIds.Json
import ObjectIds.Text.Decimal

/-!
# Decoding JSON values

A record is read from an object or from an array.  In an object its fields may come in
any order, each at most once, and members that are not fields are ignored.  In an array
the fields come in their own order, and fields at the end may be left out.
-/

namespace ObjectIds

namespace Json

/-- The text that a value is. -/
def text? : Json → Option String
  | .string characters => textOf? characters
  | _ => none

/-- The 32-bit number that a value is, when it is written as an integer without a
sign. -/
def word? : Json → Option UInt32
  | .number literal => Text.decimal? literal.toList
  | _ => none

/-- What a value is that may also be null. -/
def nullable? {α : Type} (decode : Json → Option α) : Json → Option (Option α)
  | .null => some none
  | value => (decode value).map some

/-- The elements of an array, all of one sort. -/
def listOf? {α : Type} (decode : Json → Option α) : Json → Option (List α)
  | .array elements => elements.mapM decode
  | _ => none

/-- The members of an object, with keys that are texts. -/
def named? (members : List (List Character × Json)) : Option (List (String × Json)) :=
  members.mapM fun (key, value) => (textOf? key).map (·, value)

/-- The value of a member that may be missing but must not be repeated. -/
def member? (members : List (String × Json)) (key : String) : Option (Option Json) :=
  match members.filter (·.1 == key) with
  | [] => some none
  | [(_, value)] => some (some value)
  | _ => none

/-- The values of members with given keys: those of an object in any order, or the
elements of an array in the order of the keys. -/
def fields? (keys : List String) : Json → Option (List (Option Json))
  | .object members => (named? members).bind fun named => keys.mapM (member? named)
  | .array elements =>
      if elements.length ≤ keys.length then
        some ((List.range keys.length).map fun index => elements[index]?)
      else none
  | _ => none

/-- Decodes a member that may be missing. -/
def orDefault? {α : Type} (default : α) (decode : Json → Option α) :
    Option Json → Option α
  | none => some default
  | some value => decode value

end Json

end ObjectIds
