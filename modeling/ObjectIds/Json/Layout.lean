import ObjectIds.Json

/-!
# Laying out JSON values

A value is written with one element or member per line, two spaces further in than the
bracket or brace around it.  An empty array or object takes no lines of its own.  In a
string, quotes, backslashes and control characters below U+0020 are escaped, and all
other characters stand for themselves.
-/

namespace ObjectIds

namespace Json

/-- The lower-case hexadecimal digits of a number, four of them. -/
def hexDigits (unit : Nat) : List Char :=
  [unit / 4096 % 16, unit / 256 % 16, unit / 16 % 16, unit % 16].map Nat.digitChar

/-- A character as it is written in a string. -/
def Character.layout : Character → List Char
  | .surrogate unit => '\\' :: 'u' :: hexDigits unit.toNat
  | .scalar character =>
      if character = '"' then ['\\', '"']
      else if character = '\\' then ['\\', '\\']
      else if character = '\x08' then ['\\', 'b']
      else if character = '\t' then ['\\', 't']
      else if character = '\n' then ['\\', 'n']
      else if character = '\x0c' then ['\\', 'f']
      else if character = '\r' then ['\\', 'r']
      else if character.toNat < 0x20 then '\\' :: 'u' :: hexDigits character.toNat
      else [character]

/-- A string as it is written. -/
def layoutString (characters : List Character) : List Char :=
  '"' :: characters.flatMap Character.layout ++ ['"']

/-- The start of a line at a depth of nesting. -/
def newLine (depth : Nat) : List Char :=
  '\n' :: List.replicate (2 * depth) ' '

mutual

/-- A value as it is written at a depth of nesting. -/
def layout (depth : Nat) : Json → List Char
  | .null => ['n', 'u', 'l', 'l']
  | .bool true => ['t', 'r', 'u', 'e']
  | .bool false => ['f', 'a', 'l', 's', 'e']
  | .number literal => literal.toList
  | .string characters => layoutString characters
  | .array [] => ['[', ']']
  | .array (element :: elements) =>
      '[' :: newLine (depth + 1) ++ layout (depth + 1) element ++
        layoutElements depth elements
  | .object [] => ['{', '}']
  | .object ((key, value) :: members) =>
      '{' :: newLine (depth + 1) ++ layoutString key ++ [':', ' '] ++
        layout (depth + 1) value ++ layoutMembers depth members

/-- The later elements of an array, and its end. -/
def layoutElements (depth : Nat) : List Json → List Char
  | [] => newLine depth ++ [']']
  | element :: elements =>
      ',' :: newLine (depth + 1) ++ layout (depth + 1) element ++
        layoutElements depth elements

/-- The later members of an object, and its end. -/
def layoutMembers (depth : Nat) : List (List Character × Json) → List Char
  | [] => newLine depth ++ ['}']
  | (key, value) :: members =>
      ',' :: newLine (depth + 1) ++ layoutString key ++ [':', ' '] ++
        layout (depth + 1) value ++ layoutMembers depth members

end

/-- The text of a value, over several lines. -/
def pretty (value : Json) : String := String.ofList (layout 0 value)

end Json

end ObjectIds
