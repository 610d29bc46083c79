import ObjectIds.Text.Blank
import ObjectIds.Text.Letters

/-!
# Directive lines

A directive is a line that starts with `#`, a name in any letter case, and perhaps a
symbol.  The first blank character ends the name.  The symbol is what comes after it,
less a trailing `//` comment and the blanks at its ends; it keeps its letter case and
may be empty or hold blanks.
-/

namespace ObjectIds

/-- What a directive line asks for. -/
inductive Directive where
  /-- Define a symbol. -/
  | define (symbol : String)
  /-- Make a symbol undefined. -/
  | undefine (symbol : String)
  /-- Open a conditional whose first branch asks for a symbol. -/
  | ifDefined (symbol : String)
  /-- Start another branch, which asks for a symbol. -/
  | elseIfDefined (symbol : String)
  /-- Start a branch for all other cases. -/
  | elseBranch
  /-- Close the conditional. -/
  | endIf
  /-- A directive that compiles nothing conditionally, by its name in lower case. -/
  | other (name : String)
deriving DecidableEq, Repr

namespace Directive

/-- The part of a text before its first `//`; `found` holds the characters read so
far, latest first. -/
def beforeCommentAfter (found : List Char) : List Char → List Char
  | [] => found.reverse
  | [character] => (character :: found).reverse
  | character :: next :: rest =>
      if character = '/' ∧ next = '/' then found.reverse
      else beforeCommentAfter (character :: found) (next :: rest)

/-- The part of a text before its first `//`. -/
def beforeComment (text : List Char) : List Char :=
  beforeCommentAfter [] text

/-- A directive line without the `#` that starts it. -/
def body (line : List Char) : List Char :=
  match line with
  | '#' :: rest => rest
  | _ => line

/-- The name on a directive line, in lower case. -/
def nameOf (line : List Char) : String :=
  Text.lowercase (String.ofList ((body line).takeWhile (!Text.isBlank ·)))

/-- The symbol on a directive line. -/
def symbolOf (line : List Char) : String :=
  String.ofList
    (Text.trim (beforeComment (((body line).dropWhile (!Text.isBlank ·)).drop 1)))

/-- The directive with a name, about a symbol. -/
def ofName (name symbol : String) : Directive :=
  match name with
  | "define" => .define symbol
  | "undefine" => .undefine symbol
  | "if" => .ifDefined symbol
  | "elif" => .elseIfDefined symbol
  | "else" => .elseBranch
  | "endif" => .endIf
  | _ => .other name

/-- Reads a directive line. -/
def ofLine (line : List Char) : Directive :=
  ofName (nameOf line) (symbolOf line)

end Directive

end ObjectIds
