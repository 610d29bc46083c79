import ObjectIds.FileScan
import ObjectIds.Json.Layout

/-!
# Listings of declarations

The declarations of some files are listed as text, one line for each, or as a JSON
document with one object for each file.  In the document, what a declaration does not
have is left out, and the symbols that a file checks are given too.
-/

namespace ObjectIds

namespace Listing

/-- The line for a declaration in a file. -/
def line (file : Path) (declaration : Declaration) : String :=
  file.text ++ ":" ++ declaration.position.display ++ " " ++ declaration.kind ++
    ((declaration.id.map fun id => " " ++ Text.decimalText id).getD "") ++
    ((declaration.name.map fun name => " " ++ name).getD "") ++
    (if declaration.interfaces.isEmpty then ""
      else " implements " ++ ", ".intercalate declaration.interfaces) ++
    ((declaration.target.map fun target => " extends " ++ target).getD "") ++ "\n"

/-- The lines for the declarations of some files. -/
def text (scans : List FileScan) : String :=
  String.join (scans.flatMap fun file => file.scan.declarations.map (line file.file))

/-- A member of an object. -/
def member (key : String) (value : Json) : List (List Json.Character × Json) :=
  [(Json.characters key, value)]

/-- A member of an object for a value that may be missing. -/
def memberIfAny {α : Type} (key : String) (encode : α → Json) (value : Option α) :
    List (List Json.Character × Json) :=
  (value.map fun value => (Json.characters key, encode value)).toList

/-- A 32-bit number in a document. -/
def word (number : UInt32) : Json := Json.ofNat number.toNat

/-- Texts in a document. -/
def texts (values : List String) : Json := .array (values.map Json.ofText)

/-- A position in a document. -/
def position (position : Position) : Json :=
  .object (member "line" (word position.line) ++ member "column" (word position.column))

/-- A declaration in a document. -/
def declaration (declaration : Declaration) : Json :=
  .object (
    member "kind" (Json.ofText declaration.kind) ++
    memberIfAny "id" word declaration.id ++
    memberIfAny "name" Json.ofText declaration.name ++
    (if declaration.interfaces.isEmpty then []
      else member "implements" (texts declaration.interfaces)) ++
    memberIfAny "extends" Json.ofText declaration.target ++
    member "position" (position declaration.position))

/-- A file in a document. -/
def file (scan : FileScan) : Json :=
  .object (
    member "file" (Json.ofText scan.file.text) ++
    member "declarations" (.array (scan.scan.declarations.map declaration)) ++
    member "checkedSymbols" (texts scan.scan.symbols.checked.toList))

/-- The document for some files. -/
def document (scans : List FileScan) : Json := .array (scans.map file)

/-- The document for some files as it is written. -/
def json (scans : List FileScan) : String := (document scans).pretty ++ "\n"

end Listing

end ObjectIds
