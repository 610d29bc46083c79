import ObjectIds.IdRange
import ObjectIds.Json.Decode
import ObjectIds.Json.Document
import ObjectIds.SymbolTable
import ObjectIds.Text.Blank

/-!
# App manifests

The manifest of an app is a JSON document.  Every member is optional, each may occur
once, and members that are not known are ignored whatever their values.  The members
may also be given as an array in a fixed order.  An older form of manifest has a single
id range in a member of its own, which counts after the others.
-/

namespace ObjectIds

/-- What a manifest says about an app. -/
structure Manifest where
  id : Option String
  name : Option String
  idRanges : List IdRange
  idRange : Option IdRange
  symbols : List String
deriving DecidableEq, Repr

namespace IdRange

/-- Reads a range of ids. -/
def ofJson? (value : Json) : Option IdRange := do
  match ← Json.fields? ["from", "to", "description"] value with
  | [some first, some last, description] =>
      return ⟨← first.word?, ← last.word?,
        ← Json.orDefault? none (Json.nullable? Json.text?) description⟩
  | _ => none

end IdRange

namespace Manifest

/-- The manifest of an app that has none. -/
def empty : Manifest := ⟨none, none, [], none, []⟩

/-- Reads a manifest from a JSON value. -/
def ofJson? (value : Json) : Option Manifest := do
  match ← Json.fields? ["id", "name", "idRanges", "idRange", "preprocessorSymbols"]
      value with
  | [id, name, idRanges, idRange, symbols] =>
      return {
        id := ← Json.orDefault? none (Json.nullable? Json.text?) id
        name := ← Json.orDefault? none (Json.nullable? Json.text?) name
        idRanges := ← Json.orDefault? [] (Json.listOf? IdRange.ofJson?) idRanges
        idRange := ← Json.orDefault? none (Json.nullable? IdRange.ofJson?) idRange
        symbols := ← Json.orDefault? [] (Json.listOf? Json.text?) symbols }
  | _ => none

/-- A text without the byte-order mark at its start. -/
def withoutMark (text : String) : String :=
  match text.toList with
  | first :: rest => if first = Text.byteOrderMark then String.ofList rest else text
  | [] => text

/-- Reads a manifest. -/
def ofText? (text : String) : Option Manifest :=
  (Json.read? (withoutMark text)).bind ofJson?

/-- The ranges from which an app takes its ids. -/
def ranges (manifest : Manifest) : List IdRange :=
  manifest.idRanges ++ manifest.idRange.toList

/-- The name of an app, or else its id, or else a stand-in. -/
def displayName (manifest : Manifest) : String :=
  (manifest.name.orElse fun _ => manifest.id).getD "<unnamed app>"

/-- The symbols at the start of each source text of an app: those of its manifest and
those that are defined for one run. -/
def initialSymbols (manifest : Manifest) (defines : List String) : SymbolTable :=
  SymbolTable.ofDefined (manifest.symbols ++ defines)

end Manifest

end ObjectIds
