import ObjectIds.Consumption
import ObjectIds.Json.Decode
import ObjectIds.Json.Document

/-!
# Consumption documents

The recorded ids are read from a JSON object that gives the ids of each key.  When a
key is repeated, its last value counts.
-/

namespace ObjectIds

namespace Consumption

/-- Reads the ids of a key. -/
def entry? (member : String × Json) : Option (String × List UInt32) :=
  (Json.listOf? Json.word? member.2).map (member.1, ·)

/-- Reads recorded ids from a JSON value. -/
def ofJson? : Json → Option Consumption
  | .object members => do
      let named ← Json.named? members
      return ofList (← named.mapM entry?)
  | _ => none

/-- Reads recorded ids. -/
def ofText? (text : String) : Option Consumption :=
  (Json.read? text).bind ofJson?

end Consumption

end ObjectIds
