import ObjectIds.Consumption
import ObjectIds.Declaration
import ObjectIds.IdRange

/-!
# Diagnostics about object ids

Two things can be wrong with the id of a declaration: the back end has no record of it
for its kind, or it lies outside the ranges of the app.  Declarations without an id are
never at fault.
-/

namespace ObjectIds

/-- How serious a diagnostic is. -/
inductive Severity where
  | error
  | warning
  | hint
deriving DecidableEq, Repr

/-- A message about a span of a source text, with an optional hint what to do. -/
structure Diagnostic where
  severity : Severity
  message : String
  span : Span
  hint : Option String
deriving DecidableEq, Repr

namespace Severity

/-- The name of a severity. -/
def label : Severity → String
  | .error => "error"
  | .warning => "warning"
  | .hint => "hint"

end Severity

namespace Diagnostic

/-- The span of the id of a declaration. -/
def idSpan (declaration : Declaration) : Span :=
  declaration.idSpan.getD Span.nowhere

/-- Whether the back end has recorded an id for a kind. -/
def isRecorded (consumption : Consumption) (kind : String) (id : UInt32) : Bool :=
  (consumption.idsOf? kind).any (·.contains id)

/-- The diagnostic about a declaration whose id has no record. -/
def unsynchronized? (consumption : Consumption) (declaration : Declaration) :
    Option Diagnostic :=
  declaration.id.bind fun id =>
    if isRecorded consumption declaration.kind id then none
    else some {
      severity := .warning
      message := declaration.kind ++ " " ++ Text.decimalText id ++ " is not synchronized"
      span := idSpan declaration
      hint := some "Synchronize object ids with the back end to record this id" }

/-- The diagnostics about declarations whose ids have no record. -/
def unsynchronized (consumption : Consumption) (declarations : List Declaration) :
    List Diagnostic :=
  declarations.filterMap (unsynchronized? consumption)

/-- The diagnostic about a declaration whose id is outside the ranges. -/
def outOfRange? (ranges : List IdRange) (declaration : Declaration) :
    Option Diagnostic :=
  declaration.id.bind fun id =>
    if IdRange.anyContains ranges id then none
    else some {
      severity := .warning
      message := declaration.kind ++ " " ++ Text.decimalText id ++
        " is outside the app's id ranges"
      span := idSpan declaration
      hint := none }

/-- The diagnostics about declarations whose ids are outside the ranges.  Without
ranges every id is allowed. -/
def outOfRange (ranges : List IdRange) (declarations : List Declaration) :
    List Diagnostic :=
  if ranges.isEmpty then [] else declarations.filterMap (outOfRange? ranges)

end Diagnostic

end ObjectIds
