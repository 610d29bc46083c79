import ObjectIds.ObjectKind
import ObjectIds.Text.Location

/-!
# Object declarations

A declaration is what the header of an object says: its kind, its id and name, the
interfaces that it implements, the object that it extends or customizes, and where
these stand in the source.  The body of the object is not part of it.
-/

namespace ObjectIds

/-- The declaration of an object.  The kind is a keyword in lower case; `position` is
where that keyword starts. -/
structure Declaration where
  kind : String
  id : Option UInt32
  name : Option String
  interfaces : List String
  target : Option String
  position : Position
  idSpan : Option Span
  nameSpan : Option Span
deriving DecidableEq, Repr

namespace Declaration

/-- A declaration of which only the keyword has been read. -/
def started (kind : ObjectKind) (position : Position) : Declaration :=
  ⟨kind.keyword, none, none, [], none, position, none, none⟩

/-- Whether a declaration has what every declaration of a kind must have. -/
def isComplete (declaration : Declaration) (kind : ObjectKind) : Bool :=
  (!kind.hasId || declaration.id.isSome) &&
    (!kind.hasName || declaration.name.isSome)

end Declaration

end ObjectIds
