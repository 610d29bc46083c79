import ObjectIds.Text.Letters

/-!
# Object kinds

The language has a fixed set of object kinds.  A declaration starts with the keyword
of its kind, and the kind says what its header holds and in which order.  The table
of kinds is the only place that knows about individual kinds.
-/

namespace ObjectIds

/-- A part of the header of a declaration. -/
inductive HeaderPart where
  /-- A number that is not zero. -/
  | id
  /-- A plain or a quoted name. -/
  | name
  /-- The names of interfaces after `implements`, or nothing. -/
  | interfaces
  /-- A keyword and the name of the object that this one extends. -/
  | target (keyword : String)
  /-- A body between braces. -/
  | body
deriving DecidableEq, Repr

/-- A kind of object: its keyword in lower case and the parts of its headers. -/
structure ObjectKind where
  keyword : String
  parts : List HeaderPart
deriving DecidableEq, Repr

namespace ObjectKind

/-- A kind whose objects have an id and may implement interfaces. -/
def implementing (keyword : String) : ObjectKind :=
  ⟨keyword, [.id, .name, .interfaces, .body]⟩

/-- A kind whose objects have an id and a name. -/
def numbered (keyword : String) : ObjectKind := ⟨keyword, [.id, .name, .body]⟩

/-- A kind whose objects have an id and extend another object. -/
def extending (keyword : String) : ObjectKind :=
  ⟨keyword, [.id, .name, .target "extends", .body]⟩

/-- A kind whose objects have a name only. -/
def named (keyword : String) : ObjectKind := ⟨keyword, [.name, .body]⟩

/-- A kind whose objects have a name and customize another object. -/
def customizing (keyword : String) : ObjectKind :=
  ⟨keyword, [.name, .target "customizes", .body]⟩

/-- A kind whose objects have neither an id nor a name. -/
def anonymous (keyword : String) : ObjectKind := ⟨keyword, [.body]⟩

/-- Every kind of object. -/
def all : List ObjectKind :=
  [implementing "codeunit", implementing "enum",
    numbered "table", numbered "page", numbered "report", numbered "query",
    numbered "xmlport", numbered "permissionset",
    extending "tableextension", extending "pageextension",
    extending "reportextension", extending "enumextension",
    extending "permissionsetextension",
    named "interface", named "controladdin", named "profile", named "entitlement",
    customizing "pagecustomization",
    anonymous "dotnet"]

/-- The kind with a keyword, in any letter case. -/
def ofKeyword? (word : String) : Option ObjectKind :=
  all.find? fun kind => Text.equalIgnoringCase kind.keyword word

/-- Whether objects of a kind have an id. -/
def hasId (kind : ObjectKind) : Bool := kind.parts.contains .id

/-- Whether objects of a kind have a name. -/
def hasName (kind : ObjectKind) : Bool := kind.parts.contains .name

/-- The keywords of different kinds differ. -/
theorem keywords_nodup : (all.map keyword).Nodup := by decide

end ObjectKind

end ObjectIds
