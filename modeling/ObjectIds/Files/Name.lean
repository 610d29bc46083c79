import ObjectIds.Files.Path

/-!
# Names of entries

The name of an entry of a directory is made of bytes.  Mostly these encode a text, and
only then can a path spell the name.  The target of a link is made of bytes too, and
its segments may be names that no path spells.
-/

namespace ObjectIds

/-- The name of an entry: a text, or bytes that encode none. -/
inductive FileName where
  | text (name : String)
  | bytes (name : ByteArray) (noText : String.fromUTF8? name = none)

namespace FileName

instance : DecidableEq FileName
  | .text first, .text second =>
      decidable_of_iff (first = second) ⟨congrArg text, text.inj⟩
  | .bytes first _, .bytes second _ =>
      match ByteArray.decEq first second with
      | isTrue same => isTrue (by subst same; rfl)
      | isFalse apart => isFalse fun same => apart (bytes.inj same)
  | .text _, .bytes _ _ => isFalse nofun
  | .bytes _ _, .text _ => isFalse nofun

instance : Coe String FileName := ⟨FileName.text⟩

/-- The number of bytes that a name may have. -/
def sizeLimit : Nat := 255

/-- The number of bytes of a name. -/
def size : FileName → Nat
  | .text name => name.utf8ByteSize
  | .bytes name _ => name.size

/-- The name that is made of some bytes. -/
def ofBytes (name : ByteArray) : FileName :=
  match noText : String.fromUTF8? name with
  | some name => .text name
  | none => .bytes name noText

end FileName

/-- The spelling of the place to which a link leads. -/
structure LinkTarget where
  bytes : ByteArray

namespace LinkTarget

/-- The byte that encodes a slash. -/
def slash : UInt8 := 47

/-- Whether a target starts with a slash. -/
def isAbsolute (target : LinkTarget) : Bool :=
  target.bytes.data.toList.head? == some slash

/-- The place at which the way along a target starts, when the link is in the directory at
a place. -/
def start (target : LinkTarget) (place : List FileName) : List FileName :=
  if target.isAbsolute then [] else place

/-- The segments of a target, without the slash that makes it absolute. -/
def segments (target : LinkTarget) : List FileName :=
  let bytes := target.bytes.data.toList
  (Path.split slash (if target.isAbsolute then bytes.drop 1 else bytes)).map
    fun segment => FileName.ofBytes ⟨segment.toArray⟩

end LinkTarget

end ObjectIds
