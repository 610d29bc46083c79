import ObjectIds.Text.Letters

/-!
# Paths

A path is kept as it is spelled.  Slashes divide it into segments; a slash at its start
makes it absolute.  Empty segments and `.` name nothing, except that a relative path
may start with `.`.  Only a path that is short enough and holds no null character can
be followed.  All operations here look at the spelling only.
-/

namespace ObjectIds

/-- The spelling of the place of a file or directory. -/
structure Path where
  text : String
deriving DecidableEq, Repr, Inhabited

namespace Path

/-- The number of bytes that a path may have. -/
def sizeLimit : Nat := 4095

/-- Whether a path can be followed at all, whatever there is. -/
def canBeFollowed (path : Path) : Bool :=
  decide (path.text.utf8ByteSize ≤ sizeLimit) && !path.text.toList.contains '\x00'

/-- The segments of a list between separators. -/
def split {α : Type} [DecidableEq α] (separator : α) : List α → List (List α)
  | [] => [[]]
  | item :: rest =>
      if item = separator then [] :: split separator rest
      else
        match split separator rest with
        | [] => [[item]]
        | segment :: segments => (item :: segment) :: segments

/-- Whether a path starts with a slash. -/
def isAbsolute (path : Path) : Bool := path.text.front? == some '/'

/-- The segments of a path, without the slash that makes it absolute. -/
def segments (path : Path) : List String :=
  let text := path.text.toList
  (split '/' (if path.isAbsolute then text.drop 1 else text)).map String.ofList

/-- The path with given segments. -/
def ofSegments (absolute : Bool) (segments : List String) : Path :=
  ⟨(if absolute then "/" else "") ++ "/".intercalate segments⟩

/-- The path of a name in a directory. -/
def join (directory : Path) (name : String) : Path :=
  match directory.text.back? with
  | none => ⟨name⟩
  | some last =>
      if last = '/' then ⟨directory.text ++ name⟩
      else ⟨directory.text ++ "/" ++ name⟩

/-- The path below a directory along several names. -/
def below (directory : Path) (names : List String) : Path :=
  names.foldl join directory

/-- Segments, given last first, without those at the end that name nothing. -/
def trim (absolute : Bool) : List String → List String
  | [] => []
  | segment :: earlier =>
      if segment = "" ∨ segment = "." ∧ (absolute = true ∨ earlier ≠ []) then
        trim absolute earlier
      else segment :: earlier

/-- Segments, given last first, without the last that names something. -/
def pop? (absolute : Bool) (segments : List String) : Option (List String) :=
  match trim absolute segments with
  | [] => none
  | _ :: earlier => some (trim absolute earlier)

theorem trim_suffix (absolute : Bool) (segments : List String) :
    trim absolute segments <:+ segments := by
  induction segments with
  | nil => simp [trim]
  | cons segment earlier ih =>
      unfold trim
      split
      · exact ih.trans (List.suffix_cons segment earlier)
      · exact List.suffix_refl _

theorem length_lt_of_pop? {absolute : Bool} {segments earlier : List String}
    (popped : pop? absolute segments = some earlier) :
    earlier.length < segments.length := by
  unfold pop? at popped
  split at popped
  · simp at popped
  · rename_i last remaining isTrimmed
    simp only [Option.some.injEq] at popped
    have trimmed := (trim_suffix absolute segments).length_le
    have trimmedAgain := (trim_suffix absolute remaining).length_le
    rw [isTrimmed, List.length_cons] at trimmed
    rw [← popped]
    omega

/-- The paths that are left when names are taken from the end, one after the other.
Segments are given last first. -/
def ancestorsAfter (absolute : Bool) (segments : List String) : List Path :=
  match isPopped : pop? absolute segments with
  | none => []
  | some earlier =>
      have := length_lt_of_pop? isPopped
      ofSegments absolute earlier.reverse :: ancestorsAfter absolute earlier
termination_by segments.length

/-- A path and the paths that are left when names are taken from its end, one after
the other. -/
def ancestors (path : Path) : List Path :=
  path :: ancestorsAfter path.isAbsolute path.segments.reverse

/-- The last segment of a path. -/
def name (path : Path) : String := path.segments.getLastD ""

/-- What comes after the last point in a name, unless that point is its first
character. -/
def extension? (name : String) : Option String :=
  let backwards := name.toList.reverse
  match backwards.dropWhile (· != '.') with
  | '.' :: _ :: _ => some (String.ofList (backwards.takeWhile (· != '.')).reverse)
  | _ => none

end Path

end ObjectIds
