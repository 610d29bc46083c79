import Mathlib.Data.List.Infix
import Mathlib.Data.Option.Basic
import ObjectIds.Manifest.Discovery
import ObjectIds.Proofs.PassedDirectories
import ObjectIds.Proofs.PathSegments

/-!
# Which app a path belongs to

The search for a manifest goes back along the spelling of a path, so it looks at the directories
through which the path leads, the last one first.  It finds the innermost app around the path
unless it comes before upon a manifest in a directory that the path enters and leaves again.
-/

namespace ObjectIds

open FileTree

/-- Whether the directory at a place holds a manifest. -/
def FileTree.holdsManifest (root : List (FileName × FileTree)) (place : List FileName) : Bool :=
  match treeAt? root (FileName.text Manifest.fileName :: place) with
  | some (.file _) => true
  | some (.directory _) | some (.link _) | none => false

/-- The directories around a place in the directory at another one, innermost first. -/
def FileTree.around (base place : List FileName) : List (List FileName) :=
  place.tails.filter fun outer => decide (base <:+ outer)

theorem Entry.isFile_eq (entry : Entry) :
    entry.isFile = match entry.tree? with
      | some (.file _) => true
      | some (.directory _) | some (.link _) | none => false := by
  cases entry <;> rfl

namespace Path

/-- Segments that name nothing do not change where the way leads. -/
theorem find?_passed_trim (absolute : Bool) {root : List (FileName × FileTree)}
    {base place : List FileName} {segments : List String}
    (leads : Leads root base (segments.map .text) place) (holds : List FileName → Bool) :
    Leads root base ((trim absolute segments).map .text) place ∧
      (passed root base ((trim absolute segments).map .text)).find? holds =
        (passed root base (segments.map .text)).find? holds := by
  induction segments with
  | nil => exact ⟨leads, rfl⟩
  | cons segment earlier ih =>
      rw [trim]
      split
      · rename_i isTrimmed
        have blank : FileName.text segment = "" ∨ FileName.text segment = "." :=
          isTrimmed.imp (congrArg _) fun isPoint => congrArg _ isPoint.1
        have leadsEarlier := leads.of_blank blank
        obtain ⟨leadsTrimmed, same⟩ := ih leadsEarlier
        refine ⟨leadsTrimmed, same.trans ?_⟩
        obtain ⟨others, isPassed⟩ := leadsEarlier.exists_passed_eq
        rw [List.map_cons] at leads ⊢
        rw [leads.passed_cons, isPassed]
        cases isHeld : holds place <;> simp [isHeld]
      · exact ⟨leads, rfl⟩

variable {absolute : Bool}

theorem trim_trim (segments : List String) :
    trim absolute (trim absolute segments) = trim absolute segments := by
  induction segments with
  | nil => rfl
  | cons segment earlier ih =>
      by_cases isTrimmed : segment = "" ∨ segment = "." ∧ (absolute = true ∨ earlier ≠ [])
      · rw [trim, if_pos isTrimmed, ih]
      · rw [trim, if_neg isTrimmed, trim, if_neg isTrimmed]

theorem ancestorsAfter_eq (segments : List String) :
    ancestorsAfter absolute segments =
      match trim absolute segments with
      | [] => []
      | _ :: earlier =>
          ofSegments absolute (trim absolute earlier).reverse ::
            ancestorsAfter absolute (trim absolute earlier) := by
  rw [ancestorsAfter.eq_def]
  split
  · rename_i isPopped
    rw [pop?] at isPopped
    split at isPopped <;> simp_all
  · rename_i isPopped
    rw [pop?] at isPopped
    split at isPopped <;> simp_all

theorem suffix_tail_of_cons_suffix {α : Type} {first : α} {rest items : List α}
    (isSuffix : first :: rest <:+ items) : rest <:+ items.tail := by
  cases items with
  | nil => exact absurd (List.suffix_nil.1 isSuffix) (List.cons_ne_nil first rest)
  | cons item items =>
      rcases List.suffix_cons_iff.1 isSuffix with same | isLater
      · rw [(List.cons.inj same).2]
        exact List.suffix_refl _
      · exact (List.suffix_cons first rest).trans isLater

/-- The paths above a path are spelled with its first segments. -/
theorem exists_of_mem_ancestorsAfter {segments : List String} {directory : Path}
    (member : directory ∈ ancestorsAfter absolute segments) :
    ∃ earlier, earlier <:+ segments.tail ∧ directory = ofSegments absolute earlier.reverse := by
  fun_induction ancestorsAfter absolute segments with
  | case1 => contradiction
  | case2 segments earlier isPopped shorter ih =>
      have isSuffix : earlier <:+ segments.tail := by
        unfold pop? at isPopped
        split at isPopped
        · contradiction
        · rename_i last remaining isTrimmed
          obtain rfl := Option.some.inj isPopped
          exact (trim_suffix absolute remaining).trans
            (suffix_tail_of_cons_suffix (isTrimmed ▸ trim_suffix absolute segments))
      rcases List.mem_cons.1 member with rfl | isLater
      · exact ⟨earlier, isSuffix, rfl⟩
      · obtain ⟨before, isBefore, isDirectory⟩ := ih isLater
        exact ⟨before, isBefore.trans ((List.tail_suffix earlier).trans isSuffix), isDirectory⟩

end Path

namespace Manifest

variable {system : FileSystem} {absolute : Bool} {segments : List String}
  {place : List FileName}

/-- What is found where the manifest of a directory should be is what stands there. -/
theorem tree?_pathIn (noLinks : FreeOfLinks system.root (system.start absolute))
    (leads : Leads system.root (system.start absolute) (segments.map .text) place)
    (isBelow : system.start absolute <:+ place)
    (spelled : Path.Spelled absolute segments.reverse)
    (followed : (pathIn (Path.ofSegments absolute segments.reverse)).canBeFollowed = true) :
    (system.files (pathIn (Path.ofSegments absolute segments.reverse))).tree? =
      treeAt? system.root (FileName.text fileName :: place) := by
  have noSlash : '/' ∉ fileName.toList := by decide
  have notEmpty : fileName ≠ "" := by decide
  have isName : IsName (FileName.text fileName) := ⟨by decide, by decide, by decide⟩
  obtain ⟨kept, isKept, keptSpelled, isJoined⟩ := spelled.exists_join_eq noSlash notEmpty
  have leadsKept :
      Leads system.root (system.start absolute) (kept.map FileName.text).reverse place := by
    rw [← List.map_reverse]
    rcases isKept with same | isBlank
    · rwa [← same, List.reverse_reverse]
    · rw [← List.reverse_reverse segments, isBlank, List.reverse_append] at leads
      exact leads.of_blank (.inl rfl)
  have isPath : pathIn (Path.ofSegments absolute segments.reverse) =
      Path.ofSegments absolute (kept ++ [fileName]) := isJoined
  have textNotEmpty : (Path.ofSegments absolute (kept ++ [fileName])).text ≠ "" := by
    intro isEmpty
    obtain ⟨character, -, isLast⟩ : ∃ character, character ≠ '/' ∧
        (Path.ofSegments absolute (kept ++ [fileName])).text.toList.getLast? = some character :=
      Path.exists_getLast?_text noSlash notEmpty
    rw [isEmpty] at isLast
    contradiction
  have isPlace := leadsKept.locate_append linkLimit [FileName.text fileName]
  rw [List.reverse_reverse, locate_name system.root linkLimit place [] isName] at isPlace
  rw [isPath] at followed ⊢
  rw [FileSystem.tree?_files followed textNotEmpty, FileSystem.placeOf?,
    keptSpelled.isAbsolute_eq, keptSpelled.segments_ofSegments (by simp), List.map_append,
    List.map_singleton, isPlace]
  cases isTree : treeAt? system.root (FileName.text fileName :: place) with
  | none => rfl
  | some tree =>
      rcases noLinks.file_or_directory (isBelow.trans (List.suffix_cons _ _)) isTree with
        ⟨content, rfl⟩ | ⟨inner, rfl, -⟩
      · simp [isTree]
      · simp [isTree]

/-- The search sees a manifest in a directory exactly when there is one. -/
theorem isFile_pathIn (noLinks : FreeOfLinks system.root (system.start absolute))
    (leads : Leads system.root (system.start absolute) (segments.map .text) place)
    (isBelow : system.start absolute <:+ place)
    (spelled : Path.Spelled absolute segments.reverse)
    (followed : (pathIn (Path.ofSegments absolute segments.reverse)).canBeFollowed = true) :
    (system.files (pathIn (Path.ofSegments absolute segments.reverse))).isFile =
      holdsManifest system.root place := by
  rw [Entry.isFile_eq, tree?_pathIn noLinks leads isBelow spelled followed, holdsManifest]

theorem placeOf?_ofSegments
    (leads : Leads system.root (system.start absolute) (segments.map .text) place)
    (spelled : Path.Spelled absolute segments.reverse) :
    system.placeOf? (Path.ofSegments absolute segments.reverse) = some place := by
  rw [FileSystem.placeOf?, spelled.isAbsolute_eq]
  by_cases isNil : segments.reverse = []
  · obtain rfl := List.reverse_eq_nil_iff.1 isNil
    cases leads
    have isText : (Path.ofSegments absolute ([] : List String).reverse).segments = [""] := by
      cases absolute <;> decide
    rw [isText]
    exact (locate_blank _ _ _ [] (.inl rfl)).trans (locate_nil _ _ _)
  · rw [spelled.segments_ofSegments isNil, List.map_reverse, leads.locate_eq]

/-- The search goes up from the last name in a spelling, through the directories that the way to
that name passes. -/
theorem find?_ancestorsAfter {name : String} {earlier : List String}
    (noLinks : FreeOfLinks system.root (system.start absolute))
    (isTrimmed : Path.trim absolute segments = name :: earlier)
    (leads : Leads system.root (system.start absolute) (earlier.map .text) place)
    (inside : ∀ outer ∈ passed system.root (system.start absolute) (earlier.map .text),
      system.start absolute <:+ outer)
    (spelled : Path.Spelled absolute earlier.reverse)
    (followed : ∀ directory ∈ Path.ancestorsAfter absolute segments,
      (pathIn directory).canBeFollowed = true) :
    ((Path.ancestorsAfter absolute segments).find? fun directory =>
        (system.files (pathIn directory)).isFile).map system.placeOf? =
      ((passed system.root (system.start absolute) (earlier.map .text)).find?
        (holdsManifest system.root)).map some := by
  -- The induction is on the number of segments that are left, since each step trims them.
  induction isLength : earlier.length using Nat.strongRecOn
    generalizing segments name earlier place with
  | ind length ih =>
      obtain ⟨leadsTrimmed, same⟩ :=
        Path.find?_passed_trim absolute leads (holdsManifest system.root)
      have isSuffix := Path.trim_suffix absolute earlier
      have trimmedSpelled := spelled.of_prefix (List.reverse_prefix.2 isSuffix)
      have isBelow := inside place (leads.mem_passed_of_earlier (List.suffix_refl _))
      rw [Path.ancestorsAfter_eq, isTrimmed] at followed ⊢
      obtain ⟨firstFollowed, othersFollowed⟩ := List.forall_mem_cons.1 followed
      have isSeen := isFile_pathIn noLinks leadsTrimmed isBelow trimmedSpelled firstFollowed
      have isPlace := placeOf?_ofSegments leadsTrimmed trimmedSpelled
      rw [← same, List.find?_cons, isSeen]
      obtain ⟨others, isPassed⟩ := leadsTrimmed.exists_passed_eq
      cases isHeld : holdsManifest system.root place with
      | true => simp [isPassed, isHeld, isPlace]
      | false =>
          simp only
          cases isLeft : Path.trim absolute earlier with
          | nil =>
              rw [isLeft] at leadsTrimmed
              cases leadsTrimmed
              simp [Path.ancestorsAfter_eq, Path.trim, passed_nil, isHeld]
          | cons last before =>
              rw [isLeft] at leadsTrimmed trimmedSpelled othersFollowed isSuffix
              have isBefore := List.suffix_cons last before
              obtain ⟨outer, leadsBefore⟩ := leadsTrimmed.of_suffix (isBefore.map _)
              have shorter : before.length < length := by
                have fewer := isSuffix.length_le
                rw [List.length_cons] at fewer
                omega
              have isTrimmedAgain : Path.trim absolute (last :: before) = last :: before := by
                rw [← isLeft, Path.trim_trim]
              have beforeSpelled := trimmedSpelled.of_prefix (List.reverse_prefix.2 isBefore)
              have beforeInside := fun outer isPassed =>
                inside outer (passed_subset ((isBefore.trans isSuffix).map _) isPassed)
              rw [List.map_cons] at leadsTrimmed ⊢
              rw [leadsTrimmed.passed_cons, List.find?_cons, isHeld]
              exact ih before.length shorter isTrimmedAgain leadsBefore beforeInside beforeSpelled
                othersFollowed rfl

/-- The search goes up from a directory through the directories that the way to it passes. -/
theorem find?_ancestors (noLinks : FreeOfLinks system.root (system.start absolute))
    (leads : Leads system.root (system.start absolute) (segments.map .text) place)
    (inside : ∀ outer ∈ passed system.root (system.start absolute) (segments.map .text),
      system.start absolute <:+ outer)
    (spelled : Path.Spelled absolute segments.reverse)
    (followed : ∀ directory ∈ Path.ofSegments absolute segments.reverse ::
      Path.ancestorsAfter absolute segments, (pathIn directory).canBeFollowed = true) :
    ((Path.ofSegments absolute segments.reverse :: Path.ancestorsAfter absolute segments).find?
        fun directory => (system.files (pathIn directory)).isFile).map system.placeOf? =
      ((passed system.root (system.start absolute) (segments.map .text)).find?
        (holdsManifest system.root)).map some := by
  obtain ⟨firstFollowed, othersFollowed⟩ := List.forall_mem_cons.1 followed
  obtain ⟨leadsTrimmed, same⟩ :=
    Path.find?_passed_trim absolute leads (holdsManifest system.root)
  have isBelow := inside place (leads.mem_passed_of_earlier (List.suffix_refl _))
  rw [List.find?_cons, isFile_pathIn noLinks leads isBelow spelled firstFollowed, ← same]
  obtain ⟨others, isPassed⟩ := leadsTrimmed.exists_passed_eq
  cases isHeld : holdsManifest system.root place with
  | true => simp [isPassed, isHeld, placeOf?_ofSegments leads spelled]
  | false =>
      simp only
      cases isTrimmed : Path.trim absolute segments with
      | nil =>
          rw [isTrimmed] at leadsTrimmed
          cases leadsTrimmed
          simp [Path.ancestorsAfter_eq, isTrimmed, passed_nil, isHeld]
      | cons name earlier =>
          rw [isTrimmed] at leadsTrimmed
          have isEarlier := List.suffix_cons name earlier
          obtain ⟨outer, leadsEarlier⟩ := leadsTrimmed.of_suffix (isEarlier.map _)
          have isSuffix := isEarlier.trans (isTrimmed ▸ Path.trim_suffix absolute segments)
          rw [List.map_cons] at leadsTrimmed ⊢
          rw [leadsTrimmed.passed_cons, List.find?_cons, isHeld]
          exact find?_ancestorsAfter noLinks isTrimmed leadsEarlier
            (fun outer isPassed => inside outer (passed_subset (isSuffix.map _) isPassed))
            (spelled.of_prefix (List.reverse_prefix.2 isSuffix)) othersFollowed

/-- The directory in which a path is: the one that it names, or the one around the file that it
names. -/
inductive StartsAt (system : FileSystem) (start : Path) : List FileName → Prop
  | directory {place : List FileName} {entries : List (FileName × FileTree)}
      (found : system.files start = .directory entries)
      (isPlace : system.placeOf? start = some place) : StartsAt system start place
  | file {name : FileName} {place : List FileName} {content : ByteArray}
      (found : system.files start = .file content)
      (isPlace : system.placeOf? start = some (name :: place)) : StartsAt system start place

/-- The segments of the directory in which a search starts, last first. -/
def searchedSegments (files : Files) (start : Path) : List String :=
  if (files start).isFile then start.segments.reverse.tail else start.segments.reverse

/-- The directories that the way to the start of a search passes, the last one first. -/
def passedPlaces (system : FileSystem) (start : Path) : List (List FileName) :=
  passed system.root (system.start start.isAbsolute)
    ((searchedSegments system.files start).map .text)

/-- A search starts in the directory to which its segments lead, and finds the last manifest
that the way there passes. -/
theorem discover?_passed {start : Path}
    (noLinks : FreeOfLinks system.root (system.start start.isAbsolute))
    (inside : ∀ outer ∈ passed system.root (system.start start.isAbsolute)
      (start.segments.reverse.map .text), system.start start.isAbsolute <:+ outer)
    (isFound : (system.files start).tree?.isSome = true)
    (followed : ∀ directory ∈ candidates system.files start,
      (pathIn directory).canBeFollowed = true) :
    ∃ home, StartsAt system start home ∧
      Leads system.root (system.start start.isAbsolute)
        ((searchedSegments system.files start).map .text) home ∧
      (discover? system.files start).map system.placeOf? =
        ((passedPlaces system start).find? (holdsManifest system.root)).map some := by
  obtain ⟨tree, isTree⟩ := Option.isSome_iff_exists.1 isFound
  obtain ⟨-, -, place, isPlace, stands⟩ := FileSystem.of_tree?_files isTree
  obtain ⟨-, spelled, isPath⟩ := Path.exists_spelled start
  have isStart := system.exists_directory_start start.isAbsolute
  rw [← List.reverse_reverse start.segments] at spelled isPath
  rw [List.map_reverse] at inside
  rcases leads_of_locate noLinks (by rwa [List.append_nil]) .nil isPlace with
    leads | ⟨name, before, outer, content, isSplit, leads, isName, rfl, isContent⟩
  · rw [List.append_nil, ← List.map_reverse] at leads
    rw [← List.map_reverse] at inside
    obtain ⟨entries, isDirectory⟩ := leads.directory isStart
    have found : system.files start = .directory entries :=
      Entry.tree?_eq_directory_iff.1 (isTree.trans (stands.symm.trans isDirectory))
    have noFile : (system.files start).isFile = false := by rw [found]; rfl
    rw [candidates, noFile, Path.ancestors] at followed
    rw [discover?, candidates, passedPlaces, searchedSegments, noFile, Path.ancestors]
    refine ⟨place, .directory found isPlace, leads, ?_⟩
    have search := find?_ancestors noLinks leads inside spelled (by rwa [isPath])
    rwa [isPath] at search
  · rw [List.append_nil, ← List.map_reverse] at isSplit
    obtain ⟨last, earlier, isReverse, rfl, rfl⟩ := List.map_eq_cons_iff.1 isSplit
    have found : system.files start = .file content :=
      Entry.tree?_eq_file_iff.1 (isTree.trans (stands.symm.trans isContent))
    have isFile : (system.files start).isFile = true := by rw [found]; rfl
    rw [candidates, isFile, Path.ancestors, isReverse] at followed
    rw [discover?, candidates, passedPlaces, searchedSegments, isFile, Path.ancestors, isReverse]
    refine ⟨outer, .file found isPlace, leads, ?_⟩
    have isTrimmed : Path.trim start.isAbsolute (last :: earlier) = last :: earlier := by
      rw [Path.trim, if_neg]
      rintro (rfl | ⟨rfl, -⟩)
      · exact isName.1 (.inl rfl)
      · exact isName.1 (.inr rfl)
    rw [isReverse] at spelled
    have isEarlier := List.suffix_cons last earlier
    rw [← List.map_reverse, isReverse] at inside
    exact find?_ancestorsAfter noLinks isTrimmed leads
      (fun outer isPassed => inside outer (passed_subset (isEarlier.map _) isPassed))
      (spelled.of_prefix (List.reverse_prefix.2 isEarlier)) followed

/-- A directory at which a search looks is spelled with the first segments of its start. -/
theorem exists_of_mem_candidates {files : Files} {start directory : Path}
    (member : directory ∈ candidates files start) :
    ∃ earlier, earlier <:+ searchedSegments files start ∧
      Path.Spelled start.isAbsolute earlier.reverse ∧
      directory = Path.ofSegments start.isAbsolute earlier.reverse := by
  obtain ⟨-, spelled, isPath⟩ := Path.exists_spelled start
  have isSpelled {earlier : List String} (isSuffix : earlier <:+ start.segments.reverse) :
      Path.Spelled start.isAbsolute earlier.reverse := by
    refine spelled.of_prefix ?_
    rw [← List.reverse_reverse start.segments]
    exact List.reverse_prefix.2 isSuffix
  have tailSuffix := List.tail_suffix start.segments.reverse
  unfold candidates at member
  unfold searchedSegments
  split at member
  · rename_i isFile
    rw [if_pos isFile]
    obtain ⟨earlier, isSuffix, rfl⟩ := Path.exists_of_mem_ancestorsAfter member
    exact ⟨earlier, isSuffix, isSpelled (isSuffix.trans tailSuffix), rfl⟩
  · rename_i noFile
    rw [if_neg noFile]
    rcases List.mem_cons.1 member with rfl | isAbove
    · refine ⟨directory.segments.reverse, List.suffix_refl _, isSpelled (List.suffix_refl _), ?_⟩
      rw [List.reverse_reverse, isPath]
    · obtain ⟨earlier, isSuffix, rfl⟩ := Path.exists_of_mem_ancestorsAfter isAbove
      exact ⟨earlier, isSuffix.trans tailSuffix, isSpelled (isSuffix.trans tailSuffix), rfl⟩

/-- What is found where the manifest of a directory should be that a search looks at is what
stands in this directory. -/
theorem exists_tree?_pathIn {start directory : Path} {home : List FileName}
    (noLinks : FreeOfLinks system.root (system.start start.isAbsolute))
    (leads : Leads system.root (system.start start.isAbsolute)
      ((searchedSegments system.files start).map .text) home)
    (inside : ∀ outer ∈ passedPlaces system start, system.start start.isAbsolute <:+ outer)
    (member : directory ∈ candidates system.files start)
    (followed : (pathIn directory).canBeFollowed = true) :
    ∃ place, system.placeOf? directory = some place ∧
      (system.files (pathIn directory)).tree? =
        treeAt? system.root (FileName.text fileName :: place) := by
  obtain ⟨earlier, isSuffix, spelled, rfl⟩ := exists_of_mem_candidates member
  obtain ⟨place, leadsEarlier⟩ := leads.of_suffix (isSuffix.map _)
  have isBelow := inside place (leadsEarlier.mem_passed_of_earlier (isSuffix.map _))
  exact ⟨place, placeOf?_ofSegments leadsEarlier spelled,
    tree?_pathIn noLinks leadsEarlier isBelow spelled followed⟩

/-- Reads a manifest from the bytes of the file at a path. -/
def ofContent (path : Path) (content : ByteArray) : Except Failure Manifest :=
  match String.fromUTF8? content with
  | none => .error (.manifestUnreadable path)
  | some text =>
      match ofText? text with
      | none => .error (.manifestMalformed path)
      | some manifest => .ok manifest

theorem load_of_discover?_eq_none {files : Files} {start : Path}
    (notDiscovered : discover? files start = none) : load files start = .ok .empty := by
  rw [load, notDiscovered]

theorem load_of_discover?_eq_some {files : Files} {start directory : Path}
    (discovered : discover? files start = some directory) :
    ∃ content, files (pathIn directory) = .file content ∧
      load files start = ofContent (pathIn directory) content := by
  have isFile : (files (pathIn directory)).isFile = true := by
    simpa using List.find?_some discovered
  cases found : files (pathIn directory) with
  | missing | obstructed | directory => simp [found, Entry.isFile] at isFile
  | file content =>
      refine ⟨content, rfl, ?_⟩
      simp only [load, discovered, find, found, read, Entry.text?, ofContent]
      cases String.fromUTF8? content with
      | none => rfl
      | some text => cases isManifest : ofText? text <;> simp [isManifest, Except.map]

end Manifest

section Innermost

variable {root : List (FileName × FileTree)} {base segments home : List FileName}
  {holds : List FileName → Bool}

/-- The first tail that holds is one inside which no other one does. -/
theorem find?_tails_eq_some {inner : List FileName} (isHeld : holds inner = true)
    (isAround : inner <:+ home)
    (noneInside : ∀ between, between <:+ home → inner <:+ between → inner ≠ between →
      holds between = false) : home.tails.find? holds = some inner := by
  induction home with
  | nil =>
      obtain rfl := List.suffix_nil.1 isAround
      simp [isHeld]
  | cons name home ih =>
      rw [List.tails_cons, List.find?_cons]
      rcases List.suffix_cons_iff.1 isAround with rfl | isOutside
      · rw [isHeld]
      · have apart : inner ≠ name :: home := by
          rintro rfl
          exact absurd isOutside.length_le (by simp)
        rw [noneInside _ (List.suffix_refl _) isAround apart]
        exact ih isOutside fun between isBetween =>
          noneInside between (isBetween.trans (List.suffix_cons name home))

theorem mem_around {outer : List FileName} :
    outer ∈ around base home ↔ outer <:+ home ∧ base <:+ outer := by
  rw [around, List.mem_filter, List.mem_tails, decide_eq_true_eq]

/-- The last directory on the way that holds is the innermost one around its end that does, if it
is around the end at all. -/
theorem find?_passed_eq_iff (leads : Leads root base segments home)
    (inside : ∀ outer ∈ passed root base segments, base <:+ outer) :
    (passed root base segments).find? holds = (around base home).find? holds ↔
      ∀ place ∈ (passed root base segments).find? holds, place <:+ home := by
  constructor
  · intro same place isLast
    rw [same] at isLast
    exact (mem_around.1 (List.mem_of_find?_eq_some isLast)).1
  · intro allAround
    cases isLast : (passed root base segments).find? holds with
    | none =>
        symm
        rw [List.find?_eq_none] at isLast ⊢
        intro place isAround
        obtain ⟨isSuffix, isBelow⟩ := mem_around.1 isAround
        exact isLast place (leads.mem_passed_of_suffix isBelow isSuffix)
    | some place =>
        obtain ⟨isHeld, before, after, isPassed, noneBefore⟩ :=
          List.find?_eq_some_iff_append.1 isLast
        have isBelow := inside place (List.mem_of_find?_eq_some isLast)
        symm
        rw [around, List.find?_filter]
        refine find?_tails_eq_some (by simp [isHeld, isBelow]) (allAround place isLast) ?_
        intro between isAround isInside apart
        have isBefore := leads.mem_passed isPassed isAround isInside apart
        have notHeld : holds between = false := by simpa using noneBefore between isBefore
        simp [notHeld]

end Innermost

/-- Where there are no links, the app of a path is found by way of the last manifest that the
path passes.  As long as the path stays in the directory where it starts, this is the innermost
app around the path there if and only if that manifest is in a directory around it, and so
whenever the path does not go back by `..`. -/
theorem app_of_path_innermost (system : FileSystem) (start : Path)
    (noLinks : FreeOfLinks system.root (system.start start.isAbsolute))
    (inside : ∀ outer ∈ passed system.root (system.start start.isAbsolute)
      (start.segments.reverse.map .text), system.start start.isAbsolute <:+ outer)
    (isFound : (system.files start).tree?.isSome = true)
    (followed : ∀ directory ∈ Manifest.candidates system.files start,
      (Manifest.pathIn directory).canBeFollowed = true) :
    ∃ home, Manifest.StartsAt system start home ∧
      let found := Manifest.discover? system.files start
      let innermost := (around (system.start start.isAbsolute) home).find?
        (holdsManifest system.root)
      let last := (Manifest.passedPlaces system start).find? (holdsManifest system.root)
      found.map system.placeOf? = last.map some ∧
      (found.map system.placeOf? = innermost.map some ↔ ∀ place ∈ last, place <:+ home) ∧
      (".." ∉ start.segments → found.map system.placeOf? = innermost.map some) ∧
      (found = none → Manifest.load system.files start = .ok .empty) ∧
      ∀ directory ∈ found, ∃ place content, system.placeOf? directory = some place ∧
        treeAt? system.root (FileName.text Manifest.fileName :: place) = some (.file content) ∧
          Manifest.load system.files start =
            Manifest.ofContent (Manifest.pathIn directory) content := by
  obtain ⟨home, startsAt, leads, isLast⟩ :=
    Manifest.discover?_passed noLinks inside isFound followed
  have isSuffix : Manifest.searchedSegments system.files start <:+ start.segments.reverse := by
    unfold Manifest.searchedSegments
    split
    · exact List.tail_suffix _
    · exact List.suffix_refl _
  have searchedInside : ∀ outer ∈ Manifest.passedPlaces system start,
      system.start start.isAbsolute <:+ outer := fun outer isPassed =>
    inside outer (passed_subset (isSuffix.map _) isPassed)
  refine ⟨home, startsAt, ?_⟩
  intro found innermost last
  have isInnermost : found.map system.placeOf? = innermost.map some ↔
      ∀ place ∈ last, place <:+ home := by
    have sameLast : found.map system.placeOf? = innermost.map some ↔ last = innermost := by
      rw [isLast]
      exact (Option.map_injective (Option.some_injective _)).eq_iff
    exact sameLast.trans (find?_passed_eq_iff leads searchedInside)
  refine ⟨isLast, isInnermost, fun noParent => isInnermost.2 ?_, fun notFound => ?_, ?_⟩
  · intro place isPassed
    apply leads.suffix_of_mem_passed _ (List.mem_of_find?_eq_some isPassed)
    intro isThere
    obtain ⟨segment, member, isParent⟩ := List.mem_map.1 isThere
    obtain rfl := FileName.text.inj isParent
    exact noParent (List.mem_reverse.1 (isSuffix.subset member))
  · exact Manifest.load_of_discover?_eq_none notFound
  · intro directory discovered
    obtain ⟨content, isContent, isLoaded⟩ := Manifest.load_of_discover?_eq_some discovered
    have isCandidate := List.mem_of_find?_eq_some (Option.mem_def.1 discovered)
    obtain ⟨place, isPlace, isTree⟩ := Manifest.exists_tree?_pathIn noLinks leads searchedInside
      isCandidate (followed directory isCandidate)
    rw [isContent, Entry.tree?] at isTree
    exact ⟨place, content, isPlace, isTree.symm, isLoaded⟩

/-- An app inside another one, and a path to a file in it that enters a directory without a
manifest and leaves it again.  There is an app around the working directory and a link beside
it. -/
theorem app_of_path_innermost_past_sibling :
    let manifest : FileTree := .file "\x7b\x7d".toUTF8
    let app : FileTree :=
      .directory [("app.json", manifest), ("src", .directory [("x.al", .file "".toUTF8)])]
    let here : List (FileName × FileTree) :=
      [("lib", .directory []), ("app.json", manifest), ("app", app)]
    let system : FileSystem :=
      ⟨[("here", .directory here), ("app.json", manifest), ("link", .link ⟨"here".toUTF8⟩)],
        ["here"], here, rfl⟩
    let start : Path := ⟨"lib/../app/./src//x.al"⟩
    let found := Manifest.discover? system.files start
    FreeOfLinks system.root (system.start start.isAbsolute) ∧
      (∀ outer ∈ passed system.root (system.start start.isAbsolute)
        (start.segments.reverse.map .text), system.start start.isAbsolute <:+ outer) ∧
      (system.files start).tree?.isSome = true ∧
      (∀ directory ∈ Manifest.candidates system.files start,
        (Manifest.pathIn directory).canBeFollowed = true) ∧
      ∃ home, Manifest.StartsAt system start home ∧ home = ["src", "app", "here"] ∧
        (around ["here"] home).find? (holdsManifest system.root) =
          some (["app", "here"] : List FileName) ∧
        found.map system.placeOf? =
          ((around ["here"] home).find? (holdsManifest system.root)).map some := by
  intro manifest app here system start found
  have isSegments : start.segments = ["lib", "..", "app", ".", "src", "", "x.al"] := by
    decide
  have relative : start.isAbsolute = false := by decide
  have isStart : system.start start.isAbsolute = (["here"] : List FileName) := by
    rw [relative]
    rfl
  have toLib : Leads system.root ["here"] ["lib"] ["lib", "here"] :=
    .name .nil ⟨by decide, by decide, by decide⟩ rfl
  have toApp : Leads system.root ["here"] ["app", "..", "lib"] ["app", "here"] :=
    .name toLib.parent ⟨by decide, by decide, by decide⟩ rfl
  have toSrc : Leads system.root ["here"] ["src", ".", "app", "..", "lib"] ["src", "app", "here"] :=
    .name (toApp.blank (.inr rfl)) ⟨by decide, by decide, by decide⟩ rfl
  have toBlank : Leads system.root ["here"] ["", "src", ".", "app", "..", "lib"]
      ["src", "app", "here"] := toSrc.blank (.inl rfl)
  have toSource : locate system.root linkLimit ["here"]
      ["lib", "..", "app", ".", "src", "", "x.al"] =
        some (["x.al", "src", "app", "here"] : List FileName) := by
    have isFile : treeAt? system.root ["x.al", "src", "app", "here"] =
        some (.file "".toUTF8) := rfl
    refine (toBlank.locate_append linkLimit ["x.al"]).trans ?_
    rw [locate_name _ _ _ _ ⟨by decide, by decide, by decide⟩, isFile]
    rfl
  have isPassed : passed system.root ["here"] ["", "src", ".", "app", "..", "lib"] =
      ([["src", "app", "here"], ["src", "app", "here"], ["app", "here"], ["app", "here"],
        ["here"], ["lib", "here"], ["here"]] : List (List FileName)) := by
    rw [toBlank.passed_cons, toSrc.passed_cons, (toApp.blank (.inr rfl)).passed_cons,
      toApp.passed_cons, toLib.parent.passed_cons, toLib.passed_cons, passed_nil]
    rfl
  have isPlace :
      system.placeOf? start = some (["x.al", "src", "app", "here"] : List FileName) := by
    rw [FileSystem.placeOf?, isSegments, isStart]
    exact toSource
  have isTree : (system.files start).tree? = some (.file "".toUTF8) := by
    rw [FileSystem.tree?_files (by decide) (by decide), isPlace]
    rfl
  have isFile : (system.files start).isFile = true := by rw [Entry.isFile_eq, isTree]
  have noLinks : FreeOfLinks system.root (system.start start.isAbsolute) := by
    rw [isStart]
    exact ⟨here, rfl, by simp [here, app, manifest, hasNoLinks]⟩
  have inside : ∀ outer ∈ passed system.root (system.start start.isAbsolute)
      (start.segments.reverse.map .text), system.start start.isAbsolute <:+ outer := by
    rw [isStart, isSegments]
    show ∀ outer ∈ passed system.root ["here"] ["x.al", "", "src", ".", "app", "..", "lib"],
      [.text "here"] <:+ outer
    rw [passed_of_locate toSource, isPassed]
    decide
  have isFound : (system.files start).tree?.isSome = true := by rw [isTree, Option.isSome_some]
  have followed : ∀ directory ∈ Manifest.candidates system.files start,
      (Manifest.pathIn directory).canBeFollowed = true := by
    rw [Manifest.candidates, isFile]
    decide +kernel
  obtain ⟨home, startsAt, -, innermost, -⟩ :=
    app_of_path_innermost system start noLinks inside isFound followed
  rw [isStart] at innermost
  have isHome : home = ["src", "app", "here"] := by
    cases startsAt with
    | directory found isPlace => simp [found, Entry.isFile] at isFile
    | file found isOther =>
        rw [isPlace] at isOther
        exact (List.cons.inj (Option.some.inj isOther)).2.symm
  have isLast : (Manifest.passedPlaces system start).find? (holdsManifest system.root) =
      some (["app", "here"] : List FileName) := by
    rw [Manifest.passedPlaces, Manifest.searchedSegments, isFile, isSegments, isStart]
    show (passed system.root ["here"] ["", "src", ".", "app", "..", "lib"]).find? _ = _
    rw [isPassed]
    rfl
  have isAround : ∀ place ∈ (Manifest.passedPlaces system start).find?
      (holdsManifest system.root), place <:+ home := by
    rw [isLast, isHome]
    simp
  refine ⟨noLinks, inside, isFound, followed, home, startsAt, isHome, ?_, innermost.2 isAround⟩
  rw [isHome]
  rfl

/-- A path that enters an app and leaves it again is outside it, but the app is found. -/
theorem app_of_path_left_again :
    let here : List (FileName × FileTree) :=
      [("app", .directory [("app.json", .file "\x7b\x7d".toUTF8)])]
    let system : FileSystem := ⟨here, [], here, rfl⟩
    let start : Path := ⟨"app/.."⟩
    hasNoLinks system.root = true ∧ Manifest.StartsAt system start [] ∧
      (around [] []).find? (holdsManifest system.root) = none ∧
        (Manifest.discover? system.files start).map system.placeOf? =
          some (some (["app"] : List FileName)) := by
  intro here system start
  have noLinks : hasNoLinks system.root = true := by simp [system, here, hasNoLinks]
  have isSegments : start.segments = ["app", ".."] := by decide
  have isStart : system.start start.isAbsolute = [] := by
    have relative : start.isAbsolute = false := by decide
    rw [relative]
    rfl
  have toApp : Leads system.root [] ["app"] ["app"] :=
    .name .nil ⟨by decide, by decide, by decide⟩ rfl
  have isPlace : system.placeOf? start = some [] := by
    rw [FileSystem.placeOf?, isSegments, isStart]
    exact toApp.parent.locate_eq linkLimit
  have isTree : (system.files start).tree? = some (.directory here) := by
    rw [FileSystem.tree?_files (by decide) (by decide), isPlace]
    rfl
  have noFile : (system.files start).isFile = false := by rw [Entry.isFile_eq, isTree]
  have followed : ∀ directory ∈ Manifest.candidates system.files start,
      (Manifest.pathIn directory).canBeFollowed = true := by
    rw [Manifest.candidates, noFile]
    decide +kernel
  obtain ⟨home, startsAt, -, isLast⟩ := Manifest.discover?_passed
    (by rw [isStart]; exact ⟨here, rfl, noLinks⟩)
    (by rw [isStart]; exact fun outer _ => List.nil_suffix)
    (Option.isSome_iff_exists.2 ⟨_, isTree⟩) followed
  have isHome : home = [] := by
    cases startsAt with
    | directory found isOther => exact Option.some.inj (isOther.symm.trans isPlace)
    | file found isOther => simp [found, Entry.isFile] at noFile
  refine ⟨noLinks, isHome ▸ startsAt, rfl, isLast.trans ?_⟩
  rw [Manifest.passedPlaces, Manifest.searchedSegments, noFile, isSegments, isStart]
  show ((passed system.root [] ["..", "app"]).find? _).map some = _
  rw [toApp.parent.passed_cons, toApp.passed_cons, passed_nil]
  rfl

end ObjectIds
