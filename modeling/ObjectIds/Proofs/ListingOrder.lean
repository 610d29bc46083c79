import ObjectIds.Proofs.PathComponents
import ObjectIds.Proofs.SourceEdits

/-!
# Source files in any order of the entries

The entries of a directory come in no particular order.  Trees that differ in this order only
have the same things at the same places, so the source files below a directory are the same, and
since they are listed in the order of their paths, so are their list and what a command makes of
it.  Whether something below the directory cannot be listed does not depend on the order either,
but the order says what is reported.
-/

namespace ObjectIds

namespace FileTree

/-- Entries with different names that entries can have, also in the directories below. -/
structure WellNamed (entries : List (FileName × FileTree)) : Prop where
  distinct : distinctNames entries = true
  areNames : ∀ names tree, Below entries names tree →
    ∀ name, .text name ∈ names → Path.IsEntryName name

/-- The same entries in another order, also in the directories below. -/
inductive Relisted : List (FileName × FileTree) → List (FileName × FileTree) → Prop
  | nil : Relisted [] []
  | cons {entries others : List (FileName × FileTree)} (first : FileName × FileTree)
      (later : Relisted entries others) : Relisted (first :: entries) (first :: others)
  | inside {entries others inner otherInner : List (FileName × FileTree)} (name : FileName)
      (within : Relisted inner otherInner) (later : Relisted entries others) :
      Relisted ((name, .directory inner) :: entries) ((name, .directory otherInner) :: others)
  | swap (first second : FileName × FileTree) (entries : List (FileName × FileTree)) :
      Relisted (first :: second :: entries) (second :: first :: entries)
  | trans {entries others further : List (FileName × FileTree)} (first : Relisted entries others)
      (second : Relisted others further) : Relisted entries further

variable {root other entries others : List (FileName × FileTree)} {place names : List FileName}
  {name : FileName} {tree : FileTree}

namespace Relisted

theorem symm (relisted : Relisted entries others) : Relisted others entries := by
  induction relisted with
  | nil => exact .nil
  | cons first later ih => exact .cons first ih
  | inside name within later withinIH ih => exact .inside name withinIH ih
  | swap first second entries => exact .swap second first entries
  | trans first second firstIH secondIH => exact .trans secondIH firstIH

theorem perm_names (relisted : Relisted entries others) :
    (entries.map Prod.fst).Perm (others.map Prod.fst) := by
  induction relisted with
  | nil => exact .nil
  | cons first later ih => exact ih.cons _
  | inside name within later withinIH ih => exact ih.cons _
  | swap first second entries => exact .swap _ _ _
  | trans first second firstIH secondIH => exact firstIH.trans secondIH

/-- What names lead to is the same, up to the order of the entries in a directory. -/
theorem exists_below (relisted : Relisted entries others) (below : Below entries names tree) :
    ∃ otherTree, Below others names otherTree ∧ otherTree.surface = tree.surface := by
  induction relisted generalizing names tree with
  | nil => exact (not_below_nil below).elim
  | cons first later ih =>
      rcases below_cons_iff.1 below with isFirst | isLater
      · exact ⟨tree, below_cons_iff.2 (.inl isFirst), rfl⟩
      · obtain ⟨otherTree, isOther, same⟩ := ih isLater
        exact ⟨otherTree, below_cons_iff.2 (.inr isOther), same⟩
  | inside name within later withinIH ih =>
      rcases below_cons_iff.1 below with
        (⟨rfl, rfl⟩ | ⟨inner, names, isInner, rfl, isWithin⟩) | isLater
      · exact ⟨_, .entry (.head _), rfl⟩
      · obtain rfl := FileTree.directory.inj isInner
        obtain ⟨otherTree, isOther, same⟩ := withinIH isWithin
        exact ⟨otherTree, .inside (.head _) isOther, same⟩
      · obtain ⟨otherTree, isOther, same⟩ := ih isLater
        exact ⟨otherTree, below_cons_iff.2 (.inr isOther), same⟩
  | swap first second entries =>
      refine ⟨tree, ?_, rfl⟩
      rw [below_cons_iff, below_cons_iff] at below ⊢
      rwa [or_left_comm]
  | trans first second firstIH secondIH =>
      obtain ⟨middle, isMiddle, sameFirst⟩ := firstIH below
      obtain ⟨otherTree, isOther, sameSecond⟩ := secondIH isMiddle
      exact ⟨otherTree, isOther, sameSecond.trans sameFirst⟩

end Relisted

theorem distinctNames_cons_iff :
    distinctNames ((name, tree) :: entries) = true ↔ name ∉ entries.map Prod.fst ∧
      distinctNames entries = true ∧ ∀ inner, tree = .directory inner →
        distinctNames inner = true := by
  refine ⟨distinctNames_cons, ?_⟩
  cases tree with
  | file content => simp +contextual [distinctNames]
  | directory inner => simp +contextual [distinctNames]
  | link target => simp +contextual [distinctNames]

theorem Below.treeAt?_reverse (below : Below root names tree)
    (distinct : distinctNames root = true) : treeAt? root names.reverse = some tree := by
  have isRoot : treeAt? root [] = some (.directory root) := rfl
  have isTree := below.treeAt?_eq distinct isRoot
  rwa [List.append_nil] at isTree

theorem below_reverse_of_treeAt? (distinct : distinctNames root = true) (notEmpty : place ≠ [])
    (isTree : treeAt? root place = some tree) : Below root place.reverse tree := by
  have isRoot : treeAt? root [] = some (.directory root) := rfl
  refine below_of_treeAt? (by simpa using notEmpty) isRoot distinct ?_
  rwa [List.reverse_reverse, List.append_nil]

namespace Relisted

theorem distinctNames_eq (relisted : Relisted entries others)
    (distinct : distinctNames entries = true) : distinctNames others = true := by
  induction relisted with
  | nil => exact distinct
  | cons first later ih =>
      obtain ⟨notLater, laterDistinct, innerDistinct⟩ := distinctNames_cons_iff.1 distinct
      rw [later.perm_names.mem_iff] at notLater
      exact distinctNames_cons_iff.2 ⟨notLater, ih laterDistinct, innerDistinct⟩
  | inside name within later withinIH ih =>
      obtain ⟨notLater, laterDistinct, innerDistinct⟩ := distinctNames_cons_iff.1 distinct
      rw [later.perm_names.mem_iff] at notLater
      refine distinctNames_cons_iff.2 ⟨notLater, ih laterDistinct, fun inner isInner => ?_⟩
      obtain rfl := FileTree.directory.inj isInner
      exact withinIH (innerDistinct _ rfl)
  | swap first second entries =>
      obtain ⟨firstNotLater, laterDistinct, firstInner⟩ := distinctNames_cons_iff.1 distinct
      obtain ⟨secondNotLater, entriesDistinct, secondInner⟩ :=
        distinctNames_cons_iff.1 laterDistinct
      rw [List.map_cons, List.mem_cons, not_or] at firstNotLater
      refine distinctNames_cons_iff.2 ⟨?_, distinctNames_cons_iff.2
        ⟨firstNotLater.2, entriesDistinct, firstInner⟩, secondInner⟩
      rw [List.map_cons, List.mem_cons, not_or]
      exact ⟨Ne.symm firstNotLater.1, secondNotLater⟩
  | trans first second firstIH secondIH => exact secondIH (firstIH distinct)

theorem wellNamed (relisted : Relisted entries others) (wellNamed : WellNamed entries) :
    WellNamed others := by
  refine ⟨relisted.distinctNames_eq wellNamed.distinct, fun names tree below => ?_⟩
  obtain ⟨otherTree, isOther, -⟩ := relisted.symm.exists_below below
  exact wellNamed.areNames names otherTree isOther

theorem exists_treeAt? (relisted : Relisted root other) (wellNamed : WellNamed root)
    (isTree : treeAt? root place = some tree) :
    ∃ otherTree, treeAt? other place = some otherTree ∧ otherTree.surface = tree.surface := by
  rcases eq_or_ne place [] with rfl | notEmpty
  · obtain rfl := Option.some.inj isTree
    exact ⟨_, rfl, rfl⟩
  · have below := below_reverse_of_treeAt? wellNamed.distinct notEmpty isTree
    obtain ⟨otherTree, isOther, same⟩ := relisted.exists_below below
    have isThere := isOther.treeAt?_reverse (relisted.distinctNames_eq wellNamed.distinct)
    rw [List.reverse_reverse] at isThere
    exact ⟨otherTree, isThere, same⟩

theorem surface_treeAt?_eq (relisted : Relisted root other) (wellNamed : WellNamed root)
    (place : List FileName) :
    (treeAt? root place).map surface = (treeAt? other place).map surface := by
  cases isTree : treeAt? root place with
  | some tree =>
      obtain ⟨otherTree, isOther, same⟩ := relisted.exists_treeAt? wellNamed isTree
      rw [isOther, Option.map_some, Option.map_some, same]
  | none =>
      cases isOther : treeAt? other place with
      | none => rfl
      | some otherTree =>
          obtain ⟨tree, isThere, -⟩ :=
            relisted.symm.exists_treeAt? (relisted.wellNamed wellNamed) isOther
          rw [isTree] at isThere
          contradiction

theorem treeAt?_eq_file_iff {content : ByteArray} (relisted : Relisted root other)
    (wellNamed : WellNamed root) :
    treeAt? root place = some (.file content) ↔ treeAt? other place = some (.file content) := by
  have isFile (found : Option FileTree) :
      found = some (.file content) ↔ found.map surface = some (.file content) := by
    simp [Option.map_eq_some_iff, surface_eq_file_iff]
  rw [isFile, isFile, relisted.surface_treeAt?_eq wellNamed]

end Relisted

namespace WellNamed

theorem treeAt?_blank (wellNamed : WellNamed root) : treeAt? root [.text ""] = none := by
  cases isTree : treeAt? root [.text ""] with
  | none => rfl
  | some tree =>
      have member := (mem_iff_lookup wellNamed.distinct).2 isTree
      exact ((wellNamed.areNames [.text ""] tree (.entry member) "" (by simp)).notEmpty rfl).elim

theorem of_treeAt? (wellNamed : WellNamed root)
    (isTree : treeAt? root place = some (.directory entries)) : WellNamed entries := by
  have distinct := distinctNames_treeAt? wellNamed.distinct isTree
  refine ⟨distinct, fun names tree below name member => ?_⟩
  obtain ⟨first, later, isNames, -⟩ := below.exists_cons
  have isThere := below.treeAt?_eq distinct isTree
  have fromRoot := below_reverse_of_treeAt? wellNamed.distinct (by simp [isNames]) isThere
  exact wellNamed.areNames _ tree fromRoot name (by simp [member])

end WellNamed

/-- Nothing stands where the name is blank, so that trees which are alike apart from there are
alike. -/
theorem Relisted.alike (relisted : Relisted root other) (wellNamed : WellNamed root) :
    AlikeExcept [.text ""] root other := by
  refine ⟨fun place _ => relisted.surface_treeAt?_eq wellNamed place, ?_, ?_⟩
  · rw [wellNamed.treeAt?_blank]
    nofun
  · rw [(relisted.wellNamed wellNamed).treeAt?_blank]
    nofun

end FileTree

open FileTree

namespace SourceFile

/-- A source name is a name with the ending of source files in any letter case, after a point
with something before it. -/
theorem isSourceName_iff {name : String} :
    isSourceName name = true ↔
      ∃ stem ending, stem ≠ "" ∧ name = stem ++ "." ++ ending ∧
        Text.lowercase ending = "al" := by
  have isExtension {ending : String} :
      Text.equalIgnoringCase ending extension = true ↔ Text.lowercase ending = "al" := by
    have lowered : Text.lowercase extension = "al" := by decide
    rw [Text.equalIgnoringCase, lowered, beq_iff_eq]
  rw [isSourceName, Option.any_eq_true]
  constructor
  · rintro ⟨ending, isEnding, isSource⟩
    obtain ⟨-, stem, notEmpty, isName⟩ := Path.extension?_eq_some_iff.1 isEnding
    exact ⟨stem, ending, notEmpty, isName, isExtension.1 isSource⟩
  · rintro ⟨stem, ending, notEmpty, isName, isSource⟩
    refine ⟨ending, Path.extension?_eq_some_iff.2 ⟨fun member => ?_, stem, notEmpty, isName⟩,
      isExtension.2 isSource⟩
    have lowered := congrArg String.toList isSource
    rw [Text.lowercase, String.toList_ofList] at lowered
    have inLowered : '.' ∈ "al".toList := lowered ▸ List.mem_map.2 ⟨'.', member, rfl⟩
    exact absurd inLowered (by decide)

end SourceFile

/-- A file system in which names are different and can be names of entries. -/
abbrev FileSystem.WellNamed (system : FileSystem) : Prop := FileTree.WellNamed system.root

/-- The same file system with the entries of directories in another order. -/
structure FileSystem.Relisted (system other : FileSystem) : Prop where
  trees : FileTree.Relisted system.root other.root
  working : other.working = system.working

namespace FileSystem

variable {system other : FileSystem} {path : Path} {entries : List (FileName × FileTree)}

theorem WellNamed.of_files (wellNamed : system.WellNamed)
    (isDirectory : system.files path = .directory entries) : FileTree.WellNamed entries := by
  obtain ⟨-, -, home, -, isTree⟩ := of_tree?_files (Entry.tree?_eq_directory_iff.2 isDirectory)
  exact wellNamed.of_treeAt? isTree

theorem WellNamed.placeOf?_ne_blank {content : ByteArray} (wellNamed : system.WellNamed)
    (isFile : system.files path = .file content) : system.placeOf? path ≠ some [.text ""] := by
  intro isBlank
  obtain ⟨-, -, home, isHome, isTree⟩ := of_tree?_files (Entry.tree?_eq_file_iff.2 isFile)
  obtain rfl := Option.some.inj (isHome.symm.trans isBlank)
  rw [wellNamed.treeAt?_blank] at isTree
  contradiction

theorem WellNamed.not_isAt_blank (wellNamed : system.WellNamed) :
    ¬Manifest.IsAt system path [.text ""] := by
  rintro ⟨directory, isDiscovered, isBlank⟩
  obtain ⟨content, isFile⟩ := Manifest.exists_eq_file_of_discover? isDiscovered
  exact wellNamed.placeOf?_ne_blank isFile isBlank

namespace Relisted

theorem symm (relisted : system.Relisted other) : other.Relisted system :=
  ⟨relisted.trees.symm, relisted.working.symm⟩

theorem wellNamed (relisted : system.Relisted other) (wellNamed : system.WellNamed) :
    other.WellNamed :=
  relisted.trees.wellNamed wellNamed

theorem alike (relisted : system.Relisted other) (wellNamed : system.WellNamed) :
    system.AlikeExcept [.text ""] other :=
  ⟨relisted.trees.alike wellNamed, relisted.working⟩

theorem files_eq_file {content : ByteArray} (relisted : system.Relisted other)
    (wellNamed : system.WellNamed) (isFile : system.files path = .file content) :
    other.files path = .file content :=
  (relisted.alike wellNamed).files_eq_file isFile (wellNamed.placeOf?_ne_blank isFile)

theorem text?_files_eq (relisted : system.Relisted other) (wellNamed : system.WellNamed)
    (path : Path) : (other.files path).text? = (system.files path).text? := by
  have sameText {system other : FileSystem} {text : String} (relisted : system.Relisted other)
      (wellNamed : system.WellNamed) (isText : (system.files path).text? = some text) :
      (other.files path).text? = some text := by
    cases found : system.files path with
    | missing | obstructed | directory => simp [found, Entry.text?] at isText
    | file content => rwa [relisted.files_eq_file wellNamed found, ← found]
  exact Option.ext fun text => ⟨sameText relisted.symm (relisted.wellNamed wellNamed),
    sameText relisted wellNamed⟩

/-- A directory has the same source files below it, and what is wrong there is the same. -/
theorem exists_directory (relisted : system.Relisted other) (wellNamed : system.WellNamed)
    (isDirectory : system.files path = .directory entries) :
    ∃ others, other.files path = .directory others ∧
      SourceFile.sortedBelow others = SourceFile.sortedBelow entries ∧
      ∀ failure, SourceFile.FailsBelow path others failure ↔
        SourceFile.FailsBelow path entries failure := by
  have alike := relisted.alike wellNamed
  have otherWellNamed := relisted.wellNamed wellNamed
  obtain ⟨home, others, isHome, isTree, isOther, isOtherTree⟩ :=
    alike.exists_directories isDirectory
  refine ⟨others, isOther, ?_, fun failure => ⟨?_, ?_⟩⟩
  · apply eq_of_mem_iff_of_ascending
      (SourceFile.pairwise_sortedBelow (otherWellNamed.of_treeAt? isOtherTree).distinct)
      (SourceFile.pairwise_sortedBelow (wellNamed.of_treeAt? isTree).distinct)
    rintro ⟨names, content⟩
    rw [mem_sortedBelow_iff_treeAt? otherWellNamed.distinct isOtherTree,
      mem_sortedBelow_iff_treeAt? wellNamed.distinct isTree]
    exact and_congr_left fun isSource => (relisted.trees.treeAt?_eq_file_iff wellNamed).symm
  · exact alike.trees.failsBelow ⟨"", [], rfl⟩ wellNamed.distinct otherWellNamed.distinct isTree
      isOtherTree
  · exact alike.symm.trees.failsBelow ⟨"", [], rfl⟩ otherWellNamed.distinct wellNamed.distinct
      isOtherTree isTree

end Relisted

end FileSystem

/-! ## Listings -/

namespace SourceFile

variable {system other : FileSystem} {entries : List (FileName × FileTree)} {path : Path}

/-- Whether everything below a directory can be listed. -/
def CanList (path : Path) (entries : List (FileName × FileTree)) : Prop :=
  ∀ failure, ¬FailsBelow path entries failure

/-- A regular file below a directory, whose name has the ending of source files in any letter
case after a point with something before it. -/
def IsBelow (path : Path) (entries : List (FileName × FileTree)) (source : SourceFile) : Prop :=
  ∃ names stem ending, stem ≠ "" ∧ Text.lowercase ending = "al" ∧
    names.getLast? = some (stem ++ "." ++ ending) ∧
    Below entries (names.map .text) (.file source.content) ∧ source.path = path.below names

theorem mem_foundAt_iff {source : SourceFile}
    (isDirectory : system.files path = .directory entries) :
    source ∈ foundAt system.files path ↔ IsBelow path entries source := by
  rw [foundAt, isDirectory, List.mem_map]
  constructor
  · rintro ⟨⟨names, content⟩, member, rfl⟩
    obtain ⟨below, isSource⟩ := mem_sortedBelow_iff.1 member
    obtain ⟨name, isLast, isName⟩ := (Option.any_eq_true _ _).1 isSource
    obtain ⟨stem, ending, notEmpty, rfl, isEnding⟩ := isSourceName_iff.1 isName
    exact ⟨names, stem, ending, notEmpty, isEnding, isLast, below, rfl⟩
  · rintro ⟨names, stem, ending, notEmpty, isEnding, isLast, below, isPath⟩
    refine ⟨(names, source.content), mem_sortedBelow_iff.2 ⟨below, ?_⟩, ?_⟩
    · rw [isLast]
      exact isSourceName_iff.2 ⟨stem, ending, notEmpty, rfl, isEnding⟩
    · cases source
      subst isPath
      rfl

theorem pairwise_foundAt (wellNamed : system.WellNamed)
    (isDirectory : system.files path = .directory entries) :
    (foundAt system.files path).Pairwise fun first second =>
      first.path.components < second.path.components := by
  have entriesWellNamed := wellNamed.of_files isDirectory
  rw [foundAt, isDirectory, List.pairwise_map]
  refine (pairwise_sortedBelow entriesWellNamed.distinct).imp_of_mem ?_
  intro first second isFirst isSecond before
  have areNames {found : List String × ByteArray} (member : found ∈ sortedBelow entries) :
      ∀ name ∈ found.1, Path.IsEntryName name := fun name isOne =>
    entriesWellNamed.areNames _ _ (mem_sortedBelow_iff.1 member).1 name
      (List.mem_map_of_mem isOne)
  exact path.components_below_lt (areNames isFirst) (areNames isSecond) before

theorem listAt_eq_ok (isDirectory : system.files path = .directory entries)
    (canList : CanList path entries) :
    listAt system.files path = .ok (foundAt system.files path) := by
  rw [listAt_eq, pathFailures, isDirectory]
  dsimp only
  rw [failuresBelow_eq_nil_iff.2 canList, Failure.firstOr]

/-- What is reported about a directory that cannot be listed is wrong below it. -/
theorem exists_listAt_eq_error (isDirectory : system.files path = .directory entries)
    (cannotList : ¬CanList path entries) :
    ∃ failure, FailsBelow path entries failure ∧ listAt system.files path = .error failure := by
  have someFailures : failuresBelow path entries ≠ [] :=
    fun isNil => cannotList (failuresBelow_eq_nil_iff.1 isNil)
  obtain ⟨failure, later, isFirst⟩ := List.exists_cons_of_ne_nil someFailures
  refine ⟨failure, failsBelow_of_mem (isFirst ▸ List.mem_cons_self), ?_⟩
  rw [listAt_eq, pathFailures, isDirectory]
  dsimp only
  rw [isFirst, Failure.firstOr]

theorem foundAt_eq_of_relisted (relisted : system.Relisted other) (wellNamed : system.WellNamed)
    (isDirectory : system.files path = .directory entries) :
    foundAt other.files path = foundAt system.files path := by
  obtain ⟨others, isOther, sameSources, -⟩ := relisted.exists_directory wellNamed isDirectory
  rw [foundAt, foundAt, isDirectory, isOther]
  dsimp only
  rw [sameSources]

end SourceFile

/-- What a command does depends on the manifest in force, the text of the recorded ids, and the
source files, only. -/
theorem Command.run_congr {files others : Files} {command : Command} {path : Path}
    (isPath : command.path? = some path)
    (sameManifest : Manifest.failures others path = Manifest.failures files path ∧
      Manifest.inForce others path = Manifest.inForce files path)
    (sameText : ∀ file, (others file).text? = (files file).text?)
    (sameFailures : SourceFile.pathFailures others path = SourceFile.pathFailures files path)
    (sameSources : SourceFile.foundAt others path = SourceFile.foundAt files path) :
    command.run others = command.run files := by
  have sameRecords (file : Path) :
      Consumption.failures others file = Consumption.failures files file ∧
        Consumption.recordedIn others file = Consumption.recordedIn files file := by
    rw [Consumption.failures, Consumption.failures, Consumption.recordedIn,
      Consumption.recordedIn, sameText]
    exact ⟨rfl, rfl⟩
  rw [run_eq, run_eq]
  cases command with
  | version => contradiction
  | scan other defines json =>
      obtain rfl : other = path := Option.some.inj isPath
      simp only [failures, answerFrom, path?, records?, Option.map_some, Option.map_none,
        sameManifest, sameFailures, sameSources]
  | check other consumption defines =>
      obtain rfl : other = path := Option.some.inj isPath
      simp only [failures, answerFrom, path?, records?, Option.map_some, sameManifest,
        sameRecords, sameFailures, sameSources]

/-- When every directory below a directory can be followed and every entry there but links has
a text for a name, the source files below it are found: all of them, each once, in the order of
their paths, and so, like what a command makes of them, in whatever order the entries come.
Otherwise none are found in any order, and what is reported is wrong in all of them. -/
theorem sources_listed_in_any_order (system : FileSystem) (entries : List (FileName × FileTree))
    (path : Path) (wellNamed : system.WellNamed)
    (isDirectory : system.files path = .directory entries) :
    (SourceFile.CanList path entries → ∃ sources,
      SourceFile.listAt system.files path = .ok sources ∧
      (∀ source, source ∈ sources ↔ SourceFile.IsBelow path entries source) ∧
      (sources.map SourceFile.path).Nodup ∧
      sources.Pairwise fun first second => first.path.components < second.path.components) ∧
    (¬SourceFile.CanList path entries → ∃ failure, SourceFile.FailsBelow path entries failure ∧
      SourceFile.listAt system.files path = .error failure) ∧
    ∀ other, system.Relisted other →
      (SourceFile.CanList path entries →
        SourceFile.listAt other.files path = SourceFile.listAt system.files path ∧
        ∀ command, command.path? = some path →
          Command.run other.files command = Command.run system.files command) ∧
      (¬SourceFile.CanList path entries →
        ∃ failure, SourceFile.FailsBelow path entries failure ∧
          SourceFile.listAt other.files path = .error failure) := by
  refine ⟨fun canList => ?found, SourceFile.exists_listAt_eq_error isDirectory,
    fun other relisted => ?_⟩
  case found =>
    have ascending := SourceFile.pairwise_foundAt wellNamed isDirectory
    refine ⟨SourceFile.foundAt system.files path, SourceFile.listAt_eq_ok isDirectory canList,
      fun source => SourceFile.mem_foundAt_iff isDirectory, ?_, ascending⟩
    refine List.pairwise_map.2 (ascending.imp ?_)
    intro first second before samePath
    exact absurd before (samePath ▸ lt_irrefl _)
  obtain ⟨others, isOther, -, sameFailures⟩ := relisted.exists_directory wellNamed isDirectory
  refine ⟨fun canList => ?same, fun cannotList => ?alsoFails⟩
  case same =>
    have otherCanList : SourceFile.CanList path others :=
      fun failure fails => canList failure ((sameFailures failure).1 fails)
    have sameSources := SourceFile.foundAt_eq_of_relisted relisted wellNamed isDirectory
    have alike := relisted.alike wellNamed
    have sameManifest := Manifest.failures_eq_and_inForce_eq alike isDirectory isOther
      wellNamed.not_isAt_blank (relisted.wellNamed wellNamed).not_isAt_blank
    have noPathFailures : SourceFile.pathFailures other.files path =
        SourceFile.pathFailures system.files path := by
      rw [pathFailures_of_directory isOther, pathFailures_of_directory isDirectory,
        SourceFile.failuresBelow_eq_nil_iff.2 canList,
        SourceFile.failuresBelow_eq_nil_iff.2 otherCanList]
    refine ⟨?_, fun command isPath => Command.run_congr isPath sameManifest
      (relisted.text?_files_eq wellNamed) noPathFailures sameSources⟩
    rw [SourceFile.listAt_eq_ok isOther otherCanList, SourceFile.listAt_eq_ok isDirectory canList,
      sameSources]
  case alsoFails =>
    have otherCannotList : ¬SourceFile.CanList path others := fun canList =>
      cannotList fun failure fails => canList failure ((sameFailures failure).2 fails)
    obtain ⟨failure, fails, isError⟩ := SourceFile.exists_listAt_eq_error isOther otherCannotList
    exact ⟨failure, (sameFailures failure).1 fails, isError⟩

/-- A file system with one source file in its root and one in a directory. -/
def twoSources (name : FileName) : FileSystem :=
  .ofRoot [(name, .directory [("b.AL", .file "".toUTF8)]), ("a.al", .file "".toUTF8)]

section TwoSources

variable {name : FileName} {path : Path}

theorem wellNamed_twoSources (apart : name ≠ "a.al")
    (isName : ∀ text, name = .text text → Path.IsEntryName text) :
    (twoSources name).WellNamed := by
  have isSource : Path.IsEntryName "a.al" := ⟨by decide, by decide, by decide, by decide⟩
  have isInner : Path.IsEntryName "b.AL" := ⟨by decide, by decide, by decide, by decide⟩
  refine ⟨?_, fun names tree below text member => ?_⟩
  · simp [twoSources, FileSystem.ofRoot, distinctNames, apart]
  · rw [twoSources, FileSystem.ofRoot, below_cons_iff, below_cons_iff] at below
    rcases below with
      (⟨rfl, -⟩ | ⟨inner, later, inside, rfl, within⟩) |
        (⟨rfl, -⟩ | ⟨inner, later, impossible, -⟩) | impossible
    · exact isName text (List.mem_singleton.1 member).symm
    · obtain rfl := FileTree.directory.inj inside
      rcases below_cons_iff.1 within with
        (⟨rfl, -⟩ | ⟨further, later, impossible, -⟩) | impossible
      · rcases List.mem_pair.1 member with isDirectory | isFile
        · exact isName text isDirectory.symm
        · exact FileName.text.inj isFile ▸ isInner
      · contradiction
      · exact (not_below_nil impossible).elim
    · exact FileName.text.inj (List.mem_singleton.1 member) ▸ isSource
    · contradiction
    · exact (not_below_nil impossible).elim

theorem exists_isBelow_twoSources (name : FileName) (path : Path) :
    ∃ source, SourceFile.IsBelow path (twoSources name).root source :=
  ⟨⟨path.below ["a.al"], "".toUTF8⟩, ["a.al"], "a", "al", by decide, by decide, rfl,
    .entry (.tail _ (.head _)), rfl⟩

theorem failuresBelow_twoSources {name : String} :
    SourceFile.failuresBelow path (twoSources name).root =
      if (path.join name).canBeFollowed then [] else [.directoryUnreadable (path.join name)] := by
  simp [twoSources, FileSystem.ofRoot, SourceFile.failuresBelow]

theorem listAt_eq_of_failuresBelow {files : Files} {entries : List (FileName × FileTree)}
    {failure : Failure} (isDirectory : files path = .directory entries)
    (fails : SourceFile.failuresBelow path entries = [failure]) :
    SourceFile.listAt files path = .error failure := by
  rw [SourceFile.listAt_eq, pathFailures_of_directory isDirectory, fails, Failure.firstOr]

end TwoSources

theorem sources_listed_near_and_far :
    let near : Path := ⟨"/"⟩
    let far := Path.dots 2047
    let system := twoSources "d"
    let other := FileSystem.ofRoot system.root.reverse
    let scan := (Command.scan near [] false).run
    (∃ sources, SourceFile.listAt system.files near = .ok sources ∧
      (∀ source, source ∈ sources ↔ SourceFile.IsBelow near system.root source) ∧
      (sources.map SourceFile.path).Nodup ∧
      sources.Pairwise fun first second => first.path.components < second.path.components) ∧
    SourceFile.listAt other.files near = SourceFile.listAt system.files near ∧
    scan other.files = scan system.files ∧
    (∃ failure, SourceFile.FailsBelow far system.root failure ∧
      SourceFile.listAt system.files far = .error failure) ∧
    ∃ failure, SourceFile.FailsBelow far system.root failure ∧
      SourceFile.listAt other.files far = .error failure := by
  intro near far system other scan
  have wellNamed : system.WellNamed := by
    refine wellNamed_twoSources (by decide) fun text isText => ?_
    obtain rfl := FileName.text.inj isText
    exact ⟨by decide, by decide, by decide, by decide⟩
  have relisted : system.Relisted other := ⟨.swap _ _ [], rfl⟩
  have canList : SourceFile.CanList near system.root := by
    have followed : (near.join "d").canBeFollowed = true := by decide +kernel
    rw [SourceFile.CanList, ← SourceFile.failuresBelow_eq_nil_iff, failuresBelow_twoSources,
      if_pos followed]
  have cannotList : ¬SourceFile.CanList far system.root := by
    have tooFar : (far.join "d").canBeFollowed = false :=
      Path.join_dots_canBeFollowed (by decide)
    rw [SourceFile.CanList, ← SourceFile.failuresBelow_eq_nil_iff, failuresBelow_twoSources,
      if_neg (Bool.eq_false_iff.1 tooFar)]
    exact List.cons_ne_nil _ _
  obtain ⟨found, -, anyOrder⟩ := sources_listed_in_any_order system system.root near wellNamed
    (files_of_blank (by decide) (by decide) (by decide)).2
  obtain ⟨-, fails, failsInAnyOrder⟩ := sources_listed_in_any_order system system.root far
    wellNamed (files_dots _ (by decide))
  obtain ⟨sameList, sameRun⟩ := (anyOrder other relisted).1 canList
  exact ⟨found canList, sameList, sameRun _ rfl, fails cannotList,
    (failsInAnyOrder other relisted).2 cannotList⟩

/-- No source file is found in a directory that can be listed, when one in it is too far away or
has a name that is not a text. -/
theorem sources_missed_beside_far_directory :
    let near : Path := ⟨"."⟩
    let far := Path.dots 2047
    let system := twoSources "d"
    let unnamed := twoSources (.bytes ⟨#[255]⟩ (by decide))
    (system.WellNamed ∧ system.files far = .directory system.root ∧
      (∃ source, SourceFile.IsBelow far system.root source) ∧
      SourceFile.listAt system.files far = .error (.directoryUnreadable (far.join "d"))) ∧
    unnamed.WellNamed ∧ unnamed.files near = .directory unnamed.root ∧
      (∃ source, SourceFile.IsBelow near unnamed.root source) ∧
      SourceFile.listAt unnamed.files near = .error .nameNotText := by
  intro near far system unnamed
  have isFar : system.files far = .directory system.root := files_dots _ (by decide)
  have isNear : unnamed.files near = .directory unnamed.root :=
    (files_of_blank (by decide) (by decide) (by decide)).2
  refine ⟨⟨?_, isFar, exists_isBelow_twoSources _ far, listAt_eq_of_failuresBelow isFar ?_⟩,
    wellNamed_twoSources (by decide) (by nofun), isNear, exists_isBelow_twoSources _ near,
    listAt_eq_of_failuresBelow isNear ?_⟩
  · refine wellNamed_twoSources (by decide) fun text isText => ?_
    obtain rfl := FileName.text.inj isText
    exact ⟨by decide, by decide, by decide, by decide⟩
  · have tooFar : (far.join "d").canBeFollowed = false :=
      Path.join_dots_canBeFollowed (by decide)
    rw [failuresBelow_twoSources, if_neg (Bool.eq_false_iff.1 tooFar)]
  · simp [unnamed, twoSources, FileSystem.ofRoot, SourceFile.failuresBelow]

end ObjectIds
