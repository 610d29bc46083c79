import ObjectIds.Proofs.AlikeTrees
import ObjectIds.Proofs.CommandOutcomes
import ObjectIds.Proofs.PassedDirectories
import ObjectIds.Proofs.PathSegments

/-!
# Commands before and after a change of one source file

Each source file is scanned by itself, from the symbols of the manifest in force.  So a change of
one file below a directory leaves what a command finds in all the others, unless the file is used
in another way too.
-/

namespace ObjectIds

open FileTree

namespace Manifest

variable {system other : FileSystem} {changed : List FileName} {path : Path}

/-- The manifest in force for a path is the file at a place. -/
def IsAt (system : FileSystem) (path : Path) (place : List FileName) : Prop :=
  ∃ directory ∈ discover? system.files path, system.placeOf? (pathIn directory) = some place

/-- Without links, the path of a manifest leads to a file with the name of manifests. -/
theorem not_isAt_of_hasNoLinks (noLinks : hasNoLinks system.root = true)
    (apart : changed.head? ≠ some (.text fileName)) : ¬IsAt system path changed := by
  rintro ⟨directory, isDiscovered, isPlace⟩
  have isName : IsName (FileName.text fileName) := ⟨by decide, by decide, by decide⟩
  obtain ⟨-, spelled, isDirectory⟩ := Path.exists_spelled directory
  obtain ⟨kept, -, keptSpelled, isJoined⟩ :=
    spelled.exists_join_eq (by decide : '/' ∉ fileName.toList) (by decide)
  rw [isDirectory] at isJoined
  rw [pathIn, isJoined, FileSystem.placeOf?, keptSpelled.segments_ofSegments (by simp),
    List.map_append] at isPlace
  apply apart
  have freeOfLinks : FreeOfLinks system.root [] := ⟨system.root, rfl, noLinks⟩
  rcases leads_of_locate freeOfLinks (fun outer _ => List.nil_suffix) .nil isPlace with
    leads | ⟨name, before, outer, content, isLast, -, -, rfl, -⟩
  · rw [List.reverse_append, List.append_nil] at leads
    exact leads.head?_eq isName
  · rw [List.reverse_append, List.append_nil] at isLast
    exact congrArg some (List.cons.inj isLast).1.symm

/-- A manifest that is not the file in question is in both trees. -/
theorem file_of_discovered (alike : system.AlikeExcept changed other) {directory : Path}
    (isDiscovered : discover? system.files path = some directory)
    (apart : ¬IsAt system path changed) :
    ∃ content, system.files (pathIn directory) = .file content ∧
      other.files (pathIn directory) = .file content := by
  obtain ⟨content, found⟩ := exists_eq_file_of_discover? isDiscovered
  have elsewhere : system.placeOf? (pathIn directory) ≠ some changed :=
    fun isChanged => apart ⟨directory, isDiscovered, isChanged⟩
  exact ⟨content, found, alike.files_eq_file found elsewhere⟩

theorem candidates_of_directory {files : Files} {entries : List (FileName × FileTree)}
    (isDirectory : files path = .directory entries) : candidates files path = path.ancestors := by
  rw [candidates, isDirectory]
  rfl

theorem find?_eq_of_imp {α : Type} {accepts others : α → Bool} {items : List α}
    (imp : ∀ item, items.find? accepts = some item → others item = true)
    (conv : ∀ item, items.find? others = some item → accepts item = true) :
    items.find? accepts = items.find? others := by
  induction items with
  | nil => rfl
  | cons item items ih =>
      cases accepted : accepts item with
      | true =>
          have isOther := imp item (List.find?_cons_of_pos accepted)
          rw [List.find?_cons_of_pos accepted, List.find?_cons_of_pos isOther]
      | false =>
          have notOther : ¬others item = true := fun isOther =>
            Bool.false_ne_true (accepted.symm.trans (conv item (List.find?_cons_of_pos isOther)))
          have notAccepted : ¬accepts item = true := Bool.eq_false_iff.1 accepted
          simp only [List.find?_cons_of_neg notAccepted, List.find?_cons_of_neg notOther]
            at imp conv ⊢
          exact ih imp conv

/-- The same manifest is in force in two file systems that are alike but for another file. -/
theorem discover?_eq (alike : system.AlikeExcept changed other)
    {entries others : List (FileName × FileTree)}
    (isDirectory : system.files path = .directory entries)
    (isOther : other.files path = .directory others)
    (apart : ¬IsAt system path changed) (otherApart : ¬IsAt other path changed) :
    discover? other.files path = discover? system.files path := by
  rw [discover?, discover?, candidates_of_directory isDirectory, candidates_of_directory isOther]
  symm
  apply find?_eq_of_imp
  · intro directory isFound
    have isDiscovered : discover? system.files path = some directory := by
      rwa [discover?, candidates_of_directory isDirectory]
    obtain ⟨content, -, isThere⟩ := file_of_discovered alike isDiscovered apart
    rw [isThere, Entry.isFile]
  · intro directory isFound
    have isDiscovered : discover? other.files path = some directory := by
      rwa [discover?, candidates_of_directory isOther]
    obtain ⟨content, -, isThere⟩ := file_of_discovered alike.symm isDiscovered otherApart
    rw [isThere, Entry.isFile]

theorem failures_eq_and_inForce_eq (alike : system.AlikeExcept changed other)
    {entries others : List (FileName × FileTree)}
    (isDirectory : system.files path = .directory entries)
    (isOther : other.files path = .directory others)
    (apart : ¬IsAt system path changed) (otherApart : ¬IsAt other path changed) :
    failures other.files path = failures system.files path ∧
      inForce other.files path = inForce system.files path := by
  rw [failures, failures, inForce, inForce,
    discover?_eq alike isDirectory isOther apart otherApart]
  cases isDiscovered : discover? system.files path with
  | none => exact ⟨rfl, rfl⟩
  | some directory =>
      obtain ⟨content, isFile, isSame⟩ := file_of_discovered alike isDiscovered apart
      simp only [isFile, isSame, Option.bind_some, and_self]

end Manifest

namespace SourceFile

/-- The source file to which names lead from the place of a path, if there is one. -/
def ownAt (root : List (FileName × FileTree)) (path : Path) (home : List FileName)
    (names : List String) : List SourceFile :=
  (ownSource root home names).map fun found => ⟨path.below found.1, found.2⟩

end SourceFile

/-- Two file systems that differ in one file below the directory at a path.  It is added, removed
or given another content, and can be read if it is a source file then. -/
structure FileSystem.Edited (system : FileSystem) (path : Path) (home : List FileName)
    (names : List String) (other : FileSystem) : Prop where
  distinct : distinctNames system.root = true
  otherDistinct : distinctNames other.root = true
  isHome : system.placeOf? path = some home
  isDirectory : ∃ entries, system.files path = .directory entries
  alike : system.AlikeExcept ((names.map .text).reverse ++ home) other
  readable : ∀ source ∈ SourceFile.ownAt other.root path home names, source.readFailure? = none

namespace FileSystem.Edited

variable {system other : FileSystem} {path : Path} {home : List FileName} {names : List String}

theorem exists_directories (edited : system.Edited path home names other) :
    ∃ entries others, system.files path = .directory entries ∧
      other.files path = .directory others ∧
      treeAt? system.root home = some (.directory entries) ∧
        treeAt? other.root home = some (.directory others) := by
  obtain ⟨entries, isDirectory⟩ := edited.isDirectory
  obtain ⟨place, others, isPlace, isTree, isOther, isOtherTree⟩ :=
    edited.alike.exists_directories isDirectory
  obtain rfl := Option.some.inj (edited.isHome.symm.trans isPlace)
  exact ⟨entries, others, isDirectory, isOther, isTree, isOtherTree⟩

theorem exists_foundAt_eq (edited : system.Edited path home names other) :
    ∃ first last,
      SourceFile.foundAt system.files path =
        first ++ SourceFile.ownAt system.root path home names ++ last ∧
      SourceFile.foundAt other.files path =
        first ++ SourceFile.ownAt other.root path home names ++ last := by
  obtain ⟨entries, others, isDirectory, isOther, isTree, isOtherTree⟩ := edited.exists_directories
  obtain ⟨first, last, isList, isOtherList⟩ := edited.alike.trees.exists_sortedBelow_eq
    edited.distinct edited.otherDistinct isTree isOtherTree
  rw [SourceFile.foundAt, SourceFile.foundAt, isDirectory, isOther]
  dsimp only
  rw [isList, isOtherList]
  simp only [List.map_append]
  exact ⟨_, _, rfl, rfl⟩

/-- The names that lead to the file are texts, and there is at least one. -/
theorem exists_changed_eq (edited : system.Edited path home names other) :
    ∃ text outer, (names.map FileName.text).reverse ++ home = .text text :: outer := by
  rcases names.eq_nil_or_concat with rfl | ⟨earlier, last, rfl⟩
  · obtain ⟨entries, others, -, -, isTree, -⟩ := edited.exists_directories
    obtain ⟨content, isFile⟩ := edited.alike.trees.first _ isTree
    contradiction
  · exact ⟨last, (earlier.map FileName.text).reverse ++ home, by simp⟩

theorem pathFailures_eq_nil (edited : system.Edited path home names other)
    (succeeds : SourceFile.pathFailures system.files path = []) :
    SourceFile.pathFailures other.files path = [] := by
  obtain ⟨entries, others, isDirectory, isOther, isTree, isOtherTree⟩ := edited.exists_directories
  rw [SourceFile.pathFailures, isDirectory] at succeeds
  rw [SourceFile.pathFailures, isOther]
  refine SourceFile.failuresBelow_eq_nil_iff.2 fun failure fails => ?_
  exact SourceFile.failuresBelow_eq_nil_iff.1 succeeds failure
    (edited.alike.trees.failsBelow edited.exists_changed_eq edited.distinct edited.otherDistinct
      isTree isOtherTree fails)

theorem readFailures_eq_nil (edited : system.Edited path home names other)
    (succeeds : (SourceFile.foundAt system.files path).filterMap SourceFile.readFailure? = []) :
    (SourceFile.foundAt other.files path).filterMap SourceFile.readFailure? = [] := by
  obtain ⟨first, last, isFound, isOtherFound⟩ := edited.exists_foundAt_eq
  rw [List.filterMap_eq_nil_iff, isFound] at succeeds
  rw [List.filterMap_eq_nil_iff, isOtherFound]
  intro source member
  rcases List.mem_append.1 member with early | isLast
  · rcases List.mem_append.1 early with isFirst | isOwn
    · exact succeeds source (List.mem_append_left _ (List.mem_append_left _ isFirst))
    · exact edited.readable source isOwn
  · exact succeeds source (List.mem_append_right _ isLast)

end FileSystem.Edited

theorem Consumption.failures_eq_and_recordedIn_eq {system other : FileSystem}
    {changed : List FileName} (alike : system.AlikeExcept changed other) {path : Path}
    (apart : system.placeOf? path ≠ some changed)
    (succeeds : failures system.files path = []) :
    failures other.files path = [] ∧
      recordedIn other.files path = recordedIn system.files path := by
  have isSame : other.files path = system.files path := by
    cases found : system.files path with
    | missing | obstructed | directory => simp [failures, found, Entry.text?] at succeeds
    | file content => exact alike.files_eq_file found apart
  rw [failures, recordedIn, isSame]
  exact ⟨succeeds, rfl⟩

/-- A command fails with the first failure that it meets, printing nothing, or answers for all
source files.  If then one file below the directory of the command is added, removed or edited,
which is not also the manifest or the file with the recorded ids, the command answers for the
same other files, with the same manifest and the same recorded ids. -/
theorem run_all_or_nothing :
    (∀ (files : Files) (command : Command), command.run files =
      match command.failures files with
      | [] => command.answerFrom files
      | failure :: _ => ⟨1, [.complain failure.message]⟩) ∧
    (∀ (files : Files) (command : Command), command.failures files ≠ [] →
      (command.run files).output = "" ∧
        ∀ effects, ((command.act files).run.run effects).2 = effects) ∧
    ∀ (command : Command) (path : Path) (home : List FileName) (names : List String)
      (system other : FileSystem), command.path? = some path →
      system.Edited path home names other →
      ¬Manifest.IsAt system path ((names.map .text).reverse ++ home) →
      ¬Manifest.IsAt other path ((names.map .text).reverse ++ home) →
      (∀ file ∈ command.records?,
        system.placeOf? file ≠ some ((names.map .text).reverse ++ home)) →
      command.failures system.files = [] →
      ∃ first last,
        let manifest := Manifest.inForce system.files path
        let recorded :=
          (command.records?.map (Consumption.recordedIn system.files)).getD .empty
        command.run system.files = command.answer manifest recorded
          (first ++ SourceFile.ownAt system.root path home names ++ last) ∧
        command.run other.files = command.answer manifest recorded
          (first ++ SourceFile.ownAt other.root path home names ++ last) := by
  refine ⟨Command.run_eq, Command.run_of_failures_ne_nil, ?_⟩
  intro command path home names system other isPath edited apart otherApart recordsApart succeeds
  obtain ⟨entries, others, isDirectory, isOther, -⟩ := edited.exists_directories
  obtain ⟨first, last, isFound, isOtherFound⟩ := edited.exists_foundAt_eq
  obtain ⟨manifestFailures, sameManifest⟩ :=
    Manifest.failures_eq_and_inForce_eq edited.alike isDirectory isOther apart otherApart
  refine ⟨first, last, ?_, ?_⟩
  · rw [Command.run_eq, succeeds]
    simp only [Command.answerFrom, isPath, Option.map_some, Option.getD_some, isFound]
  · obtain ⟨manifestFine, recordsFine, pathFine, sourcesFine⟩ :=
      (Command.failures_eq_nil_iff isPath).1 succeeds
    have records (file : Path) (isRecords : file ∈ command.records?) :=
      Consumption.failures_eq_and_recordedIn_eq edited.alike (recordsApart file isRecords)
        (recordsFine file isRecords)
    have otherSucceeds : command.failures other.files = [] :=
      (Command.failures_eq_nil_iff isPath).2 ⟨manifestFailures.trans manifestFine,
        fun file isRecords => (records file isRecords).1, edited.pathFailures_eq_nil pathFine,
        edited.readFailures_eq_nil sourcesFine⟩
    have sameRecorded : command.records?.map (Consumption.recordedIn other.files) =
        command.records?.map (Consumption.recordedIn system.files) :=
      Option.map_congr fun file isRecords => (records file isRecords).2
    rw [Command.run_eq, otherSucceeds]
    simp only [Command.answerFrom, isPath, Option.map_some, Option.getD_some, isOtherFound,
      sameManifest, sameRecorded]

/-! ## The root as the working directory -/

/-- The file system with a tree in whose root one works. -/
def FileSystem.ofRoot (root : List (FileName × FileTree)) : FileSystem := ⟨root, [], root, rfl⟩

section

variable {root : List (FileName × FileTree)} {path : Path} {front : List String}

theorem placeOf?_ofRoot (path : Path) :
    (FileSystem.ofRoot root).placeOf? path =
      locate root linkLimit [] (path.segments.map .text) := by
  rw [FileSystem.placeOf?, FileSystem.start]
  cases path.isAbsolute <;> rfl

/-- Segments that stay where they are. -/
theorem locate_of_blank (blank : ∀ segment ∈ front, segment = "" ∨ segment = ".")
    (rest : List FileName) :
    locate root linkLimit [] (front.map .text ++ rest) = locate root linkLimit [] rest := by
  induction front with
  | nil => rfl
  | cons segment front ih =>
      obtain ⟨isBlank, laterBlank⟩ := List.forall_mem_cons.1 blank
      have blankName : FileName.text segment = "" ∨ FileName.text segment = "." :=
        isBlank.imp (congrArg FileName.text) (congrArg FileName.text)
      rw [List.map_cons, List.cons_append, locate_blank root linkLimit [] _ blankName,
        ih laterBlank]

theorem files_of_blank (blank : ∀ segment ∈ path.segments, segment = "" ∨ segment = ".")
    (followed : path.canBeFollowed = true) (notEmpty : path.text ≠ "") :
    (FileSystem.ofRoot root).placeOf? path = some [] ∧
      (FileSystem.ofRoot root).files path = .directory root := by
  have isPlace : (FileSystem.ofRoot root).placeOf? path = some [] := by
    rw [placeOf?_ofRoot, ← List.append_nil (path.segments.map _), locate_of_blank blank,
      locate_nil]
  refine ⟨isPlace, Entry.tree?_eq_directory_iff.1 ?_⟩
  rw [FileSystem.tree?_files followed notEmpty, isPlace]
  rfl

/-- What a path finds that leads to an entry of the root. -/
theorem files_of_entry {name : String} {content : ByteArray}
    (isSegments : path.segments = front ++ [name])
    (blank : ∀ segment ∈ front, segment = "" ∨ segment = ".") (isName : IsName (.text name))
    (isEntry : root.lookup (.text name) = some (.file content))
    (followed : path.canBeFollowed = true) (notEmpty : path.text ≠ "") :
    (FileSystem.ofRoot root).placeOf? path = some [.text name] ∧
      (FileSystem.ofRoot root).files path = .file content := by
  have isTree : treeAt? root [.text name] = some (.file content) := isEntry
  have isPlace : (FileSystem.ofRoot root).placeOf? path = some [.text name] := by
    rw [placeOf?_ofRoot, isSegments, List.map_append, locate_of_blank blank, List.map_singleton,
      locate_name root linkLimit [] [] isName, isTree]
    rfl
  refine ⟨isPlace, Entry.tree?_eq_file_iff.1 ?_⟩
  rw [FileSystem.tree?_files followed notEmpty, isPlace]
  exact isTree

end

theorem fromUTF8?_toUTF8 (text : String) : String.fromUTF8? text.toUTF8 = some text := by
  rw [String.fromUTF8?]
  split
  · rfl
  · rename_i invalid
    exact absurd text.isValidUTF8 invalid

section

variable {files : Files} {path : Path} {entries : List (FileName × FileTree)} {manifest : String}

theorem discover?_of_directory (isDirectory : files path = .directory entries)
    (isFile : files (Manifest.pathIn path) = .file manifest.toUTF8) :
    Manifest.discover? files path = some path := by
  rw [Manifest.discover?, Manifest.candidates_of_directory isDirectory, Path.ancestors]
  apply List.find?_cons_of_pos
  rw [isFile, Entry.isFile]

theorem manifestFailures_of_directory (isDirectory : files path = .directory entries)
    (isFile : files (Manifest.pathIn path) = .file manifest.toUTF8)
    (isManifest : (Manifest.ofText? manifest).isSome = true) :
    Manifest.failures files path = [] := by
  rw [Manifest.failures, discover?_of_directory isDirectory isFile]
  dsimp only
  rw [isFile, Entry.text?, fromUTF8?_toUTF8]
  exact if_pos isManifest

theorem pathFailures_of_directory (isDirectory : files path = .directory entries) :
    SourceFile.pathFailures files path = SourceFile.failuresBelow path entries := by
  rw [SourceFile.pathFailures, isDirectory]

end

theorem run_all_or_nothing_after_edit :
    let text (content : String) : FileTree := .file content.toUTF8
    let others : List (FileName × FileTree) :=
      [("app.json", text "\x7b\"preprocessorSymbols\":[\"P\"]\x7d"),
        ("b.al", text "#if Q\n#else\ncodeunit 1 B \x7b \x7d\n#endif"),
        ("ids.json", text "\x7b\"codeunit\":[1]\x7d")]
    let system := FileSystem.ofRoot (("a.al", text "#define Q\ncodeunit 2 A \x7b \x7d") :: others)
    let other := FileSystem.ofRoot (("a.al", text "codeunit 3 A \x7b \x7d") :: others)
    let command : Command := .check ⟨"/"⟩ ⟨"ids.json"⟩ []
    command.failures system.files = [] ∧ ∃ first last,
      let manifest := Manifest.inForce system.files ⟨"/"⟩
      let recorded := Consumption.recordedIn system.files ⟨"ids.json"⟩
      command.run system.files = command.answer manifest recorded
        (first ++ SourceFile.ownAt system.root ⟨"/"⟩ [] ["a.al"] ++ last) ∧
      command.run other.files = command.answer manifest recorded
        (first ++ SourceFile.ownAt other.root ⟨"/"⟩ [] ["a.al"] ++ last) := by
  intro text others system other command
  obtain ⟨isHome, isDirectory⟩ :
      system.placeOf? ⟨"/"⟩ = some [] ∧ system.files ⟨"/"⟩ = .directory system.root :=
    files_of_blank (by decide) (by decide) (by decide)
  obtain ⟨recordsPlace, records⟩ :
      system.placeOf? ⟨"ids.json"⟩ = some [.text "ids.json"] ∧
        system.files ⟨"ids.json"⟩ = .file "\x7b\"codeunit\":[1]\x7d".toUTF8 :=
    files_of_entry (List.nil_append _).symm nofun ⟨by decide, by decide, by decide⟩ rfl
      (by decide) (by decide)
  have isPathIn : Manifest.pathIn ⟨"/"⟩ = ⟨"/app.json"⟩ := by decide +kernel
  obtain ⟨-, manifest⟩ :
      system.placeOf? (Manifest.pathIn ⟨"/"⟩) = some [.text "app.json"] ∧
        system.files (Manifest.pathIn ⟨"/"⟩) =
          .file "\x7b\"preprocessorSymbols\":[\"P\"]\x7d".toUTF8 := by
    rw [isPathIn]
    exact files_of_entry (List.nil_append _).symm nofun ⟨by decide, by decide, by decide⟩ rfl
      (by decide) (by decide)
  have edited : system.Edited ⟨"/"⟩ [] ["a.al"] other := by
    refine ⟨?_, ?_, isHome, ⟨system.root, isDirectory⟩, ⟨?_, rfl⟩, ?_⟩
    · simp [system, FileSystem.ofRoot, others, text, distinctNames]
    · simp [other, FileSystem.ofRoot, others, text, distinctNames]
    · apply AlikeExcept.of_lookup
      · intro key apart
        simp only [system, other, FileSystem.ofRoot, List.lookup_cons, beq_false_of_ne apart]
      · exact fun tree isTree => ⟨_, (Option.some.inj isTree).symm⟩
      · exact fun tree isTree => ⟨_, (Option.some.inj isTree).symm⟩
    · decide +kernel
  have noFailures : command.failures system.files = [] := by
    rw [Command.failures_eq_nil_iff rfl]
    refine ⟨manifestFailures_of_directory isDirectory manifest (by decide +kernel), ?_, ?_, ?_⟩
    · intro file isRecords
      obtain rfl := Option.some.inj isRecords
      rw [Consumption.failures, records]
      decide +kernel
    · rw [pathFailures_of_directory isDirectory]
      simp [system, FileSystem.ofRoot, others, text, SourceFile.failuresBelow]
    · have readable : ∀ found ∈ SourceFile.belowEntries system.root,
          SourceFile.readFailure? ⟨Path.below ⟨"/"⟩ found.1, found.2⟩ = none := by
        have listed : SourceFile.belowEntries system.root =
            [(["a.al"], "#define Q\ncodeunit 2 A \x7b \x7d".toUTF8),
              (["b.al"], "#if Q\n#else\ncodeunit 1 B \x7b \x7d\n#endif".toUTF8)] := by
          simp only [system, FileSystem.ofRoot, others, text, SourceFile.belowEntries]
          rfl
        rw [listed]
        decide +kernel
      rw [List.filterMap_eq_nil_iff, SourceFile.foundAt, isDirectory]
      intro source isFound
      obtain ⟨found, isListed, rfl⟩ := List.mem_map.1 isFound
      exact readable found (List.mem_mergeSort.1 isListed)
  have apart : (["a.al"].map FileName.text).reverse.head? ≠ some (.text Manifest.fileName) := by
    decide
  exact ⟨noFailures, run_all_or_nothing.2.2 command ⟨"/"⟩ [] ["a.al"] system other rfl edited
    (Manifest.not_isAt_of_hasNoLinks
      (by simp [system, FileSystem.ofRoot, others, text, hasNoLinks]) apart)
    (Manifest.not_isAt_of_hasNoLinks
      (by simp [other, FileSystem.ofRoot, others, text, hasNoLinks]) apart)
    (fun file isRecords => by
      obtain rfl := Option.some.inj isRecords
      rw [recordsPlace]
      decide) noFailures⟩

/-! ## What else can go wrong -/

namespace Path

/-- A path of points, which leads nowhere else. -/
def dots (count : Nat) : Path := ofSegments false (List.replicate (count + 1) ".")

theorem dots_succ (count : Nat) : dots (count + 1) = ⟨(dots count).text ++ "/."⟩ := by
  rw [dots, List.replicate_succ', ofSegments_append (by simp) (by simp), ofSegments_singleton,
    String.append_assoc]
  rfl

theorem utf8ByteSize_dots (count : Nat) : (dots count).text.utf8ByteSize = 2 * count + 1 := by
  induction count with
  | zero => decide
  | succ count ih =>
      rw [dots_succ, String.utf8ByteSize_append, ih]
      have pair : "/.".utf8ByteSize = 2 := by decide
      omega

theorem not_null_mem_dots (count : Nat) : '\x00' ∉ (dots count).text.toList := by
  induction count with
  | zero => decide
  | succ count ih =>
      rw [dots_succ, String.toList_append, List.mem_append]
      exact not_or.2 ⟨ih, by decide⟩

theorem spelled_dots (count : Nat) : Spelled false (List.replicate (count + 1) ".") := by
  refine ⟨fun segment member => ?_, fun _ isBlank => ?_⟩
  · rw [List.eq_of_mem_replicate member]
    decide
  · rw [List.replicate_succ, List.head?_cons] at isBlank
    contradiction

theorem segments_dots (count : Nat) : (dots count).segments = List.replicate (count + 1) "." :=
  (spelled_dots count).segments_ofSegments (by simp)

theorem join_dots (count : Nat) : (dots count).join "d" = ⟨(dots count).text ++ "/d"⟩ := by
  obtain ⟨kept, isKept, -, isJoined⟩ :=
    (spelled_dots count).exists_join_eq (by decide : '/' ∉ "d".toList) (by decide)
  rcases isKept with rfl | isBlank
  · rw [dots, isJoined, ofSegments_append (by simp) (by simp), ofSegments_singleton,
      String.append_assoc]
    rfl
  · have isLast : "" ∈ List.replicate (count + 1) "." := by simp [isBlank]
    exact absurd (List.eq_of_mem_replicate isLast) (by decide)

theorem join_dots_canBeFollowed {count : Nat} (long : sizeLimit < 2 * count + 3) :
    ((dots count).join "d").canBeFollowed = false := by
  have added : "/d".utf8ByteSize = 2 := by decide
  rw [join_dots, canBeFollowed, String.utf8ByteSize_append, utf8ByteSize_dots, added]
  simp only [Bool.and_eq_false_iff, decide_eq_false_iff_not, Nat.not_le]
  exact .inl (by omega)

end Path

theorem files_dots (root : List (FileName × FileTree)) {count : Nat}
    (short : 2 * count + 1 ≤ Path.sizeLimit) :
    (FileSystem.ofRoot root).files (Path.dots count) = .directory root := by
  refine (files_of_blank ?_ ?_ ?_).2
  · intro segment member
    rw [Path.segments_dots] at member
    exact .inr (List.eq_of_mem_replicate member)
  · have noNull := Path.not_null_mem_dots count
    simp [Path.canBeFollowed, Path.utf8ByteSize_dots, short, noNull]
  · intro isEmpty
    have size := Path.utf8ByteSize_dots count
    rw [isEmpty] at size
    simp at size

/-- A file system in which the manifest is a link to a source file. -/
def linkedManifest (manifest source : String) : FileSystem :=
  .ofRoot [("app.json", .link ⟨"x.al".toUTF8⟩), ("x.al", .file manifest.toUTF8),
    ("y.al", .file source.toUTF8)]

section LinkedManifest

variable (manifest source : String)

theorem files_linkedManifest_dot :
    (linkedManifest manifest source).files ⟨"."⟩ =
      .directory (linkedManifest manifest source).root :=
  (files_of_blank (by decide) (by decide) (by decide)).2

theorem files_linkedManifest :
    (linkedManifest manifest source).files (Manifest.pathIn ⟨"."⟩) = .file manifest.toUTF8 := by
  let target : LinkTarget := ⟨"x.al".toUTF8⟩
  have isPathIn : Manifest.pathIn ⟨"."⟩ = ⟨"./app.json"⟩ := by decide +kernel
  have isSegments : (Path.mk "./app.json").segments.map FileName.text =
      ["."].map .text ++ [.text "app.json"] := by decide
  have isTarget : target.start [] = [] ∧ target.segments = [FileName.text "x.al"] := by
    decide +kernel
  have notEmpty : target.bytes.isEmpty = false := by decide +kernel
  have isLink : treeAt? (linkedManifest manifest source).root ["app.json"] =
      some (.link target) := rfl
  have isFile : treeAt? (linkedManifest manifest source).root ["x.al"] =
      some (.file manifest.toUTF8) := rfl
  have isPlace : (linkedManifest manifest source).placeOf? ⟨"./app.json"⟩ =
      some [.text "x.al"] := by
    show (FileSystem.ofRoot (linkedManifest manifest source).root).placeOf? _ = _
    rw [placeOf?_ofRoot, isSegments, locate_of_blank (by decide),
      locate_name _ _ _ _ ⟨by decide, by decide, by decide⟩, isLink]
    simp only [notEmpty, Bool.false_eq_true, if_false]
    show locate _ 39 (target.start []) (target.segments ++ []) = _
    rw [isTarget.1, isTarget.2, List.append_nil,
      locate_name _ _ _ _ ⟨by decide, by decide, by decide⟩, isFile]
    rfl
  rw [isPathIn]
  refine Entry.tree?_eq_file_iff.1 ?_
  rw [FileSystem.tree?_files (by decide) (by decide), isPlace]
  exact isFile

theorem foundAt_linkedManifest :
    SourceFile.foundAt (linkedManifest manifest source).files ⟨"."⟩ =
      [⟨⟨"./x.al"⟩, manifest.toUTF8⟩, ⟨⟨"./y.al"⟩, source.toUTF8⟩] := by
  have listed : SourceFile.belowEntries (linkedManifest manifest source).root =
      [(["x.al"], manifest.toUTF8), (["y.al"], source.toUTF8)] := by
    simp only [linkedManifest, FileSystem.ofRoot, SourceFile.belowEntries]
    rfl
  have sorted : SourceFile.sortedBelow (linkedManifest manifest source).root =
      [(["x.al"], manifest.toUTF8), (["y.al"], source.toUTF8)] := by
    rw [SourceFile.sortedBelow, SourceFile.sort, listed]
    apply List.mergeSort_of_pairwise
    rw [List.pairwise_pair]
    show SourceFile.inOrder ["x.al"] ["y.al"] = true
    decide
  rw [SourceFile.foundAt, files_linkedManifest_dot]
  have firstPath : Path.below ⟨"."⟩ ["x.al"] = ⟨"./x.al"⟩ := by decide +kernel
  have secondPath : Path.below ⟨"."⟩ ["y.al"] = ⟨"./y.al"⟩ := by decide +kernel
  simp only [sorted, List.map_cons, List.map_nil, firstPath, secondPath]

theorem scan_linkedManifest (isManifest : (Manifest.ofText? manifest).isSome = true) :
    (Command.scan ⟨"."⟩ [] false).run (linkedManifest manifest source).files =
      (Command.scan ⟨"."⟩ [] false).answer ((Manifest.ofText? manifest).getD .empty) .empty
        [⟨⟨"./x.al"⟩, manifest.toUTF8⟩, ⟨⟨"./y.al"⟩, source.toUTF8⟩] := by
  have isDirectory := files_linkedManifest_dot manifest source
  have isFile := files_linkedManifest manifest source
  have succeeds : (Command.scan ⟨"."⟩ [] false).failures
      (linkedManifest manifest source).files = [] := by
    rw [Command.failures_eq_nil_iff rfl]
    refine ⟨manifestFailures_of_directory isDirectory isFile isManifest, nofun, ?_, ?_⟩
    · rw [pathFailures_of_directory isDirectory]
      simp [linkedManifest, FileSystem.ofRoot, SourceFile.failuresBelow]
    · have readable (content : String) {path : Path} (followed : path.canBeFollowed = true) :
          SourceFile.readFailure? ⟨path, content.toUTF8⟩ = none :=
        if_pos ⟨followed, by rw [fromUTF8?_toUTF8, Option.isSome_some]⟩
      rw [foundAt_linkedManifest, List.filterMap_cons_none (readable manifest (by decide)),
        List.filterMap_cons_none (readable source (by decide)), List.filterMap_nil]
  rw [Command.run_eq, succeeds]
  simp only [Command.answerFrom, Command.path?, Command.records?, Option.map_some,
    Option.getD_some, Option.map_none, Option.getD_none, foundAt_linkedManifest]
  rw [Manifest.inForce, discover?_of_directory isDirectory isFile, Option.bind_some, isFile,
    Entry.text?, fromUTF8?_toUTF8, Option.bind_some]

end LinkedManifest

/-- A file system that holds one directory, which is empty. -/
def emptyDirectory (name : FileName) : FileSystem := .ofRoot [(name, .directory [])]

section EmptyDirectory

variable {name : FileName}

theorem treeAt?_emptyDirectory {place : List FileName} {tree : FileTree}
    (isTree : treeAt? (emptyDirectory name).root place = some tree) :
    tree = .directory (emptyDirectory name).root ∨ tree = .directory [] := by
  induction place generalizing tree with
  | nil => exact .inl (Option.some.inj isTree).symm
  | cons key outer ih =>
      obtain ⟨entries, isOuter, isEntry⟩ := exists_directory_of_treeAt?_cons isTree
      rcases ih isOuter with isRoot | isEmpty
      · obtain rfl := FileTree.directory.inj isRoot
        rw [emptyDirectory, FileSystem.ofRoot, List.lookup_cons] at isEntry
        split at isEntry
        · exact .inr (Option.some.inj isEntry).symm
        · contradiction
      · obtain rfl := FileTree.directory.inj isEmpty
        contradiction

theorem discover?_emptyDirectory (path : Path) :
    Manifest.discover? (emptyDirectory name).files path = none := by
  cases isDiscovered : Manifest.discover? (emptyDirectory name).files path with
  | none => rfl
  | some directory =>
      obtain ⟨content, isFile⟩ := Manifest.exists_eq_file_of_discover? isDiscovered
      obtain ⟨-, -, place, -, isTree⟩ :=
        FileSystem.of_tree?_files (Entry.tree?_eq_file_iff.2 isFile)
      rcases treeAt?_emptyDirectory isTree with impossible | impossible <;> contradiction

/-- Without any file there is nothing that could not be read, and still a directory in it may
make a scan fail. -/
theorem scan_emptyDirectory {path : Path} {failure : Failure}
    (isDirectory : (emptyDirectory name).files path = .directory (emptyDirectory name).root)
    (fails : SourceFile.failuresBelow path (emptyDirectory name).root = [failure]) :
    Manifest.load (emptyDirectory name).files path = .ok .empty ∧
      SourceFile.foundAt (emptyDirectory name).files path = [] ∧
        (Command.scan path [] false).run (emptyDirectory name).files =
          ⟨1, [.complain failure.message]⟩ := by
  refine ⟨?_, ?_, ?_⟩
  · rw [Manifest.load, discover?_emptyDirectory]
  · rw [SourceFile.foundAt, isDirectory]
    cases name <;>
      simp [emptyDirectory, FileSystem.ofRoot, SourceFile.sortedBelow, SourceFile.sort,
        SourceFile.belowEntries]
  · rw [Command.run_eq, Command.failures, Manifest.failures, discover?_emptyDirectory,
      pathFailures_of_directory isDirectory, fails]
    rfl

end EmptyDirectory

theorem run_fails_beyond_files_and_path :
    let far := Path.dots 2047
    let unnamed := emptyDirectory (.bytes ⟨#[255]⟩ (by decide))
    let source := "#if P\ncodeunit 1 A \x7b \x7d\n#endif"
    let first := linkedManifest "\x7b\x7d" source
    let second := linkedManifest "\x7b\"preprocessorSymbols\":[\"P\"]\x7d" source
    let command : Command := .scan ⟨"."⟩ [] false
    ((emptyDirectory "d").files far = .directory (emptyDirectory "d").root ∧
      Manifest.load (emptyDirectory "d").files far = .ok .empty ∧
      SourceFile.foundAt (emptyDirectory "d").files far = [] ∧
      (Command.scan far [] false).run (emptyDirectory "d").files =
        ⟨1, [.complain (Failure.directoryUnreadable (far.join "d")).message]⟩) ∧
    (unnamed.files ⟨"."⟩ = .directory unnamed.root ∧
      Manifest.load unnamed.files ⟨"."⟩ = .ok .empty ∧
      SourceFile.foundAt unnamed.files ⟨"."⟩ = [] ∧
      command.run unnamed.files = ⟨1, [.complain "Non-UTF-8 path"]⟩) ∧
    first.AlikeExcept [.text "x.al"] second ∧ command.run first.files = ⟨0, [.print ""]⟩ ∧
      command.run second.files = ⟨0, [.print "./y.al:2:1 codeunit 1 A\n"]⟩ := by
  intro far unnamed source first second command
  refine ⟨⟨files_dots _ (by decide), ?_⟩, ⟨?_, ?_⟩, ⟨?_, rfl⟩, ?_, ?_⟩
  · apply scan_emptyDirectory (files_dots _ (by decide))
    have tooFar : (far.join "d").canBeFollowed = false :=
      Path.join_dots_canBeFollowed (by decide)
    show SourceFile.failuresBelow far [(.text "d", .directory [])] = _
    rw [SourceFile.failuresBelow, if_neg (Bool.eq_false_iff.1 tooFar), SourceFile.failuresBelow,
      List.append_nil]
  · exact (files_of_blank (by decide) (by decide) (by decide)).2
  · have fails : SourceFile.failuresBelow ⟨"."⟩ unnamed.root = [.nameNotText] := by
      simp [unnamed, emptyDirectory, FileSystem.ofRoot, SourceFile.failuresBelow]
    exact scan_emptyDirectory (files_of_blank (by decide) (by decide) (by decide)).2 fails
  · apply AlikeExcept.of_lookup
    · intro key apart
      simp only [first, second, linkedManifest, FileSystem.ofRoot, List.lookup_cons,
        beq_false_of_ne apart]
    · exact fun tree isTree => ⟨_, (Option.some.inj isTree).symm⟩
    · exact fun tree isTree => ⟨_, (Option.some.inj isTree).symm⟩
  · exact (scan_linkedManifest _ _ (by decide +kernel)).trans (by decide +kernel)
  · exact (scan_linkedManifest _ _ (by decide +kernel)).trans (by decide +kernel)

end ObjectIds
