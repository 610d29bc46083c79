import ObjectIds.Proofs.DiscoveredSources

/-!
# Trees that differ in one file

Two trees that are alike but for one regular file, which either may lack, are the same to every
path that does not lead to this file, and the source files below a directory are the same but
for this one.
-/

namespace ObjectIds

namespace FileTree

/-- What stands at a place, without the entries of a directory. -/
inductive Surface where
  | file (content : ByteArray)
  | directory
  | link (target : LinkTarget)

/-- A tree without the entries of a directory. -/
def surface : FileTree → Surface
  | .file content => .file content
  | .directory _ => .directory
  | .link target => .link target

/-- Two trees that are alike except at one place, where there is a regular file or nothing. -/
structure AlikeExcept (changed : List FileName) (root other : List (FileName × FileTree)) :
    Prop where
  elsewhere : ∀ place, place ≠ changed →
    (treeAt? root place).map surface = (treeAt? other place).map surface
  first : ∀ tree ∈ treeAt? root changed, ∃ content, tree = .file content
  second : ∀ tree ∈ treeAt? other changed, ∃ content, tree = .file content

variable {root other : List (FileName × FileTree)} {changed place : List FileName}

theorem surface_eq_directory_iff {tree : FileTree} :
    tree.surface = .directory ↔ ∃ entries, tree = .directory entries := by
  cases tree <;> simp [surface]

theorem surface_eq_file_iff {tree : FileTree} {content : ByteArray} :
    tree.surface = .file content ↔ tree = .file content := by
  cases tree <;> simp [surface]

theorem surface_eq_link_iff {tree : FileTree} {target : LinkTarget} :
    tree.surface = .link target ↔ tree = .link target := by
  cases tree <;> simp [surface]

theorem treeAt?_inside_file {name : FileName} {outer : List FileName}
    (isFile : ∀ tree ∈ treeAt? root outer, ∃ content, tree = .file content) :
    treeAt? root (name :: outer) = none := by
  rw [treeAt?]
  split
  · rename_i isDirectory
    obtain ⟨content, impossible⟩ := isFile _ isDirectory
    contradiction
  all_goals rfl

theorem treeAt?_cons_congr (name : FileName) {outer : List FileName}
    (same : treeAt? root outer = treeAt? other outer) :
    treeAt? root (name :: outer) = treeAt? other (name :: outer) := by
  rw [treeAt?, same, treeAt?]

namespace AlikeExcept

/-- Two working directories that differ in one entry only, which is a file or missing. -/
theorem of_lookup {name : FileName}
    (elsewhere : ∀ key, key ≠ name → root.lookup key = other.lookup key)
    (first : ∀ tree ∈ root.lookup name, ∃ content, tree = .file content)
    (second : ∀ tree ∈ other.lookup name, ∃ content, tree = .file content) :
    AlikeExcept [name] root other := by
  have same (key : FileName) (outer : List FileName) (apart : key :: outer ≠ [name]) :
      treeAt? root (key :: outer) = treeAt? other (key :: outer) := by
    induction outer generalizing key with
    | nil => exact elsewhere key fun isName => apart (isName ▸ rfl)
    | cons next outer ih =>
        by_cases isName : next :: outer = [name]
        · have noneInFirst : treeAt? root [key, name] = none := treeAt?_inside_file first
          have noneInSecond : treeAt? other [key, name] = none := treeAt?_inside_file second
          rw [isName, noneInFirst, noneInSecond]
        · exact treeAt?_cons_congr key (ih next isName)
  refine ⟨fun place apart => ?_, first, second⟩
  cases place with
  | nil => rfl
  | cons key outer => rw [same key outer apart]

theorem symm (alike : AlikeExcept changed root other) : AlikeExcept changed other root :=
  ⟨fun place apart => (alike.elsewhere place apart).symm, alike.second, alike.first⟩

theorem treeAt?_eq_none (alike : AlikeExcept changed root other) (apart : place ≠ changed)
    (isTree : treeAt? root place = none) : treeAt? other place = none := by
  have same := alike.elsewhere place apart
  rwa [isTree, Option.map_none, eq_comm, Option.map_eq_none_iff] at same

theorem treeAt?_eq_some (alike : AlikeExcept changed root other) (apart : place ≠ changed)
    {tree : FileTree} (isTree : treeAt? root place = some tree) :
    ∃ otherTree, treeAt? other place = some otherTree ∧ otherTree.surface = tree.surface := by
  have same := alike.elsewhere place apart
  rwa [isTree, Option.map_some, eq_comm, Option.map_eq_some_iff] at same

/-- From the place where two trees differ, no further segment leads anywhere else. -/
theorem locate_of_changed (alike : AlikeExcept changed root other) (links : Nat)
    (rest : List FileName) {segment : FileName} (isName : IsName segment)
    (isChanged : segment :: place = changed) :
    ∀ found ∈ locate root links place (segment :: rest), found = changed := by
  intro found leads
  rw [locate_name root links place rest isName] at leads
  cases isTree : treeAt? root (segment :: place) with
  | none => simp [isTree] at leads
  | some tree =>
      obtain ⟨content, rfl⟩ := alike.first tree (isChanged ▸ isTree)
      simp only [isTree, Option.mem_ite_none_right, Option.mem_some] at leads
      exact leads.2 ▸ isChanged

/-- Segments lead to the same place in both trees, or in neither to another than the one where
they differ. -/
def SameWay (changed : List FileName) (root other : List (FileName × FileTree)) (links : Nat)
    (place segments : List FileName) : Prop :=
  locate root links place segments = locate other links place segments ∨
    (∀ found ∈ locate root links place segments, found = changed) ∧
      ∀ found ∈ locate other links place segments, found = changed

/-- The way along a name is the same if it is so from the directory with this name, and along
the target of a link with one link less to follow. -/
theorem sameWay_name (alike : AlikeExcept changed root other) {links : Nat} {segment : FileName}
    {rest : List FileName} (isName : IsName segment)
    (entered : SameWay changed root other links (segment :: place) rest)
    (followed : ∀ (target : LinkTarget) (fewer : Nat), fewer < links →
      SameWay changed root other fewer (target.start place) (target.segments ++ rest)) :
    SameWay changed root other links place (segment :: rest) := by
  by_cases isChanged : segment :: place = changed
  · exact .inr ⟨alike.locate_of_changed links rest isName isChanged,
      alike.symm.locate_of_changed links rest isName isChanged⟩
  · rw [SameWay, locate_name root links place rest isName,
      locate_name other links place rest isName]
    cases isTree : treeAt? root (segment :: place) with
    | none =>
        rw [alike.treeAt?_eq_none isChanged isTree]
        exact .inl rfl
    | some tree =>
        obtain ⟨otherTree, isOther, same⟩ := alike.treeAt?_eq_some isChanged isTree
        rw [isOther]
        cases tree with
        | file content =>
            obtain rfl := surface_eq_file_iff.1 same
            exact .inl rfl
        | directory entries =>
            obtain ⟨others, rfl⟩ := surface_eq_directory_iff.1 same
            exact entered
        | link target =>
            obtain rfl := surface_eq_link_iff.1 same
            dsimp only
            split
            · exact .inl rfl
            · cases links with
              | zero => exact .inl rfl
              | succ fewer => exact followed target fewer (Nat.lt_succ_self fewer)

theorem sameWay (alike : AlikeExcept changed root other) (links : Nat)
    (segments : List FileName) : SameWay changed root other links place segments := by
  -- A link leaves one link less to follow, and anything else leaves fewer segments.
  induction links using Nat.strongRecOn generalizing place segments with
  | ind links linksIH =>
    induction segments generalizing place with
    | nil => exact .inl ((locate_nil root links place).trans (locate_nil other links place).symm)
    | cons segment rest ih =>
      by_cases blank : segment = "" ∨ segment = "."
      · rw [SameWay, locate_blank root links place rest blank,
          locate_blank other links place rest blank]
        exact ih
      · by_cases isParent : segment = ".."
        · subst isParent
          rw [SameWay, locate_parent, locate_parent]
          exact ih
        · by_cases long : FileName.sizeLimit < segment.size
          · exact .inl ((locate_long root links place rest blank isParent long).trans
              (locate_long other links place rest blank isParent long).symm)
          · exact alike.sameWay_name ⟨blank, isParent, Nat.not_lt.1 long⟩ ih
              fun target fewer isLess => linksIH fewer isLess _

end AlikeExcept

end FileTree

/-! ## What is found -/

open FileTree

/-- Two file systems with the same working directory that are alike except at one place, where
there is a regular file or nothing. -/
structure FileSystem.AlikeExcept (system : FileSystem) (changed : List FileName)
    (other : FileSystem) : Prop where
  trees : FileTree.AlikeExcept changed system.root other.root
  working : other.working = system.working

namespace FileSystem.AlikeExcept

variable {system other : FileSystem} {changed : List FileName} {path : Path}

theorem symm (alike : system.AlikeExcept changed other) : other.AlikeExcept changed system :=
  ⟨alike.trees.symm, alike.working.symm⟩

/-- What is found in one file system is found in the other, if it is not where they differ. -/
theorem exists_tree?_files (alike : system.AlikeExcept changed other) {tree : FileTree}
    (found : (system.files path).tree? = some tree) (apart : system.placeOf? path ≠ some changed) :
    other.placeOf? path = system.placeOf? path ∧
      ∃ otherTree, (other.files path).tree? = some otherTree ∧
        otherTree.surface = tree.surface := by
  obtain ⟨followed, notEmpty, home, isHome, isTree⟩ := of_tree?_files found
  have samePlace : other.placeOf? path = system.placeOf? path := by
    have sameStart : other.start path.isAbsolute = system.start path.isAbsolute := by
      rw [start, start, alike.working]
    rw [placeOf?, sameStart]
    rcases alike.trees.sameWay linkLimit (path.segments.map .text) with same | ⟨onlyChanged, -⟩
    · exact same.symm
    · exact absurd (isHome.trans (congrArg some (onlyChanged home isHome))) apart
  have homeApart : home ≠ changed := fun isChanged => apart (isChanged ▸ isHome)
  obtain ⟨otherTree, isOther, same⟩ := alike.trees.treeAt?_eq_some homeApart isTree
  refine ⟨samePlace, otherTree, ?_, same⟩
  rw [tree?_files followed notEmpty, samePlace, isHome, Option.bind_some, isOther]

theorem files_eq_file (alike : system.AlikeExcept changed other) {content : ByteArray}
    (isFile : system.files path = .file content) (apart : system.placeOf? path ≠ some changed) :
    other.files path = .file content := by
  have found : (system.files path).tree? = some (.file content) := by rw [isFile, Entry.tree?]
  obtain ⟨-, otherTree, isFound, same⟩ := alike.exists_tree?_files found apart
  rw [surface_eq_file_iff.1 same] at isFound
  exact Entry.tree?_eq_file_iff.1 isFound

/-- A directory at a path is at the same place in both, so that what stands there is known. -/
theorem exists_directories (alike : system.AlikeExcept changed other)
    {entries : List (FileName × FileTree)} (isDirectory : system.files path = .directory entries) :
    ∃ home others, system.placeOf? path = some home ∧
      treeAt? system.root home = some (.directory entries) ∧
      other.files path = .directory others ∧
      treeAt? other.root home = some (.directory others) := by
  have found : (system.files path).tree? = some (.directory entries) := by
    rw [isDirectory, Entry.tree?]
  obtain ⟨-, -, home, isHome, isTree⟩ := of_tree?_files found
  have apart : system.placeOf? path ≠ some changed := by
    intro isChanged
    obtain rfl := Option.some.inj (isHome.symm.trans isChanged)
    obtain ⟨content, isFile⟩ := alike.trees.first _ isTree
    contradiction
  obtain ⟨samePlace, otherTree, isFound, same⟩ := alike.exists_tree?_files found apart
  obtain ⟨others, rfl⟩ := surface_eq_directory_iff.1 same
  obtain ⟨-, -, otherHome, isOtherHome, isOtherTree⟩ := of_tree?_files isFound
  rw [samePlace, isHome] at isOtherHome
  obtain rfl := Option.some.inj isOtherHome
  exact ⟨home, others, isHome, isTree, Entry.tree?_eq_directory_iff.1 isFound, isOtherTree⟩

end FileSystem.AlikeExcept

/-! ## Source files -/

namespace FileTree

variable {root other : List (FileName × FileTree)} {changed place : List FileName}

theorem distinctNames_treeAt? {entries : List (FileName × FileTree)}
    (distinct : distinctNames root = true)
    (isDirectory : treeAt? root place = some (.directory entries)) :
    distinctNames entries = true := by
  induction place generalizing entries with
  | nil =>
      obtain rfl : root = entries := by simpa [treeAt?] using isDirectory
      exact distinct
  | cons name outer ih =>
      obtain ⟨around, isOuter, isEntry⟩ := exists_directory_of_treeAt?_cons isDirectory
      exact distinctNames_of_mem (ih isOuter) ((mem_iff_lookup (ih isOuter)).2 isEntry)

section

variable {α β : Type} [LinearOrder α]

theorem eq_of_mem_iff_of_ascending {items others : List (α × β)}
    (ascending : items.Pairwise fun first second => first.1 < second.1)
    (othersAscending : others.Pairwise fun first second => first.1 < second.1)
    (same : ∀ item, item ∈ items ↔ item ∈ others) : items = others := by
  have : Std.Irrefl fun first second : α × β => first.1 < second.1 :=
    ⟨fun item => lt_irrefl item.1⟩
  have : Std.Antisymm fun first second : α × β => first.1 < second.1 :=
    ⟨fun _ _ before after => absurd after before.asymm⟩
  exact ascending.eq_of_mem_iff othersAscending same

/-- Items whose keys all come after a key are the third part of their division by it. -/
theorem filter_append_filter_of_after [DecidableEq α] {items : List (α × β)} {key : α}
    (after : ∀ item ∈ items, key < item.1) :
    items.filter (·.1 < key) = [] ∧ items.filter (·.1 = key) = [] ∧
      items.filter (key < ·.1) = items := by
  refine ⟨List.filter_eq_nil_iff.2 ?_, List.filter_eq_nil_iff.2 ?_, List.filter_eq_self.2 ?_⟩
  · exact fun item member => by simpa using (after item member).le
  · exact fun item member => by simpa using (after item member).ne'
  · exact fun item member => by simpa using after item member

/-- A list in ascending order is divided by a key. -/
theorem filter_append_filter_of_ascending [DecidableEq α] {items : List (α × β)}
    (ascending : items.Pairwise fun first second => first.1 < second.1) (key : α) :
    items = items.filter (·.1 < key) ++ items.filter (·.1 = key) ++
      items.filter (key < ·.1) := by
  induction items with
  | nil => rfl
  | cons item items ih =>
      obtain ⟨firstLeast, laterAscending⟩ := List.pairwise_cons.1 ascending
      rcases lt_trichotomy item.1 key with before | rfl | after
      · have divided := ih laterAscending
        simp only [List.append_assoc] at divided
        simpa [before, before.ne, before.le] using divided
      · obtain ⟨noneBefore, noneSame, allAfter⟩ := filter_append_filter_of_after firstLeast
        simp [noneBefore, noneSame, allAfter]
      · have allLater : ∀ other ∈ item :: items, key < other.1 :=
          List.forall_mem_cons.2 ⟨after, fun other member =>
            after.trans (firstLeast other member)⟩
        obtain ⟨noneBefore, noneSame, allAfter⟩ := filter_append_filter_of_after allLater
        rw [noneBefore, noneSame, allAfter, List.nil_append, List.nil_append]

end

/-- The source file to which names lead from a place, if there is one. -/
def ownSource (root : List (FileName × FileTree)) (home : List FileName) (names : List String) :
    List (List String × ByteArray) :=
  match treeAt? root ((names.map .text).reverse ++ home) with
  | some (.file content) =>
      if names.getLast?.any SourceFile.isSourceName then [(names, content)] else []
  | some (.directory _) | some (.link _) | none => []

theorem mem_ownSource_iff {home : List FileName} {names : List String}
    {found : List String × ByteArray} :
    found ∈ ownSource root home names ↔
      found.1 = names ∧ treeAt? root ((names.map .text).reverse ++ home) = some (.file found.2) ∧
        names.getLast?.any SourceFile.isSourceName = true := by
  obtain ⟨others, content⟩ := found
  unfold ownSource
  split
  · rename_i other isFile
    split
    · rename_i isSource
      simp [isFile, isSource, eq_comm]
    · rename_i notSource
      simp [notSource]
  all_goals simp_all

theorem mem_sortedBelow_iff_treeAt? {home : List FileName} {names : List String}
    {content : ByteArray} {entries : List (FileName × FileTree)}
    (distinct : distinctNames root = true)
    (isDirectory : treeAt? root home = some (.directory entries)) :
    (names, content) ∈ SourceFile.sortedBelow entries ↔
      treeAt? root ((names.map .text).reverse ++ home) = some (.file content) ∧
        names.getLast?.any SourceFile.isSourceName = true := by
  have entriesDistinct := distinctNames_treeAt? distinct isDirectory
  rw [SourceFile.mem_sortedBelow_iff]
  refine and_congr_left fun isSource => ?_
  constructor
  · exact fun below => below.treeAt?_eq entriesDistinct isDirectory
  · refine below_of_treeAt? (fun isNil => ?_) isDirectory entriesDistinct
    rw [List.map_eq_nil_iff.1 isNil] at isSource
    contradiction

theorem pairwise_ownSource (root : List (FileName × FileTree)) (home : List FileName)
    (names : List String) :
    (ownSource root home names).Pairwise fun first second => first.1 < second.1 := by
  unfold ownSource
  split
  · split <;> simp
  all_goals exact List.Pairwise.nil

theorem filter_sortedBelow_eq {home : List FileName} {names : List String}
    {entries : List (FileName × FileTree)}
    (distinct : distinctNames root = true)
    (isDirectory : treeAt? root home = some (.directory entries)) :
    (SourceFile.sortedBelow entries).filter (·.1 = names) = ownSource root home names := by
  have ascending := SourceFile.pairwise_sortedBelow (distinctNames_treeAt? distinct isDirectory)
  apply eq_of_mem_iff_of_ascending (ascending.filter _) (pairwise_ownSource root home names)
  rintro ⟨found, content⟩
  rw [List.mem_filter, mem_sortedBelow_iff_treeAt? distinct isDirectory, mem_ownSource_iff,
    decide_eq_true_eq, and_comm]
  refine and_congr_right fun isFound => ?_
  obtain rfl : found = names := isFound
  rfl

namespace AlikeExcept

theorem treeAt?_eq_file_iff (alike : AlikeExcept changed root other) (apart : place ≠ changed)
    {content : ByteArray} :
    treeAt? root place = some (.file content) ↔ treeAt? other place = some (.file content) := by
  constructor
  · intro isFile
    obtain ⟨otherTree, isOther, same⟩ := alike.treeAt?_eq_some apart isFile
    rw [isOther, surface_eq_file_iff.1 same]
  · intro isFile
    obtain ⟨otherTree, isOther, same⟩ := alike.symm.treeAt?_eq_some apart isFile
    rw [isOther, surface_eq_file_iff.1 same]

/-- The source files below a directory are the same in both trees but for the one that differs,
which has the same files before it and after it. -/
theorem exists_sortedBelow_eq {home : List FileName} {names : List String}
    (alike : AlikeExcept ((names.map .text).reverse ++ home) root other)
    {entries others : List (FileName × FileTree)}
    (distinct : distinctNames root = true) (otherDistinct : distinctNames other = true)
    (isDirectory : treeAt? root home = some (.directory entries))
    (isOther : treeAt? other home = some (.directory others)) :
    ∃ first last,
      SourceFile.sortedBelow entries = first ++ ownSource root home names ++ last ∧
        SourceFile.sortedBelow others = first ++ ownSource other home names ++ last := by
  have ascending := SourceFile.pairwise_sortedBelow (distinctNames_treeAt? distinct isDirectory)
  have otherAscending :=
    SourceFile.pairwise_sortedBelow (distinctNames_treeAt? otherDistinct isOther)
  have same (found : List String × ByteArray) (apart : found.1 ≠ names) :
      found ∈ SourceFile.sortedBelow entries ↔ found ∈ SourceFile.sortedBelow others := by
    have placeApart :
        (found.1.map FileName.text).reverse ++ home ≠ (names.map .text).reverse ++ home :=
      fun samePlace => apart (SourceFile.map_text_inj.1
        (List.reverse_injective (List.append_cancel_right samePlace)))
    rw [mem_sortedBelow_iff_treeAt? distinct isDirectory,
      mem_sortedBelow_iff_treeAt? otherDistinct isOther, alike.treeAt?_eq_file_iff placeApart]
  -- A part of the lists without the names in question has the same files in both.
  have samePart (isPart : List String × ByteArray → Bool)
      (apart : ∀ found, isPart found = true → found.1 ≠ names) :
      (SourceFile.sortedBelow entries).filter isPart =
        (SourceFile.sortedBelow others).filter isPart := by
    apply eq_of_mem_iff_of_ascending (ascending.filter _) (otherAscending.filter _)
    intro found
    rw [List.mem_filter, List.mem_filter]
    exact and_congr_left fun inPart => same found (apart found inPart)
  have divided := filter_append_filter_of_ascending ascending names
  have otherDivided := filter_append_filter_of_ascending otherAscending names
  rw [filter_sortedBelow_eq distinct isDirectory] at divided
  rw [filter_sortedBelow_eq otherDistinct isOther,
    ← samePart _ fun _ before => ne_of_lt (by simpa using before),
    ← samePart _ fun _ after => ne_of_gt (by simpa using after)] at otherDivided
  exact ⟨_, _, divided, otherDivided⟩

/-- What is wrong below a directory is wrong in both trees, if the names that lead to where they
differ are texts. -/
theorem failsBelow {home : List FileName} (alike : AlikeExcept changed root other)
    {entries others : List (FileName × FileTree)} {path : Path} {failure : Failure}
    (isText : ∃ text outer, changed = FileName.text text :: outer)
    (distinct : distinctNames root = true) (otherDistinct : distinctNames other = true)
    (isDirectory : treeAt? root home = some (.directory entries))
    (isOther : treeAt? other home = some (.directory others))
    (fails : SourceFile.FailsBelow path others failure) :
    SourceFile.FailsBelow path entries failure := by
  -- What stands below the directory in the other tree has its like in the first one.
  have exists_below {names : List FileName} {tree : FileTree} (below : Below others names tree)
      (apart : names.reverse ++ home ≠ changed) :
      ∃ same, Below entries names same ∧ same.surface = tree.surface := by
    obtain ⟨name, later, isNames, -⟩ := below.exists_cons
    have isTree := below.treeAt?_eq (distinctNames_treeAt? otherDistinct isOther) isOther
    obtain ⟨same, isSame, sameSurface⟩ := alike.symm.treeAt?_eq_some apart isTree
    exact ⟨same, below_of_treeAt? (isNames ▸ List.cons_ne_nil name later) isDirectory
      (distinctNames_treeAt? distinct isDirectory) isSame, sameSurface⟩
  cases fails with
  | @tooFar names inner below notFollowed =>
      have apart : (names.map FileName.text).reverse ++ home ≠ changed := by
        intro isChanged
        have isInner := below.treeAt?_eq (distinctNames_treeAt? otherDistinct isOther) isOther
        obtain ⟨content, isFile⟩ := alike.second _ (isChanged ▸ isInner)
        contradiction
      obtain ⟨tree, isThere, same⟩ := exists_below below apart
      obtain ⟨around, rfl⟩ := surface_eq_directory_iff.1 same
      exact .tooFar isThere notFollowed
  | @notText names last noText tree below isLast notLink =>
      have apart : names.reverse ++ home ≠ changed := by
        rintro rfl
        obtain ⟨text, outer, isChanged⟩ := isText
        obtain ⟨earlier, rfl⟩ := List.getLast?_eq_some_iff.1 isLast
        simp at isChanged
      obtain ⟨same, isThere, sameSurface⟩ := exists_below below apart
      refine .notText isThere isLast ?_
      rintro target rfl
      exact notLink target (surface_eq_link_iff.1 sameSurface.symm)

end AlikeExcept

end FileTree

end ObjectIds
