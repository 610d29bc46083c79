import ObjectIds.Files.Tree

/-!
# Places in a file tree

Each kind of segment has its own effect on the place to which a way leads.  The way along a
path starts in a directory, so it ends at a directory or at a regular file, and what is found
at the path is what stands there.
-/

namespace ObjectIds

/-- What is found at a path, if anything is. -/
def Entry.tree? : Entry → Option FileTree
  | .missing | .obstructed => none
  | .file content => some (.file content)
  | .directory entries => some (.directory entries)

theorem Entry.tree?_eq_file_iff {entry : Entry} {content : ByteArray} :
    entry.tree? = some (.file content) ↔ entry = .file content := by
  cases entry <;> simp [Entry.tree?]

theorem Entry.exists_eq_file_of_isFile {entry : Entry} (isFile : entry.isFile = true) :
    ∃ content, entry = .file content := by
  cases entry with
  | file content => exact ⟨content, rfl⟩
  | missing | obstructed | directory => contradiction

theorem Entry.tree?_eq_directory_iff {entry : Entry} {entries : List (FileName × FileTree)} :
    entry.tree? = some (.directory entries) ↔ entry = .directory entries := by
  cases entry <;> simp [Entry.tree?]

/-- The place to which a path leads, if it leads anywhere. -/
def Destination.place? : Destination → Option (List FileName)
  | .missing | .obstructed => none
  | .place names => some names

namespace FileTree

/-- The place to which segments lead from a directory, when `links` links may be followed. -/
def locate (root : List (FileName × FileTree)) (links : Nat) (place segments : List FileName) :
    Option (List FileName) :=
  (follow root links place segments).place?

variable {root : List (FileName × FileTree)} {place : List FileName}

theorem treeAt?_cons_of_directory {name : FileName} {outer : List FileName}
    {entries : List (FileName × FileTree)}
    (isOuter : treeAt? root outer = some (.directory entries)) :
    treeAt? root (name :: outer) = entries.lookup name := by
  rw [treeAt?, isOuter]

theorem exists_directory_of_treeAt?_cons {name : FileName} {outer : List FileName}
    {tree : FileTree} (isTree : treeAt? root (name :: outer) = some tree) :
    ∃ entries, treeAt? root outer = some (.directory entries) ∧
      entries.lookup name = some tree := by
  rw [treeAt?] at isTree
  split at isTree
  · exact ⟨_, ‹_›, isTree⟩
  · contradiction
  · contradiction
  · contradiction

/-- Around a directory there is one again; the root is around itself. -/
theorem exists_directory_tail {entries : List (FileName × FileTree)}
    (isDirectory : treeAt? root place = some (.directory entries)) :
    ∃ outer, treeAt? root place.tail = some (.directory outer) := by
  cases place with
  | nil => exact ⟨root, rfl⟩
  | cons name place =>
      obtain ⟨outer, isOuter, -⟩ := exists_directory_of_treeAt?_cons isDirectory
      exact ⟨outer, isOuter⟩

section

variable (root : List (FileName × FileTree)) (links : Nat) (place rest : List FileName)

/-- Whether a segment is the name of an entry, and not too long for one. -/
def IsName (segment : FileName) : Prop :=
  ¬(segment = "" ∨ segment = ".") ∧ segment ≠ ".." ∧ segment.size ≤ FileName.sizeLimit

@[simp]
theorem locate_nil : locate root links place [] = some place := by
  rw [locate, follow.eq_def]
  rfl

theorem locate_blank {segment : FileName} (blank : segment = "" ∨ segment = ".") :
    locate root links place (segment :: rest) = locate root links place rest := by
  rw [locate, follow.eq_def]
  dsimp only
  rw [if_pos blank, locate]

@[simp]
theorem locate_parent :
    locate root links place (".." :: rest) = locate root links place.tail rest := by
  rw [locate, follow.eq_def]
  rfl

theorem locate_long {segment : FileName} (notBlank : ¬(segment = "" ∨ segment = "."))
    (notParent : segment ≠ "..") (long : FileName.sizeLimit < segment.size) :
    locate root links place (segment :: rest) = none := by
  rw [locate, follow.eq_def]
  simp only [if_neg notBlank, if_neg notParent, if_pos long, Destination.place?]

theorem locate_name {segment : FileName} (isName : IsName segment) :
    locate root links place (segment :: rest) =
      match treeAt? root (segment :: place) with
      | none => none
      | some (.directory _) => locate root links (segment :: place) rest
      | some (.file _) => if rest.isEmpty then some (segment :: place) else none
      | some (.link target) =>
          if target.bytes.isEmpty then none
          else
            match links with
            | 0 => none
            | links + 1 => locate root links (target.start place) (target.segments ++ rest) := by
  obtain ⟨notBlank, notParent, short⟩ := isName
  rw [locate, follow.eq_def]
  simp only [if_neg notBlank, if_neg notParent, if_neg (Nat.not_lt.2 short)]
  cases treeAt? root (segment :: place) with
  | none => rfl
  | some tree =>
      cases tree with
      | directory entries => rfl
      | file content =>
          dsimp only
          split <;> rfl
      | link target =>
          dsimp only
          split
          · rfl
          · cases links <;> rfl

end

/-- The way from a directory ends at a directory or at a regular file. -/
theorem directory_or_file_of_locate {links : Nat} {segments target : List FileName}
    {entries : List (FileName × FileTree)}
    (isDirectory : treeAt? root place = some (.directory entries))
    (leads : locate root links place segments = some target) :
    (∃ inner, treeAt? root target = some (.directory inner)) ∨
      ∃ content, treeAt? root target = some (.file content) := by
  unfold locate at leads
  fun_induction follow root links place segments generalizing entries with
  | case1 links place =>
      obtain rfl := Option.some.inj leads
      exact .inl ⟨entries, isDirectory⟩
  | case2 links place segment rest blank ih => exact ih isDirectory leads
  | case3 links place rest notBlank ih =>
      obtain ⟨outer, isOuter⟩ := exists_directory_tail isDirectory
      exact ih isOuter leads
  | case4 | case5 => contradiction
  | case6 links place segment rest notBlank notParent short inner isInner ih =>
      exact ih isInner leads
  | case7 links place segment rest notBlank notParent short content isFile =>
      obtain rfl := Option.some.inj leads
      exact .inr ⟨content, isFile⟩
  | case8 | case9 | case10 => contradiction
  | case11 place segment rest notBlank notParent short link isLink notEmpty links ih =>
      obtain ⟨start, isStart⟩ :
          ∃ start, treeAt? root (link.start place) = some (.directory start) := by
        unfold LinkTarget.start
        split
        · exact ⟨root, rfl⟩
        · exact ⟨entries, isDirectory⟩
      exact ih isStart leads

end FileTree

namespace FileSystem

open FileTree

/-- The place to which a path leads. -/
def placeOf? (system : FileSystem) (path : Path) : Option (List FileName) :=
  locate system.root linkLimit (system.start path.isAbsolute)
    (path.segments.map FileName.text)

variable {system : FileSystem} {path : Path}

theorem exists_directory_start (system : FileSystem) (absolute : Bool) :
    ∃ entries, treeAt? system.root (system.start absolute) = some (.directory entries) := by
  unfold start
  split
  · exact ⟨system.root, rfl⟩
  · exact system.working_isDirectory

/-- What is found at a path that can be followed is what stands at its place. -/
theorem tree?_files (followed : path.canBeFollowed = true) (notEmpty : path.text ≠ "") :
    (system.files path).tree? = (system.placeOf? path).bind (treeAt? system.root) := by
  rw [files, if_neg (by simp [followed]), if_neg notEmpty, placeOf?, locate]
  show _ = (system.follow path).place?.bind _
  cases isDestination : system.follow path with
  | missing | obstructed => rfl
  | place names =>
      obtain ⟨entries, isStart⟩ := system.exists_directory_start path.isAbsolute
      have leads : system.placeOf? path = some names := by
        show (system.follow path).place? = _
        rw [isDestination, Destination.place?]
      rw [Destination.place?, Option.bind_some]
      dsimp only
      rcases directory_or_file_of_locate isStart leads with ⟨inner, isTree⟩ | ⟨content, isTree⟩
      · rw [isTree, Entry.ofTree?, Entry.tree?]
      · rw [isTree, Entry.ofTree?, Entry.tree?]

/-- Only a path that can be followed is found, and what is found stands at its place. -/
theorem of_tree?_files {tree : FileTree} (found : (system.files path).tree? = some tree) :
    path.canBeFollowed = true ∧ path.text ≠ "" ∧
      ∃ place, system.placeOf? path = some place ∧ treeAt? system.root place = some tree := by
  have isFound := found
  unfold files at isFound
  split at isFound
  · contradiction
  · split at isFound
    · contradiction
    · rename_i notObstructed notEmpty
      have followed : path.canBeFollowed = true := by simpa using notObstructed
      rw [tree?_files followed notEmpty] at found
      exact ⟨followed, notEmpty, Option.bind_eq_some_iff.1 found⟩

end FileSystem

end ObjectIds
