import Mathlib.Data.List.Sort
import Mathlib.Data.String.Basic
import ObjectIds.Proofs.Places
import ObjectIds.SourceFile

/-!
# Source files below a directory

The source files below a directory are the regular files with a source name to which names of
entries lead, one directory after the other.  They are listed in strictly ascending order of
these names, so that the list is known from its members.

None are listed when a directory on the way is too far away or the name of an entry is not a
text.  The first failure of this kind, in the order in which the entries come, is reported.
-/

namespace ObjectIds

namespace FileTree

/-- What names lead to from the entries of a directory, when no link is followed. -/
inductive Below : List (FileName × FileTree) → List FileName → FileTree → Prop
  | entry {entries : List (FileName × FileTree)} {name : FileName} {tree : FileTree}
      (member : (name, tree) ∈ entries) : Below entries [name] tree
  | inside {entries inner : List (FileName × FileTree)} {name : FileName} {names : List FileName}
      {tree : FileTree} (member : (name, .directory inner) ∈ entries)
      (below : Below inner names tree) : Below entries (name :: names) tree

/-- Whether the entries of a directory have different names, also in the directories below. -/
def distinctNames : List (FileName × FileTree) → Bool
  | [] => true
  | (name, .file _) :: entries =>
      decide (name ∉ entries.map Prod.fst) && distinctNames entries
  | (name, .directory inner) :: entries =>
      decide (name ∉ entries.map Prod.fst) && distinctNames entries && distinctNames inner
  | (name, .link _) :: entries =>
      decide (name ∉ entries.map Prod.fst) && distinctNames entries

variable {root entries inner : List (FileName × FileTree)} {place names : List FileName}
  {name : FileName} {tree : FileTree}

theorem Below.exists_cons (below : Below entries names tree) :
    ∃ name later, names = name :: later ∧ name ∈ entries.map Prod.fst := by
  cases below with
  | entry member => exact ⟨_, _, rfl, List.mem_map_of_mem member⟩
  | inside member below => exact ⟨_, _, rfl, List.mem_map_of_mem member⟩

theorem not_below_nil : ¬Below [] names tree := by
  intro below
  obtain ⟨name, later, -, member⟩ := below.exists_cons
  contradiction

theorem below_cons_iff {first : FileTree} :
    Below ((name, first) :: entries) names tree ↔
      (names = [name] ∧ first = tree ∨
        ∃ inner later, first = .directory inner ∧ names = name :: later ∧
          Below inner later tree) ∨ Below entries names tree := by
  constructor
  · rintro (⟨member⟩ | ⟨member, below⟩)
    · rcases List.mem_cons.1 member with isFirst | later
      · obtain ⟨rfl, rfl⟩ := Prod.mk.inj isFirst
        exact .inl (.inl ⟨rfl, rfl⟩)
      · exact .inr (.entry later)
    · rcases List.mem_cons.1 member with isFirst | later
      · obtain ⟨rfl, rfl⟩ := Prod.mk.inj isFirst
        exact .inl (.inr ⟨_, _, rfl, rfl, below⟩)
      · exact .inr (.inside later below)
  · rintro ((⟨rfl, rfl⟩ | ⟨inner, later, rfl, rfl, below⟩) | below)
    · exact .entry (.head _)
    · exact .inside (.head _) below
    · cases below with
      | entry member => exact .entry (.tail _ member)
      | inside member below => exact .inside (.tail _ member) below

/-! ## Different names -/

theorem distinctNames_cons (distinct : distinctNames ((name, tree) :: entries) = true) :
    name ∉ entries.map Prod.fst ∧ distinctNames entries = true ∧
      ∀ inner, tree = .directory inner → distinctNames inner = true := by
  cases tree with
  | file content => simpa [distinctNames] using distinct
  | directory inner => simpa [distinctNames, and_assoc] using distinct
  | link target => simpa [distinctNames] using distinct

theorem distinctNames_of_mem (distinct : distinctNames entries = true)
    (member : (name, .directory inner) ∈ entries) : distinctNames inner = true := by
  induction entries with
  | nil => contradiction
  | cons first entries ih =>
      obtain ⟨-, laterDistinct, innerDistinct⟩ := distinctNames_cons distinct
      rcases List.mem_cons.1 member with rfl | later
      · exact innerDistinct inner rfl
      · exact ih laterDistinct later

theorem mem_iff_lookup (distinct : distinctNames entries = true) :
    (name, tree) ∈ entries ↔ entries.lookup name = some tree := by
  induction entries with
  | nil => simp
  | cons first entries ih =>
      obtain ⟨other, firstTree⟩ := first
      obtain ⟨notLater, laterDistinct, -⟩ := distinctNames_cons distinct
      rw [List.lookup_cons, List.mem_cons, ih laterDistinct]
      by_cases isFirst : name = other
      · subst isFirst
        have missing : entries.lookup name ≠ some tree := fun isLater =>
          notLater (List.mem_map_of_mem ((ih laterDistinct).2 isLater))
        simp [missing, eq_comm]
      · rw [beq_false_of_ne isFirst]
        simp [isFirst]

/-- What names lead to stands at the place with these names. -/
theorem Below.treeAt?_eq (below : Below entries names tree)
    (distinct : distinctNames entries = true)
    (isDirectory : treeAt? root place = some (.directory entries)) :
    treeAt? root (names.reverse ++ place) = some tree := by
  induction below generalizing place with
  | entry member =>
      exact (treeAt?_cons_of_directory isDirectory).trans ((mem_iff_lookup distinct).1 member)
  | @inside entries inner name names tree member below ih =>
      have isInner : treeAt? root (name :: place) = some (.directory inner) :=
        (treeAt?_cons_of_directory isDirectory).trans ((mem_iff_lookup distinct).1 member)
      rw [List.reverse_cons, List.append_assoc]
      exact ih (distinctNames_of_mem distinct member) isInner

theorem exists_directory_of_treeAt?_append {front : List FileName} (notEmpty : front ≠ [])
    (isTree : treeAt? root (front ++ place) = some tree) :
    ∃ entries, treeAt? root place = some (.directory entries) := by
  induction front generalizing tree with
  | nil => contradiction
  | cons name front ih =>
      obtain ⟨entries, isOuter, -⟩ := exists_directory_of_treeAt?_cons isTree
      cases front with
      | nil => exact ⟨entries, isOuter⟩
      | cons next front => exact ih (List.cons_ne_nil next front) isOuter

theorem below_of_treeAt? (notEmpty : names ≠ [])
    (isDirectory : treeAt? root place = some (.directory entries))
    (distinct : distinctNames entries = true)
    (isTree : treeAt? root (names.reverse ++ place) = some tree) : Below entries names tree := by
  induction names generalizing entries place with
  | nil => contradiction
  | cons name names ih =>
      rw [List.reverse_cons, List.append_assoc, List.singleton_append] at isTree
      rcases names.eq_nil_or_concat with rfl | ⟨_, _, _⟩
      · rw [List.reverse_nil, List.nil_append, treeAt?_cons_of_directory isDirectory] at isTree
        exact .entry ((mem_iff_lookup distinct).2 isTree)
      · obtain ⟨inner, isInner⟩ := exists_directory_of_treeAt?_append (by simp_all) isTree
        have member : (name, .directory inner) ∈ entries := by
          rw [mem_iff_lookup distinct, ← treeAt?_cons_of_directory isDirectory, isInner]
        exact .inside member
          (ih (by simp_all) isInner (distinctNames_of_mem distinct member) isTree)

end FileTree

/-- The first of some failures, or else a value. -/
def Failure.firstOr {α : Type} (failures : List Failure) (value : α) : Except Failure α :=
  match failures with
  | [] => .ok value
  | failure :: _ => .error failure

namespace SourceFile

open FileTree

variable {place : Path} {entries : List (FileName × FileTree)} {names : List String}
  {content : ByteArray}

/-- The source files below a directory, as far as the names on the way to them are texts, each
with these names. -/
def belowEntries : List (FileName × FileTree) → List (List String × ByteArray)
  | [] => []
  | (_, .link _) :: entries => belowEntries entries
  | (.bytes _ _, .file _) :: entries | (.bytes _ _, .directory _) :: entries =>
      belowEntries entries
  | (.text name, .file content) :: entries =>
      (if isSourceName name then [([name], content)] else []) ++ belowEntries entries
  | (.text name, .directory inner) :: entries =>
      (belowEntries inner).map (fun found => (name :: found.1, found.2)) ++
        belowEntries entries

/-- What is wrong below a directory, in the order in which the entries come. -/
def failuresBelow (place : Path) : List (FileName × FileTree) → List Failure
  | [] => []
  | (_, .link _) :: entries => failuresBelow place entries
  | (.bytes _ _, .file _) :: entries | (.bytes _ _, .directory _) :: entries =>
      .nameNotText :: failuresBelow place entries
  | (.text _, .file _) :: entries => failuresBelow place entries
  | (.text name, .directory inner) :: entries =>
      (if (place.join name).canBeFollowed then failuresBelow (place.join name) inner
        else [.directoryUnreadable (place.join name)]) ++ failuresBelow place entries

/-- The source files below a directory are collected up to the first failure. -/
theorem collectBelow_eq (place : Path) (entries : List (FileName × FileTree)) :
    collectBelow place entries =
      Failure.firstOr (failuresBelow place entries) (belowEntries entries) := by
  fun_induction collectBelow place entries with
  | case1 place => rw [failuresBelow, belowEntries, Failure.firstOr]
  | case2 place name target entries ih => rw [ih, failuresBelow, belowEntries]
  | case3 | case4 => rw [failuresBelow, Failure.firstOr]
  | case5 place name content entries ih =>
      rw [ih, failuresBelow, belowEntries]
      cases failuresBelow place entries <;> rfl
  | case6 place name inner entries directory followed innerIH ih =>
      rw [innerIH, ih, failuresBelow, if_pos followed, belowEntries]
      cases failuresBelow directory inner with
      | cons failure later => rfl
      | nil => cases failuresBelow place entries <;> rfl
  | case7 place name inner entries directory notFollowed =>
      rw [failuresBelow, if_neg notFollowed]
      rfl

/-- What can be wrong below a directory: a directory that is too far away, or an entry that is
no link and whose name is not a text. -/
inductive FailsBelow (place : Path) (entries : List (FileName × FileTree)) : Failure → Prop
  | tooFar {names : List String} {inner : List (FileName × FileTree)}
      (below : Below entries (names.map .text) (.directory inner))
      (notFollowed : (place.below names).canBeFollowed = false) :
      FailsBelow place entries (.directoryUnreadable (place.below names))
  | notText {names : List FileName} {name : ByteArray} {noText : String.fromUTF8? name = none}
      {tree : FileTree} (below : Below entries names tree)
      (isLast : names.getLast? = some (.bytes name noText))
      (notLink : ∀ target, tree ≠ .link target) : FailsBelow place entries .nameNotText

/-- What is wrong below some entries is still wrong when there are more. -/
theorem FailsBelow.cons {first : FileName × FileTree} {failure : Failure}
    (fails : FailsBelow place entries failure) : FailsBelow place (first :: entries) failure := by
  cases fails with
  | tooFar below notFollowed => exact .tooFar (below_cons_iff.2 (.inr below)) notFollowed
  | notText below isLast notLink =>
      exact .notText (below_cons_iff.2 (.inr below)) isLast notLink

/-- What is wrong below a directory is wrong around it. -/
theorem FailsBelow.inside {name : String} {inner : List (FileName × FileTree)}
    {failure : Failure} (fails : FailsBelow (place.join name) inner failure) :
    FailsBelow place ((.text name, .directory inner) :: entries) failure := by
  cases fails with
  | @tooFar names further below notFollowed =>
      have isInside : Below ((.text name, .directory inner) :: entries)
          ((name :: names).map .text) (.directory further) := .inside (.head _) below
      exact .tooFar isInside notFollowed
  | notText below isLast notLink =>
      obtain ⟨next, others, rfl, -⟩ := below.exists_cons
      exact .notText (.inside (.head _) below) (by rwa [List.getLast?_cons_cons]) notLink

/-- What is wrong below some entries is wrong below the others, or it is the first entry or
something inside it. -/
theorem FailsBelow.of_cons {name : FileName} {tree : FileTree} {failure : Failure}
    (fails : FailsBelow place ((name, tree) :: entries) failure) :
    FailsBelow place entries failure ∨
      (∃ text inner, name = .text text ∧ tree = .directory inner ∧
        ((place.join text).canBeFollowed = false ∨
          FailsBelow (place.join text) inner failure)) ∨
        (∀ target, tree ≠ .link target) ∧ ∃ bytes noText, name = .bytes bytes noText := by
  cases fails with
  | @tooFar names inner below notFollowed =>
      rcases below_cons_iff.1 below with
        (⟨isFirst, isInner⟩ | ⟨further, later, isFurther, isFirst, within⟩) | isLater
      · obtain ⟨text, rfl, isName⟩ := List.map_eq_singleton_iff.1 isFirst
        exact .inr (.inl ⟨text, inner, isName.symm, isInner, .inl notFollowed⟩)
      · obtain ⟨text, others, rfl, isName, rfl⟩ := List.map_eq_cons_iff.1 isFirst
        exact .inr (.inl ⟨text, further, isName.symm, isFurther,
          .inr (.tooFar within notFollowed)⟩)
      · exact .inl (.tooFar isLater notFollowed)
  | @notText names last noText other below isLast notLink =>
      rcases below_cons_iff.1 below with
        (⟨rfl, rfl⟩ | ⟨further, later, rfl, rfl, within⟩) | isLater
      · exact .inr (.inr ⟨notLink, last, noText, by simpa using isLast⟩)
      · obtain ⟨next, others, rfl, -⟩ := within.exists_cons
        rw [List.getLast?_cons_cons] at isLast
        cases name with
        | text text =>
            exact .inr (.inl ⟨text, further, rfl, rfl, .inr (.notText within isLast notLink)⟩)
        | bytes bytes isBytes => exact .inr (.inr ⟨nofun, bytes, isBytes, rfl⟩)
      · exact .inl (.notText isLater isLast notLink)

theorem failsBelow_of_mem {failure : Failure} (member : failure ∈ failuresBelow place entries) :
    FailsBelow place entries failure := by
  fun_induction failuresBelow place entries with
  | case1 => contradiction
  | case2 place name target entries ih => exact (ih member).cons
  | case3 place name noText content entries ih =>
      rcases List.mem_cons.1 member with rfl | later
      · exact .notText (.entry (.head _)) rfl nofun
      · exact (ih later).cons
  | case4 place name noText inner entries ih =>
      rcases List.mem_cons.1 member with rfl | later
      · exact .notText (.entry (.head _)) rfl nofun
      · exact (ih later).cons
  | case5 place name content entries ih => exact (ih member).cons
  | case6 place name inner entries innerIH ih =>
      rcases List.mem_append.1 member with nearby | later
      · split at nearby
        · exact (innerIH nearby).inside
        · rename_i notFollowed
          obtain rfl := List.mem_singleton.1 nearby
          have isBelow : Below ((.text name, .directory inner) :: entries) ([name].map .text)
              (.directory inner) := .entry (.head _)
          exact .tooFar isBelow (Bool.eq_false_iff.2 notFollowed)
      · exact (ih later).cons

theorem failuresBelow_ne_nil {failure : Failure} (fails : FailsBelow place entries failure) :
    failuresBelow place entries ≠ [] := by
  fun_induction failuresBelow place entries generalizing failure with
  | case1 =>
      cases fails with
      | tooFar below _ => exact (not_below_nil below).elim
      | notText below _ _ => exact (not_below_nil below).elim
  | case2 place name target entries ih =>
      rcases fails.of_cons with later | ⟨text, inner, -, impossible, -⟩ | ⟨notLink, -⟩
      · exact ih later
      · contradiction
      · exact (notLink target rfl).elim
  | case3 | case4 => exact List.cons_ne_nil _ _
  | case5 place name content entries ih =>
      rcases fails.of_cons with
        later | ⟨text, inner, -, impossible, -⟩ | ⟨-, bytes, noText, impossible⟩
      · exact ih later
      · contradiction
      · contradiction
  | case6 place name inner entries innerIH ih =>
      rw [Ne, List.append_eq_nil_iff, not_and]
      intro noneNearby
      rcases fails.of_cons with
        later | ⟨text, other, isName, isInner, tooFar | within⟩ | ⟨-, bytes, noText, impossible⟩
      · exact ih later
      · obtain rfl := FileName.text.inj isName
        rw [if_neg (Bool.eq_false_iff.1 tooFar)] at noneNearby
        contradiction
      · obtain rfl := FileName.text.inj isName
        obtain rfl := FileTree.directory.inj isInner
        split at noneNearby
        · exact (innerIH within noneNearby).elim
        · contradiction
      · contradiction

/-- Everything below a directory can be listed if nothing is wrong there. -/
theorem failuresBelow_eq_nil_iff :
    failuresBelow place entries = [] ↔ ∀ failure, ¬FailsBelow place entries failure := by
  constructor
  · exact fun noFailures failure fails => failuresBelow_ne_nil fails noFailures
  · intro noneFails
    exact List.eq_nil_iff_forall_not_mem.2 fun failure member =>
      noneFails failure (failsBelow_of_mem member)

theorem map_text_inj {first second : List String} :
    first.map FileName.text = second.map .text ↔ first = second :=
  List.map_inj_right fun _ _ => FileName.text.inj

/-- No texts lead through an entry whose name is not one. -/
theorem below_cons_bytes_iff {name : ByteArray} {noText : String.fromUTF8? name = none}
    {first tree : FileTree} :
    Below ((.bytes name noText, first) :: entries) (names.map .text) tree ↔
      Below entries (names.map .text) tree := by
  rw [below_cons_iff, or_iff_right]
  rintro (⟨isFirst, -⟩ | ⟨inner, later, -, isFirst, -⟩)
  · obtain ⟨text, -, impossible⟩ := List.map_eq_singleton_iff.1 isFirst
    contradiction
  · obtain ⟨text, others, -, impossible, -⟩ := List.map_eq_cons_iff.1 isFirst
    contradiction

theorem mem_belowEntries_iff :
    (names, content) ∈ belowEntries entries ↔
      Below entries (names.map .text) (.file content) ∧
        names.getLast?.any isSourceName = true := by
  fun_induction belowEntries entries generalizing names with
  | case1 => simp [not_below_nil]
  | case2 name target entries ih =>
      rw [ih, below_cons_iff]
      simp
  | case3 | case4 =>
      rename_i ih
      rw [ih, below_cons_bytes_iff]
  | case5 name other entries ih =>
      have isSingle : names.map FileName.text = [.text name] ↔ names = [name] :=
        @map_text_inj names [name]
      rw [List.mem_append, ih, below_cons_iff, or_and_right, isSingle]
      apply or_congr_left
      by_cases isSource : isSourceName name = true
      · simp only [if_pos isSource, List.mem_singleton, Prod.mk.injEq, FileTree.file.injEq]
        constructor
        · rintro ⟨rfl, rfl⟩
          exact ⟨.inl ⟨rfl, rfl⟩, isSource⟩
        · rintro ⟨⟨rfl, rfl⟩ | ⟨inner, later, impossible, -⟩, -⟩
          · exact ⟨rfl, rfl⟩
          · contradiction
      · simp only [if_neg isSource, List.not_mem_nil, false_iff]
        rintro ⟨⟨rfl, -⟩ | ⟨inner, later, impossible, -⟩, isLast⟩
        · exact isSource isLast
        · contradiction
  | case6 name inner entries innerIH ih =>
      rw [List.mem_append, ih, below_cons_iff, or_and_right]
      apply or_congr_left
      simp only [List.mem_map, Prod.mk.injEq, Prod.exists]
      constructor
      · rintro ⟨later, other, member, rfl, rfl⟩
        obtain ⟨below, isLast⟩ := innerIH.1 member
        refine ⟨.inr ⟨inner, later.map .text, rfl, rfl, below⟩, ?_⟩
        obtain ⟨next, others, isLater, -⟩ := below.exists_cons
        obtain ⟨text, texts, rfl, -⟩ := List.map_eq_cons_iff.1 isLater
        exact isLast
      · rintro ⟨⟨-, impossible⟩ | ⟨other, later, isInner, isName, below⟩, isLast⟩
        · contradiction
        · obtain rfl := FileTree.directory.inj isInner
          obtain ⟨text, texts, rfl, isText, rfl⟩ := List.map_eq_cons_iff.1 isName
          obtain rfl := FileName.text.inj isText
          obtain ⟨next, others, isLater, -⟩ := below.exists_cons
          obtain ⟨first, rest, rfl, -⟩ := List.map_eq_cons_iff.1 isLater
          exact ⟨first :: rest, content, innerIH.2 ⟨below, isLast⟩, rfl, rfl⟩

theorem head_mem_of_mem_belowEntries {name : String} {later : List String}
    (member : name :: later ∈ (belowEntries entries).map Prod.fst) :
    FileName.text name ∈ entries.map Prod.fst := by
  obtain ⟨⟨names, content⟩, isFound, rfl⟩ := List.mem_map.1 member
  obtain ⟨first, others, isNames, isEntry⟩ := (mem_belowEntries_iff.1 isFound).1.exists_cons
  exact (List.cons.inj isNames).1 ▸ isEntry

theorem nodup_belowEntries (distinct : distinctNames entries = true) :
    ((belowEntries entries).map Prod.fst).Nodup := by
  fun_induction belowEntries entries with
  | case1 => exact List.nodup_nil
  | case2 name target entries ih => exact ih (distinctNames_cons distinct).2.1
  | case3 | case4 =>
      rename_i ih
      exact ih (distinctNames_cons distinct).2.1
  | case5 name content entries ih =>
      obtain ⟨notLater, laterDistinct, -⟩ := distinctNames_cons distinct
      split
      · exact List.nodup_cons.2
          ⟨fun member => notLater (head_mem_of_mem_belowEntries member), ih laterDistinct⟩
      · exact ih laterDistinct
  | case6 name inner entries innerIH ih =>
      obtain ⟨notLater, laterDistinct, innerDistinct⟩ := distinctNames_cons distinct
      have isMap : ((belowEntries inner).map fun found => (name :: found.1, found.2)).map
          Prod.fst = ((belowEntries inner).map Prod.fst).map (name :: ·) := by
        rw [List.map_map, List.map_map]
        rfl
      rw [List.map_append, isMap]
      apply List.Nodup.append
      · exact (innerIH (innerDistinct inner rfl)).map (List.cons_injective)
      · exact ih laterDistinct
      · intro names isInner isLater
        obtain ⟨later, -, rfl⟩ := List.mem_map.1 isInner
        exact notLater (head_mem_of_mem_belowEntries isLater)

theorem inOrder_eq_true_iff {first second : List String} :
    inOrder first second = true ↔ first ≤ second := by
  rw [inOrder, Bool.not_eq_true', ← Bool.not_eq_true, List.lex_eq_true_iff_lt]
  exact not_lt

/-- The source files below a directory, in the order in which they are listed. -/
def sortedBelow (entries : List (FileName × FileTree)) : List (List String × ByteArray) :=
  sort (belowEntries entries)

/-- Source files are listed in strictly ascending order of the names that lead to them. -/
theorem pairwise_sortedBelow (distinct : distinctNames entries = true) :
    (sortedBelow entries).Pairwise fun first second => first.1 < second.1 := by
  have ordered : (sortedBelow entries).Pairwise fun first second => first.1 ≤ second.1 := by
    refine (List.pairwise_mergeSort ?_ ?_ (belowEntries entries)).imp inOrder_eq_true_iff.1
    · intro first second third
      simpa only [inOrder_eq_true_iff] using le_trans
    · intro first second
      simpa only [Bool.or_eq_true, inOrder_eq_true_iff] using le_total first.1 second.1
  have different : (sortedBelow entries).Pairwise fun first second => first.1 ≠ second.1 := by
    apply List.pairwise_map.1
    exact ((List.mergeSort_perm _ _).map Prod.fst).nodup_iff.2 (nodup_belowEntries distinct)
  exact ordered.imp₂ (fun _ _ => lt_of_le_of_ne) different

theorem mem_sortedBelow_iff :
    (names, content) ∈ sortedBelow entries ↔
      Below entries (names.map .text) (.file content) ∧
        names.getLast?.any isSourceName = true := by
  rw [sortedBelow, sort, List.mem_mergeSort, mem_belowEntries_iff]

end SourceFile

end ObjectIds
