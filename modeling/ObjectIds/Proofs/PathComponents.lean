import Mathlib.Data.List.TakeWhile
import Mathlib.Data.Prod.Lex
import Mathlib.Data.String.Basic
import Mathlib.Order.Basic
import ObjectIds.Proofs.PathSegments

/-!
# Components of paths

Paths are compared component by component, which is not how their spellings compare: a blank
segment is no component, and neither is a point that does not start the path.  Names below one
directory are compared by what comes below it only.
-/

namespace ObjectIds

namespace Path

/-- A part of a path that counts when paths are compared. -/
inductive Component where
  | root
  | here
  | parent
  | name (text : String)
deriving DecidableEq, Repr

namespace Component

/-- The rank of a component, and its text if it is a name. -/
def key : Component → ℕ ×ₗ String
  | .root => toLex (0, "")
  | .here => toLex (1, "")
  | .parent => toLex (2, "")
  | .name text => toLex (3, text)

theorem key_injective : Function.Injective key := by
  intro first second same
  cases first <;> cases second <;> simp_all [key]

instance : LinearOrder Component := LinearOrder.lift' key key_injective

theorem name_lt_name_iff {first second : String} :
    Component.name first < Component.name second ↔ first < second := by
  show key (.name first) < key (.name second) ↔ first < second
  simp [key, Prod.Lex.toLex_lt_toLex]

/-- The component that a segment is; a point is one only where a relative path starts. -/
def ofSegment? (starts : Bool) (segment : String) : Option Component :=
  if segment = "" then none
  else if segment = "." then if starts then some .here else none
  else if segment = ".." then some .parent
  else some (.name segment)

end Component

/-- The components of a path with given segments. -/
def componentsOf (absolute : Bool) (segments : List String) : List Component :=
  if absolute then .root :: segments.filterMap (Component.ofSegment? false)
  else
    match segments with
    | [] => []
    | first :: later =>
        (Component.ofSegment? true first).toList ++ later.filterMap (Component.ofSegment? false)

/-- The components of a path. -/
def components (path : Path) : List Component := componentsOf path.isAbsolute path.segments

/-- A name that an entry of a directory can have. -/
structure IsEntryName (name : String) : Prop where
  notEmpty : name ≠ ""
  notHere : name ≠ "."
  notParent : name ≠ ".."
  noSlash : '/' ∉ name.toList

theorem IsEntryName.ofSegment?_eq {name : String} (isName : IsEntryName name) (starts : Bool) :
    Component.ofSegment? starts name = some (.name name) := by
  obtain ⟨notEmpty, notHere, notParent, -⟩ := isName
  rw [Component.ofSegment?, if_neg notEmpty, if_neg notHere, if_neg notParent]

variable {absolute : Bool}

theorem componentsOf_concat {segments : List String} {name : String}
    (isName : IsEntryName name) :
    componentsOf absolute (segments ++ [name]) =
      componentsOf absolute segments ++ [.name name] := by
  cases absolute with
  | true => simp [componentsOf, isName.ofSegment?_eq]
  | false => cases segments <;> simp [componentsOf, isName.ofSegment?_eq]

theorem componentsOf_concat_blank (segments : List String) :
    componentsOf absolute (segments ++ [""]) = componentsOf absolute segments := by
  cases absolute with
  | true => simp [componentsOf, Component.ofSegment?]
  | false => cases segments <;> simp [componentsOf, Component.ofSegment?]

theorem components_ofSegments {segments : List String} (spelled : Spelled absolute segments)
    (notEmpty : segments ≠ []) :
    (ofSegments absolute segments).components = componentsOf absolute segments := by
  rw [components, spelled.isAbsolute_eq, spelled.segments_ofSegments notEmpty]

theorem components_join (directory : Path) {name : String} (isName : IsEntryName name) :
    (directory.join name).components = directory.components ++ [.name name] := by
  obtain ⟨notEmpty, spelled, isDirectory⟩ := exists_spelled directory
  obtain ⟨kept, isKept, keptSpelled, isJoined⟩ :=
    spelled.exists_join_eq isName.noSlash isName.notEmpty
  have sameComponents : directory.components = componentsOf directory.isAbsolute kept := by
    rw [components]
    rcases isKept with same | blankLast
    · rw [same]
    · rw [blankLast, componentsOf_concat_blank]
  rw [isDirectory] at isJoined
  rw [isJoined, components_ofSegments keptSpelled (by simp), componentsOf_concat isName,
    sameComponents]

/-- Names below a directory are further components. -/
theorem components_below (directory : Path) {names : List String}
    (areNames : ∀ name ∈ names, IsEntryName name) :
    (directory.below names).components = directory.components ++ names.map .name := by
  induction names generalizing directory with
  | nil => simp [below]
  | cons name names ih =>
      obtain ⟨isName, laterNames⟩ := List.forall_mem_cons.1 areNames
      rw [below, List.foldl_cons, ← below, ih _ laterNames, components_join directory isName]
      simp

theorem map_name_lt {first second : List String} (before : first < second) :
    first.map Component.name < second.map Component.name := by
  induction first generalizing second with
  | nil =>
      cases second with
      | nil => exact absurd before (lt_irrefl _)
      | cons name second => simp
  | cons name first ih =>
      cases second with
      | nil => simp at before
      | cons other second =>
          rw [List.map_cons, List.map_cons, List.cons_lt_cons_iff, Component.name_lt_name_iff]
          rcases List.cons_lt_cons_iff.1 before with isLess | ⟨rfl, later⟩
          · exact Or.inl isLess
          · exact Or.inr ⟨rfl, ih later⟩

/-- Paths below a directory are ordered as the names below it. -/
theorem components_below_lt (directory : Path) {first second : List String}
    (firstNames : ∀ name ∈ first, IsEntryName name)
    (secondNames : ∀ name ∈ second, IsEntryName name) (before : first < second) :
    (directory.below first).components < (directory.below second).components := by
  rw [components_below directory firstNames, components_below directory secondNames]
  induction directory.components with
  | nil => exact map_name_lt before
  | cons component components ih =>
      rw [List.cons_append, List.cons_append, List.cons_lt_cons_iff]
      exact Or.inr ⟨rfl, ih⟩

/-- The extension of a name is what comes after its last point, with something before it. -/
theorem extension?_eq_some_iff {name ending : String} :
    extension? name = some ending ↔
      '.' ∉ ending.toList ∧ ∃ stem, stem ≠ "" ∧ name = stem ++ "." ++ ending := by
  have point : ".".toList = ['.'] := rfl
  unfold extension?
  constructor
  · intro isEnding
    dsimp only at isEnding
    split at isEnding
    · rename_i before others isDropped
      obtain rfl := Option.some.inj isEnding
      have isSplit := @List.takeWhile_append_dropWhile _ (· != '.') name.toList.reverse
      rw [isDropped] at isSplit
      refine ⟨fun member => ?_, String.ofList (before :: others).reverse, ?_, ?_⟩
      · rw [String.toList_ofList, List.mem_reverse] at member
        simpa using List.mem_takeWhile_imp member
      · rw [Ne, String.ofList_eq_empty_iff]
        simp
      · apply String.toList_inj.1
        have forwards := congrArg List.reverse isSplit
        rw [List.reverse_reverse] at forwards
        refine forwards.symm.trans ?_
        simp
    · contradiction
  · rintro ⟨noPoint, stem, notEmpty, rfl⟩
    have backwards : (stem ++ "." ++ ending).toList.reverse =
        ending.toList.reverse ++ '.' :: stem.toList.reverse := by
      simp [String.toList_append, point]
    have inside : ∀ character ∈ ending.toList.reverse, (character != '.') = true := by
      intro character member
      rw [bne_iff_ne]
      rintro rfl
      exact noPoint (List.mem_reverse.1 member)
    obtain ⟨before, others, isStem⟩ : ∃ before others, stem.toList.reverse = before :: others :=
      List.exists_cons_of_ne_nil (by simpa using notEmpty)
    simp only [backwards, List.dropWhile_append_of_pos inside,
      List.takeWhile_append_of_pos inside, isStem]
    simp

end Path

end ObjectIds
