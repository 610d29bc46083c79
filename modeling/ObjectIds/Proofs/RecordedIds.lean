import Mathlib.Data.List.Basic
import ObjectIds.Diagnostic
import ObjectIds.Scan

/-!
# Ids without a record

Several keys can be the name of one kind, in letters of different case.  Only the first of
them is asked whether an id is recorded, so an id that another one lists is reported as well.
Where no two keys differ in case only, exactly the ids without a record are reported.
-/

namespace ObjectIds

namespace Diagnostic

variable {consumption : Consumption} {kind : String} {id : UInt32}

/-- Whether some key that is the name of a kind lists an id. -/
def isListed (consumption : Consumption) (kind : String) (id : UInt32) : Bool :=
  consumption.entries.any fun entry =>
    Text.equalIgnoringCase entry.1 kind && entry.2.contains id

/-- The warning that the id of a declaration has no record. -/
def notSynchronized (declaration : Declaration) (id : UInt32) : Diagnostic where
  severity := .warning
  message := declaration.kind ++ " " ++ Text.decimalText id ++ " is not synchronized"
  span := idSpan declaration
  hint := some "Synchronize object ids with the back end to record this id"

/-- The warning about a declaration whose id no key of its kind lists. -/
def unlisted? (consumption : Consumption) (declaration : Declaration) : Option Diagnostic :=
  declaration.id.bind fun id =>
    if isListed consumption declaration.kind id then none
    else some (notSynchronized declaration id)

/-- Whether every id that some key of its kind lists is listed by the first such key. -/
def NonePassedOver (consumption : Consumption) (declarations : List Declaration) : Prop :=
  ∀ declaration ∈ declarations, ∀ id, declaration.id = some id →
    isListed consumption declaration.kind id = true →
      isRecorded consumption declaration.kind id = true

theorem isRecorded_eq_true_iff :
    isRecorded consumption kind id = true ↔
      ∃ entry, consumption.entries.find? (Text.equalIgnoringCase ·.1 kind) = some entry ∧
        id ∈ entry.2 := by
  unfold isRecorded Consumption.idsOf?
  cases consumption.entries.find? (Text.equalIgnoringCase ·.1 kind) <;> simp

theorem isListed_eq_true_iff :
    isListed consumption kind id = true ↔
      ∃ entry ∈ consumption.entries, Text.equalIgnoringCase entry.1 kind = true ∧
        id ∈ entry.2 := by
  simp [isListed]

theorem isListed_of_isRecorded (recorded : isRecorded consumption kind id = true) :
    isListed consumption kind id = true := by
  obtain ⟨entry, isFirst, lists⟩ := isRecorded_eq_true_iff.1 recorded
  have isName := List.find?_some isFirst
  exact isListed_eq_true_iff.2 ⟨entry, List.mem_of_find?_eq_some isFirst, isName, lists⟩

/-- Where no two keys differ in case only, there is no second key of a kind. -/
theorem isRecorded_of_isListed
    (distinct : consumption.entries.Pairwise fun first second =>
      Text.equalIgnoringCase first.1 second.1 = false)
    (listed : isListed consumption kind id = true) : isRecorded consumption kind id = true := by
  obtain ⟨entry, member, isName, lists⟩ := isListed_eq_true_iff.1 listed
  obtain ⟨first, isFirst⟩ : ∃ first,
      consumption.entries.find? (Text.equalIgnoringCase ·.1 kind) = some first :=
    Option.isSome_iff_exists.1 (List.find?_isSome.2 ⟨entry, member, isName⟩)
  obtain ⟨firstIsName, before, after, isSplit, noneBefore⟩ :=
    List.find?_eq_some_iff_append.1 isFirst
  have isEntry : entry = first := by
    rw [isSplit, List.mem_append, List.mem_cons] at member
    rw [isSplit, List.pairwise_append, List.pairwise_cons] at distinct
    rcases member with isBefore | isEntry | isAfter
    · exact absurd isName (by simpa using noneBefore entry isBefore)
    · exact isEntry
    · have differ := distinct.2.1.1 entry isAfter
      simp only [Text.equalIgnoringCase, beq_iff_eq, beq_eq_false_iff_ne] at *
      exact absurd (firstIsName.trans isName.symm) differ
  exact isRecorded_eq_true_iff.2 ⟨first, isFirst, isEntry ▸ lists⟩

section Reports

variable {declaration : Declaration} {declarations : List Declaration}

theorem unsynchronized?_eq (consumption : Consumption) (declaration : Declaration) :
    unsynchronized? consumption declaration =
      declaration.id.bind fun id =>
        if isRecorded consumption declaration.kind id then none
        else some (notSynchronized declaration id) := rfl

theorem unsynchronized?_of_unlisted? {diagnostic : Diagnostic}
    (due : unlisted? consumption declaration = some diagnostic) :
    unsynchronized? consumption declaration = some diagnostic := by
  obtain ⟨id, isId, isDue⟩ := Option.bind_eq_some_iff.1 due
  rw [unsynchronized?_eq, isId, Option.bind_some]
  cases recorded : isRecorded consumption declaration.kind id with
  | true => simp [isListed_of_isRecorded recorded] at isDue
  | false =>
      split at isDue
      · contradiction
      · exact isDue

/-- A declaration is reported without need if its id is passed over. -/
theorem unsynchronized?_eq_unlisted?_iff :
    unsynchronized? consumption declaration = unlisted? consumption declaration ↔
      ∀ id, declaration.id = some id → isListed consumption declaration.kind id = true →
        isRecorded consumption declaration.kind id = true := by
  rw [unsynchronized?_eq, unlisted?]
  cases declaration.id with
  | none => simp
  | some id =>
      simp only [Option.bind_some, Option.some.injEq, forall_eq']
      cases recorded : isRecorded consumption declaration.kind id with
      | true => simp [isListed_of_isRecorded recorded]
      | false => cases isListed consumption declaration.kind id <;> simp

theorem nonePassedOver_iff :
    NonePassedOver consumption declarations ↔ ∀ declaration ∈ declarations,
      unsynchronized? consumption declaration = unlisted? consumption declaration := by
  simp only [NonePassedOver, unsynchronized?_eq_unlisted?_iff]

/-- What is due is reported, in the same order. -/
theorem unlisted_sublist (consumption : Consumption) (declarations : List Declaration) :
    (declarations.filterMap (unlisted? consumption)).Sublist
      (unsynchronized consumption declarations) := by
  unfold unsynchronized
  induction declarations with
  | nil => exact .slnil
  | cons declaration declarations ih =>
      cases due : unlisted? consumption declaration with
      | some diagnostic =>
          rw [List.filterMap_cons_some due,
            List.filterMap_cons_some (unsynchronized?_of_unlisted? due)]
          exact ih.cons_cons diagnostic
      | none =>
          rw [List.filterMap_cons_none due, List.filterMap_cons]
          split
          · exact ih
          · exact ih.cons _

/-- No more than what is due is reported if and only if no record is passed over. -/
theorem unsynchronized_eq_unlisted_iff (consumption : Consumption)
    (declarations : List Declaration) :
    unsynchronized consumption declarations =
        declarations.filterMap (unlisted? consumption) ↔
      NonePassedOver consumption declarations := by
  rw [nonePassedOver_iff]
  refine ⟨fun same => ?_, List.filterMap_congr⟩
  induction declarations with
  | nil => simp
  | cons declaration declarations ih =>
      rw [unsynchronized, List.filterMap_cons, List.filterMap_cons] at same
      have noFewer := (unlisted_sublist consumption declarations).length_le
      rw [List.forall_mem_cons]
      cases due : unlisted? consumption declaration with
      | some diagnostic =>
          rw [due, unsynchronized?_of_unlisted? due] at same
          exact ⟨unsynchronized?_of_unlisted? due, ih (List.cons.inj same).2⟩
      | none =>
          cases reported : unsynchronized? consumption declaration with
          | none =>
              rw [due, reported] at same
              exact ⟨rfl, ih same⟩
          | some diagnostic =>
              -- One report too many cannot be made up for, since what is due is all there.
              rw [due, reported] at same
              have lengths := congrArg List.length same
              simp only [List.length_cons] at lengths
              unfold unsynchronized at noFewer
              omega

end Reports

end Diagnostic

/-- Every id without a record is reported, in the order of the declarations.  Nothing else is
reported if and only if no id is listed under a second key of its kind only, and so whenever no
two keys differ in case only. -/
theorem unsynchronized_unlisted (consumption : Consumption) (declarations : List Declaration) :
    let reported := Diagnostic.unsynchronized consumption declarations
    let due := declarations.filterMap (Diagnostic.unlisted? consumption)
    due.Sublist reported ∧
      (reported = due ↔ Diagnostic.NonePassedOver consumption declarations) ∧
      ((consumption.entries.Pairwise fun first second =>
          Text.equalIgnoringCase first.1 second.1 = false) → reported = due) := by
  intro reported due
  have same := Diagnostic.unsynchronized_eq_unlisted_iff consumption declarations
  refine ⟨Diagnostic.unlisted_sublist consumption declarations, same, fun distinct => ?_⟩
  exact same.2 fun declaration _ id _ listed =>
    Diagnostic.isRecorded_of_isListed distinct listed

/-- An id that is recorded in other letters, and one that is recorded for another kind. -/
theorem unsynchronized_unlisted_for_one_kind :
    let declarations :=
      (Scan.ofText "codeunit 2 A \x7b \x7d\nPage 1 B \x7b \x7d" .empty).declarations
    let consumption := Consumption.ofList [("CodeUnit", [1, 2]), ("page", [2])]
    (consumption.entries.Pairwise fun first second =>
        Text.equalIgnoringCase first.1 second.1 = false) ∧
      Diagnostic.unsynchronized consumption declarations =
        declarations.filterMap (Diagnostic.unlisted? consumption) ∧
      (declarations.filterMap (Diagnostic.unlisted? consumption)).map Diagnostic.message =
        ["page 1 is not synchronized"] := by
  intro declarations consumption
  have distinct : consumption.entries.Pairwise fun first second =>
      Text.equalIgnoringCase first.1 second.1 = false := by decide +kernel
  obtain ⟨-, -, exactly⟩ := unsynchronized_unlisted consumption declarations
  exact ⟨distinct, exactly distinct, by decide +kernel⟩

/-- An id that the second key of its kind lists is reported. -/
theorem unsynchronized_passed_over :
    let declarations := (Scan.ofText "codeunit 2 A \x7b \x7d" .empty).declarations
    let consumption := Consumption.ofList [("Codeunit", [1]), ("codeunit", [2])]
    (Diagnostic.unsynchronized consumption declarations).map Diagnostic.message =
        ["codeunit 2 is not synchronized"] ∧
      declarations.filterMap (Diagnostic.unlisted? consumption) = [] := by
  decide +kernel

end ObjectIds
