import ObjectIds.Manifest
import ObjectIds.Proofs.RangeCapacity
import ObjectIds.Proofs.WarningThreshold

/-!
# Ids that are left

A warning says how many ids are left for a kind.  It counts what the ranges count for and
every time that an id is recorded, so it is exact where no range is reversed, no two ranges
overlap and no id is recorded twice.  Otherwise it is off by as much as these counts are.
-/

namespace ObjectIds

namespace IdRange

variable (ranges : List IdRange)

/-- The ids in some range that are not recorded. -/
def left (ids : List UInt32) : Set UInt32 := {id | id ∈ usable ranges ∧ id ∉ ids}

/-- The ids in some range that are recorded. -/
def used (ids : List UInt32) : Set UInt32 := {id | id ∈ usable ranges ∧ id ∈ ids}

/-- How often an id in some range is recorded again. -/
def repeats : List UInt32 → Nat
  | [] => 0
  | id :: ids =>
      (if anyContains ranges id ∧ id ∈ ids then 1 else 0) + repeats ids

theorem used_cons_of_contains {id : UInt32} (inside : anyContains ranges id = true)
    (ids : List UInt32) : used ranges (id :: ids) = insert id (used ranges ids) := by
  ext other
  simp only [used, List.mem_cons, Set.mem_ofPred_eq, Set.mem_insert_iff]
  constructor
  · rintro ⟨usable, rfl | recorded⟩
    · exact Or.inl rfl
    · exact Or.inr ⟨usable, recorded⟩
  · rintro (rfl | ⟨usable, recorded⟩)
    · exact ⟨inside, Or.inl rfl⟩
    · exact ⟨usable, Or.inr recorded⟩

theorem used_cons_of_not_contains {id : UInt32}
    (outside : anyContains ranges id = false) (ids : List UInt32) :
    used ranges (id :: ids) = used ranges ids := by
  ext other
  simp only [used, List.mem_cons, Set.mem_ofPred_eq]
  constructor
  · rintro ⟨usable, rfl | recorded⟩
    · exact absurd (outside.symm.trans usable) Bool.false_ne_true
    · exact ⟨usable, recorded⟩
  · rintro ⟨usable, recorded⟩
    exact ⟨usable, Or.inr recorded⟩

/-- The records in some range are the recorded ids and the repetitions. -/
theorem countIn_eq (ids : List UInt32) :
    Consumption.countIn ranges ids = (used ranges ids).ncard + repeats ranges ids := by
  induction ids with
  | nil => simp [Consumption.countIn, used, repeats]
  | cons id ids ih =>
      have counted : Consumption.countIn ranges (id :: ids) =
          Consumption.countIn ranges ids + if anyContains ranges id then 1 else 0 :=
        List.countP_cons
      rw [counted, ih, repeats]
      cases inside : anyContains ranges id with
      | false => simp [used_cons_of_not_contains ranges inside]
      | true =>
          rw [used_cons_of_contains ranges inside]
          by_cases again : id ∈ ids
          · have recorded : id ∈ used ranges ids := ⟨inside, again⟩
            rw [Set.ncard_insert_of_mem recorded]
            simp only [again, and_self, if_true]
            omega
          · rw [Set.ncard_insert_of_notMem fun recorded => again recorded.2]
            simp only [again, and_false, if_true, if_false]
            omega

theorem repeats_eq_zero_iff (ids : List UInt32) :
    repeats ranges ids = 0 ↔ (ids.filter (anyContains ranges)).Nodup := by
  induction ids with
  | nil => simp [repeats]
  | cons id ids ih =>
      rw [repeats, Nat.add_eq_zero_iff, ih]
      cases inside : anyContains ranges id <;> simp [inside]

/-- The ids in some range are those that are left and those that are recorded. -/
theorem ncard_usable (ids : List UInt32) :
    (usable ranges).ncard = (left ranges ids).ncard + (used ranges ids).ncard := by
  have isLeft : left ranges ids = usable ranges \ {id | id ∈ ids} := rfl
  have isUsed : used ranges ids = usable ranges ∩ {id | id ∈ ids} := rfl
  rw [isLeft, isUsed, Nat.add_comm, Set.ncard_inter_add_ncard_sdiff_eq_ncard]

end IdRange

namespace Consumption

variable {ranges : List IdRange} {consumption : Consumption}

theorem mem_warnings_iff (hasRanges : ranges ≠ []) {warning : Warning} :
    warning ∈ consumption.warnings ranges ↔
      ∃ entry ∈ consumption.entries, warning? ranges entry = some warning := by
  simp [warnings, hasRanges]

/-- No two records have the same key. -/
theorem eq_of_mem_of_key_eq {entry other : String × List UInt32}
    (member : entry ∈ consumption.entries) (isOther : other ∈ consumption.entries)
    (sameKey : entry.1 = other.1) : entry = other := by
  have distinct : (consumption.entries.map Prod.fst).Nodup :=
    consumption.ascending.imp fun before => String.ne_of_lt before
  exact List.inj_on_of_nodup_map distinct member isOther sameKey

/-- What ranges count for is what is left, what is recorded, and their surplus. -/
theorem available_eq_left (ranges : List IdRange) (ids : List UInt32) :
    IdRange.available ranges =
      (IdRange.left ranges ids).ncard + (IdRange.used ranges ids).ncard +
        IdRange.surplus ranges := by
  rw [IdRange.available_eq, IdRange.ncard_usable ranges ids]

theorem left_add_countIn (ranges : List IdRange) (ids : List UInt32) :
    (IdRange.left ranges ids).ncard + countIn ranges ids + IdRange.surplus ranges =
      IdRange.available ranges + IdRange.repeats ranges ids := by
  have available := available_eq_left ranges ids
  have counted := IdRange.countIn_eq ranges ids
  omega

/-- How many ids are left can be computed from the surplus. -/
theorem ncard_left_eq {ranges : List IdRange} {ids : List UInt32} {surplus left : Nat}
    (isSurplus : IdRange.surplus ranges = surplus)
    (balance : left + countIn ranges ids + surplus =
      IdRange.available ranges + IdRange.repeats ranges ids) :
    (IdRange.left ranges ids).ncard = left := by
  have counts := left_add_countIn ranges ids
  omega

/-- A warning says how many ids are left, and what the ranges and the record count too
much. -/
theorem remaining_of_warning? {ranges : List IdRange} {entry : String × List UInt32}
    {warning : Warning} (isWarned : warning? ranges entry = some warning) :
    warning.kind = entry.1 ∧ warning.remaining =
      (IdRange.left ranges entry.2).ncard + IdRange.surplus ranges -
        IdRange.repeats ranges entry.2 := by
  unfold warning? at isWarned
  simp only at isWarned
  split at isWarned
  · obtain rfl := Option.some.inj isWarned
    have counts := left_add_countIn ranges entry.2
    exact ⟨rfl, by simp only; omega⟩
  · contradiction

/-- Only as many ids can be recorded as there are words, so what ranges count for is small when
few ids are left. -/
theorem available_lt_of_few_left {ranges : List IdRange} {ids : List UInt32}
    (few : (IdRange.left ranges ids).ncard + IdRange.surplus ranges ≤ 5) :
    IdRange.available ranges < 2 ^ 53 := by
  have available := available_eq_left ranges ids
  have words := ncard_le_size (IdRange.used ranges ids)
  rw [UInt32.size] at words
  omega

/-- There is a warning if few ids are left, as long as rounding does not matter. -/
theorem exists_warning?_of_few_left {ranges : List IdRange} {entry : String × List UInt32}
    (few : (IdRange.left ranges entry.2).ncard + IdRange.surplus ranges -
      IdRange.repeats ranges entry.2 ≤ 5)
    (small : IdRange.available ranges < 2 ^ 53) :
    ∃ warning, warning? ranges entry = some warning := by
  have counts := left_add_countIn ranges entry.2
  have runsOut : isRunningOut (IdRange.available ranges) (countIn ranges entry.2) = true :=
    isRunningOut_of_few_left (by omega) small
  simp [warning?, runsOut]

end Consumption

/-- A kind is warned about when at most five ids are left for it, and a warning says how many
are left, except that a reversed range and each id that two ranges have in common add to them
and an id that is recorded again takes away from them.  Rounding can only matter to ranges
that count for 2⁵³ ids or more. -/
theorem warnings_count_left (manifest : Manifest) (consumption : Consumption)
    (hasRanges : manifest.ranges ≠ []) :
    let ranges := manifest.ranges
    (∀ entry ∈ consumption.entries,
        let left := (IdRange.left ranges entry.2).ncard + IdRange.surplus ranges
        let remaining := left - IdRange.repeats ranges entry.2
        (remaining ≤ 5 → left ≤ 5 ∨ IdRange.available ranges < 2 ^ 53 →
            ∃ warning ∈ consumption.warnings ranges, warning.kind = entry.1) ∧
          ∀ warning ∈ consumption.warnings ranges, warning.kind = entry.1 →
            warning.remaining = remaining) ∧
      (IdRange.surplus ranges = 0 ↔ (∀ range ∈ ranges, range.first ≤ range.last) ∧
        ranges.Pairwise fun first second => first.ids ∩ second.ids = ∅) ∧
      ∀ ids, IdRange.repeats ranges ids = 0 ↔
        (ids.filter (IdRange.anyContains ranges)).Nodup := by
  intro ranges
  refine ⟨fun entry member => ?_, IdRange.surplus_eq_zero_iff ranges,
    IdRange.repeats_eq_zero_iff ranges⟩
  intro left remaining
  constructor
  · intro few smallOrFew
    have small := smallOrFew.elim Consumption.available_lt_of_few_left id
    obtain ⟨warning, isWarned⟩ := Consumption.exists_warning?_of_few_left few small
    have isThere := (Consumption.mem_warnings_iff hasRanges).2 ⟨entry, member, isWarned⟩
    exact ⟨warning, isThere, (Consumption.remaining_of_warning? isWarned).1⟩
  · intro warning isThere sameKind
    obtain ⟨other, isOther, isWarned⟩ := (Consumption.mem_warnings_iff hasRanges).1 isThere
    obtain ⟨isKind, isRemaining⟩ := Consumption.remaining_of_warning? isWarned
    obtain rfl := Consumption.eq_of_mem_of_key_eq isOther member (isKind.symm.trans sameKind)
    exact isRemaining

/-- Ten ids in a range and one more for a reversed range, of which six are recorded and one of
them again. -/
theorem warnings_count_left_with_reversed_range :
    let manifest : Manifest :=
      { Manifest.empty with idRanges := [⟨1, 10, none⟩], idRange := some ⟨20, 15, none⟩ }
    let record : String × List UInt32 := ("table", [1, 2, 3, 4, 5, 6, 6])
    let consumption := Consumption.ofList [record]
    manifest.ranges ≠ [] ∧ record ∈ consumption.entries ∧
      (IdRange.left manifest.ranges record.2).ncard = 4 ∧
      IdRange.surplus manifest.ranges = 1 ∧
      IdRange.repeats manifest.ranges record.2 = 1 ∧
      ∃ warning ∈ consumption.warnings manifest.ranges,
        warning.kind = "table" ∧ warning.remaining = 4 := by
  intro manifest record consumption
  have hasRanges : manifest.ranges ≠ [] := by decide
  have member : record ∈ consumption.entries := by decide +kernel
  obtain ⟨counts, -, -⟩ := warnings_count_left manifest consumption hasRanges
  obtain ⟨isWarned, remaining⟩ := counts record member
  have noIds : (⟨20, 15, none⟩ : IdRange).ids = ∅ := IdRange.ids_eq_empty (by decide)
  have surplus : IdRange.surplus manifest.ranges = 1 := by
    simp [manifest, Manifest.ranges, IdRange.surplus, IdRange.shared, IdRange.isReversed, noIds]
  have again : IdRange.repeats manifest.ranges record.2 = 1 := by decide +kernel
  have left : (IdRange.left manifest.ranges record.2).ncard = 4 :=
    Consumption.ncard_left_eq surplus (by decide +kernel)
  rw [left, surplus, again] at isWarned remaining
  obtain ⟨warning, isThere, isKind⟩ := isWarned (by decide) (Or.inl (Nat.le_refl 5))
  exact ⟨hasRanges, member, left, surplus, again, warning, isThere, isKind,
    remaining warning isThere isKind⟩

/-- Whether a kind is warned about when at most five ids are left for it, and each warning
says how many are left. -/
def CountsLeft (manifest : Manifest) (consumption : Consumption) : Prop :=
  ∀ entry ∈ consumption.entries,
    let left := (IdRange.left manifest.ranges entry.2).ncard
    (left ≤ 5 → ∃ warning ∈ consumption.warnings manifest.ranges, warning.kind = entry.1) ∧
      ∀ warning ∈ consumption.warnings manifest.ranges, warning.kind = entry.1 →
        warning.remaining = left

/-- A reversed range counts for an id, ids in both forms of ranges count twice, and an id that
is recorded again counts again. -/
theorem not_countsLeft :
    ¬CountsLeft { Manifest.empty with idRanges := [⟨10, 5, none⟩] }
        (Consumption.ofList [("table", [])]) ∧
      ¬CountsLeft
        { Manifest.empty with idRanges := [⟨1, 6, none⟩], idRange := some ⟨1, 6, none⟩ }
        (Consumption.ofList [("table", [1, 2, 3, 4, 5, 6])]) ∧
      ¬CountsLeft { Manifest.empty with idRanges := [⟨1, 5, none⟩] }
        (Consumption.ofList [("table", [1, 1, 1])]) := by
  refine ⟨fun counts => ?_, fun counts => ?_, fun counts => ?_⟩
  · have surplus : IdRange.surplus [⟨10, 5, none⟩] = 1 := by
      simp [IdRange.surplus, IdRange.shared, IdRange.isReversed]
    have left : (IdRange.left [⟨10, 5, none⟩] []).ncard = 0 :=
      Consumption.ncard_left_eq surplus (by decide +kernel)
    obtain ⟨-, remaining⟩ := counts ("table", []) (by decide +kernel)
    have isNone := (remaining ⟨"table", 0, 1⟩ (by decide +kernel) rfl).trans left
    exact absurd isNone (by decide)
  · have surplus : IdRange.surplus [⟨1, 6, none⟩, ⟨1, 6, none⟩] = 6 := by
      simp [IdRange.surplus, IdRange.shared, IdRange.isReversed, IdRange.ncard_ids]
    have left : (IdRange.left [⟨1, 6, none⟩, ⟨1, 6, none⟩] [1, 2, 3, 4, 5, 6]).ncard = 0 :=
      Consumption.ncard_left_eq surplus (by decide +kernel)
    obtain ⟨isWarned, -⟩ := counts ("table", [1, 2, 3, 4, 5, 6]) (by decide +kernel)
    obtain ⟨warning, isThere, -⟩ := isWarned (Nat.le_trans (Nat.le_of_eq left) (by decide))
    have noWarnings : Consumption.warnings [⟨1, 6, none⟩, ⟨1, 6, none⟩]
        (Consumption.ofList [("table", [1, 2, 3, 4, 5, 6])]) = [] := by decide +kernel
    exact absurd (noWarnings ▸ isThere) List.not_mem_nil
  · have surplus : IdRange.surplus [⟨1, 5, none⟩] = 0 := by
      simp [IdRange.surplus, IdRange.shared, IdRange.isReversed]
    have left : (IdRange.left [⟨1, 5, none⟩] [1, 1, 1]).ncard = 4 :=
      Consumption.ncard_left_eq surplus (by decide +kernel)
    obtain ⟨-, remaining⟩ := counts ("table", [1, 1, 1]) (by decide +kernel)
    have isFour := (remaining ⟨"table", 3, 2⟩ (by decide +kernel) rfl).trans left
    exact absurd isFour (by decide)

end ObjectIds
