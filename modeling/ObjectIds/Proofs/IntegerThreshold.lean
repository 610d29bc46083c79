import Mathlib.Order.Defs.LinearOrder
import ObjectIds.Proofs.RemainingIds

/-!
# The threshold in whole numbers

Rounding to 53 significant bits is monotone and leaves numbers of so many bits alone.  So the
threshold, which is computed with rounded products, is reached by the same counts as the rule
with the exact share: below 95 % a product stays away from the whole numbers by more than it can
be rounded, as long as the share matters at all.
-/

namespace ObjectIds

namespace Binary64

/-- Rounding goes to one of the two numbers around a number. -/
theorem nearestNat_le_ceiling (magnitude : Nat) :
    nearestNat magnitude ≤ (magnitude / spacing magnitude + 1) * spacing magnitude := by
  unfold nearestNat
  simp only
  split
  · exact Nat.mul_le_mul_right _ (Nat.le_succ _)
  · exact Nat.le_refl _

/-- Rounding does not go beyond the next power of two. -/
theorem nearestNat_le (magnitude : Nat) : nearestNat magnitude ≤ 2 ^ (magnitude.log2 + 1) := by
  have aligned : spacing magnitude ∣ 2 ^ (magnitude.log2 + 1) := by
    rw [spacing_eq]
    exact Nat.pow_dvd_pow 2 (Nat.sub_le _ _)
  have below : magnitude / spacing magnitude < 2 ^ (magnitude.log2 + 1) / spacing magnitude :=
    Nat.div_lt_div_of_lt_of_dvd aligned Nat.lt_log2_self
  calc
    nearestNat magnitude ≤ (magnitude / spacing magnitude + 1) * spacing magnitude :=
      nearestNat_le_ceiling magnitude
    _ ≤ 2 ^ (magnitude.log2 + 1) / spacing magnitude * spacing magnitude :=
      Nat.mul_le_mul_right _ below
    _ = 2 ^ (magnitude.log2 + 1) := Nat.div_mul_cancel aligned

/-- Between two powers of two, where the spacing is the same, rounding is monotone. -/
theorem nearestNat_le_of_spacing_eq {first second : Nat} (le : first ≤ second)
    (same : spacing first = spacing second) : nearestNat first ≤ nearestNat second := by
  have quotients := Nat.div_le_div_right (c := spacing second) le
  rcases Nat.lt_or_eq_of_le quotients with isBelow | sameQuotient
  · calc
      nearestNat first ≤ (first / spacing second + 1) * spacing second :=
        same ▸ nearestNat_le_ceiling first
      _ ≤ second / spacing second * spacing second := Nat.mul_le_mul_right _ isBelow
      _ ≤ nearestNat second := floor_le_nearestNat second
  · -- The smaller number has the smaller excess, so it goes up only if the other does.
    have excess : first % spacing second ≤ second % spacing second := by
      have firstEq := Nat.div_add_mod first (spacing second)
      have secondEq := Nat.div_add_mod second (spacing second)
      rw [sameQuotient] at firstEq
      omega
    unfold nearestNat
    simp only [same, sameQuotient]
    split <;> split
    · exact Nat.le_refl _
    · exact Nat.mul_le_mul_right _ (Nat.le_succ _)
    · omega
    · exact Nat.le_refl _

theorem nearestNat_mono {first second : Nat} (le : first ≤ second) :
    nearestNat first ≤ nearestNat second := by
  by_cases isZero : first = 0
  · rw [isZero, nearestNat_of_lt_two_pow (Nat.two_pow_pos 53)]
    exact Nat.zero_le _
  · have bits : first.log2 ≤ second.log2 :=
      (Nat.le_log2 (by omega)).2 (Nat.le_trans (Nat.log2_self_le isZero) le)
    rcases Nat.lt_or_eq_of_le bits with fewer | same
    · calc
        nearestNat first ≤ 2 ^ (first.log2 + 1) := nearestNat_le first
        _ ≤ 2 ^ second.log2 := Nat.pow_le_pow_right (by decide) fewer
        _ ≤ nearestNat second := le_nearestNat (by omega)
    · exact nearestNat_le_of_spacing_eq le (by rw [spacing_eq, spacing_eq, same])

theorem nearest_natCast (magnitude : Nat) :
    nearest magnitude = (nearestNat magnitude : Int) := by
  simp [nearest, show ¬(magnitude : Int) < 0 by omega]

end Binary64

namespace Consumption

theorem nearest_share (available : Nat) :
    Binary64.nearest (available * warningShare) =
      (Binary64.nearestNat (available * 8556839292003942) : Int) := by
  rw [← Binary64.nearest_natCast, Int.natCast_mul]
  rfl

/-- The double nearest to 95 % is below 95 %, and rounding does not lift the product over a
whole number. -/
theorem nearest_share_le {available consumed : Nat} (small : consumed < 2 ^ 53)
    (enough : 19 * available ≤ 20 * consumed) :
    Binary64.nearest (available * warningShare) ≤ consumed * Binary64.one := by
  have product : available * 8556839292003942 ≤ consumed * 2 ^ 53 := by omega
  have rounded := Binary64.nearestNat_mono product
  rw [Binary64.nearestNat_mul_two_pow small] at rounded
  rw [nearest_share]
  unfold Binary64.one
  omega

/-- Below 500 ids the product lies so far above the whole numbers below 95 % that rounding
does not reach them. -/
theorem lt_nearest_share {available consumed : Nat} (few : available < 500)
    (notEnough : 20 * consumed < 19 * available) :
    consumed * Binary64.one < Binary64.nearest (available * warningShare) := by
  -- The number between has 15 significant bits.
  have between : (64 * consumed + 1) * 2 ^ 47 ≤ available * 8556839292003942 := by omega
  have rounded := Binary64.nearestNat_mono between
  rw [Binary64.nearestNat_mul_two_pow (by omega)] at rounded
  rw [nearest_share]
  unfold Binary64.one
  omega

/-- Below 2⁵³ ids the rule for a warning can be said with whole numbers. -/
theorem isRunningOut_iff {available consumed : Nat} (small : available < 2 ^ 53)
    (consumedSmall : consumed < 2 ^ 53) :
    isRunningOut available consumed = true ↔
      available ≤ consumed + 25 ∧
        (available ≤ consumed + 5 ∨ 19 * available ≤ 20 * consumed) := by
  unfold isRunningOut warningThreshold
  simp only [Binary64.nearestNat_of_lt_two_pow small,
    Binary64.nearestNat_of_lt_two_pow consumedSmall, decide_eq_true_eq]
  rw [Binary64.nearest_mul_one (by omega), Binary64.nearest_mul_one (by omega), Int.max_le,
    min_le_iff]
  constructor
  · rintro ⟨shareOrFew, many⟩
    have withinMany : available ≤ consumed + 25 := by
      unfold Binary64.one at many
      omega
    refine ⟨withinMany, Classical.byContradiction fun neither => ?_⟩
    obtain ⟨notFew, notEnough⟩ := not_or.1 neither
    -- From 500 ids on, the rule about 25 ids is the stricter one.
    have tooMuch := @lt_nearest_share available consumed (by omega) (by omega)
    unfold Binary64.one at shareOrFew tooMuch
    omega
  · rintro ⟨many, few | enough⟩
    · unfold Binary64.one
      omega
    · refine ⟨Or.inl (nearest_share_le consumedSmall enough), ?_⟩
      unfold Binary64.one
      omega

theorem warning?_eq_some_iff {ranges : List IdRange} {entry : String × List UInt32}
    {warning : Warning} :
    warning? ranges entry = some warning ↔
      isRunningOut (IdRange.available ranges) (countIn ranges entry.2) = true ∧
        warning = ⟨entry.1, countIn ranges entry.2,
          IdRange.available ranges - countIn ranges entry.2⟩ := by
  unfold warning?
  simp only
  split
  · rename_i runsOut
    simp only [runsOut, true_and, Option.some.injEq, eq_comm]
  · rename_i notRunningOut
    simp [notRunningOut]

/-- The keys of warnings are in order because the keys of records are. -/
theorem pairwise_kind_filterMap (ranges : List IdRange) {entries : List (String × List UInt32)}
    (ascending : (entries.map Prod.fst).Pairwise (· < ·)) :
    ((entries.filterMap (warning? ranges)).map Warning.kind).Pairwise (· < ·) := by
  refine List.Pairwise.sublist ?_ ascending
  induction entries with
  | nil => exact List.Sublist.slnil
  | cons entry entries ih =>
      have later := ih (List.pairwise_cons.1 ascending).2
      cases isWarned : warning? ranges entry with
      | none => simpa [isWarned] using later.cons entry.1
      | some warning =>
          obtain ⟨-, rfl⟩ := warning?_eq_some_iff.1 isWarned
          simpa [isWarned] using later.cons_cons entry.1

end Consumption

/-- Below 2⁵³ ids a record is warned about exactly when at most 25 ids are left and moreover at
most 5 are left or 95 % are recorded.  The warning says how many are recorded in some range and
how many are left.  The warnings are in ascending order of their keys, at most one for each. -/
theorem warnings_by_whole_numbers (ranges : List IdRange) (consumption : Consumption)
    (hasRanges : ranges ≠ []) (small : IdRange.available ranges < 2 ^ 53) :
    let available := IdRange.available ranges
    let warnings := consumption.warnings ranges
    (∀ entry ∈ consumption.entries, entry.2.length < 2 ^ 53 →
        let consumed := entry.2.countP fun id => ranges.any (·.contains id)
        ((∃ warning ∈ warnings, warning.kind = entry.1) ↔
            available ≤ consumed + 25 ∧
              (available ≤ consumed + 5 ∨ 19 * available ≤ 20 * consumed)) ∧
          (∀ warning ∈ warnings, warning.kind = entry.1 →
            warning = ⟨entry.1, consumed, available - consumed⟩) ∧
          (available - consumed ≤ 5 → ∃ warning ∈ warnings, warning.kind = entry.1) ∧
          (25 < available - consumed → ∀ warning ∈ warnings, warning.kind ≠ entry.1)) ∧
      (∀ warning ∈ warnings, warning.kind ∈ consumption.entries.map Prod.fst) ∧
      (warnings.map Consumption.Warning.kind).Pairwise (· < ·) := by
  intro available warnings
  have inOrder : (warnings.map Consumption.Warning.kind).Pairwise (· < ·) := by
    have isList : warnings = consumption.entries.filterMap (Consumption.warning? ranges) := by
      simp [warnings, Consumption.warnings, hasRanges]
    rw [isList]
    exact Consumption.pairwise_kind_filterMap ranges consumption.ascending
  refine ⟨fun entry member fewIds => ?_, fun warning isThere => ?_, inOrder⟩
  · intro consumed
    have rule : Consumption.isRunningOut available consumed = true ↔ _ :=
      Consumption.isRunningOut_iff small (Nat.lt_of_le_of_lt List.countP_le_length fewIds)
    have carries : ∀ warning ∈ warnings, warning.kind = entry.1 →
        Consumption.isRunningOut available consumed = true ∧
          warning = ⟨entry.1, consumed, available - consumed⟩ := by
      intro warning isThere sameKind
      obtain ⟨other, isOther, isWarned⟩ := (Consumption.mem_warnings_iff hasRanges).1 isThere
      obtain ⟨runsOut, isWarning⟩ := Consumption.warning?_eq_some_iff.1 isWarned
      have sameKey : other.1 = entry.1 := by rw [← sameKind, isWarning]
      obtain rfl := Consumption.eq_of_mem_of_key_eq isOther member sameKey
      exact ⟨runsOut, isWarning⟩
    have isWarned : (∃ warning ∈ warnings, warning.kind = entry.1) ↔
        available ≤ consumed + 25 ∧
          (available ≤ consumed + 5 ∨ 19 * available ≤ 20 * consumed) := by
      rw [← rule]
      constructor
      · rintro ⟨warning, isThere, sameKind⟩
        exact (carries warning isThere sameKind).1
      · intro runsOut
        have isThere := (Consumption.mem_warnings_iff hasRanges).2
          ⟨entry, member, Consumption.warning?_eq_some_iff.2 ⟨runsOut, rfl⟩⟩
        exact ⟨_, isThere, rfl⟩
    refine ⟨isWarned, fun warning isThere sameKind => (carries warning isThere sameKind).2,
      fun few => isWarned.2 (by omega), fun many warning isThere sameKind => ?_⟩
    have atMost := isWarned.1 ⟨warning, isThere, sameKind⟩
    omega
  · obtain ⟨entry, member, isWarned⟩ := (Consumption.mem_warnings_iff hasRanges).1 isThere
    obtain ⟨-, rfl⟩ := Consumption.warning?_eq_some_iff.1 isWarned
    exact List.mem_map_of_mem member

/-- With 120 ids, 114 recorded ones are 95 % and call for a warning although six are left; 113
do not. -/
theorem warnings_by_whole_numbers_at_share :
    let ranges : List IdRange := [⟨101, 200, none⟩, ⟨51, 70, none⟩]
    let enough := ("table", (List.range' 101 107 ++ List.range' 51 14).map UInt32.ofNat)
    let tooFew := ("page", (List.range' 101 93 ++ List.range' 51 20).map UInt32.ofNat)
    let warnings := (Consumption.ofList [enough, tooFew]).warnings ranges
    ranges ≠ [] ∧ IdRange.available ranges = 120 ∧ enough.2.length = 121 ∧
      (∃ warning ∈ warnings, warning.kind = "table") ∧
      (∀ warning ∈ warnings, warning.kind = "table" → warning = ⟨"table", 114, 6⟩) ∧
      (¬∃ warning ∈ warnings, warning.kind = "page") := by
  intro ranges enough tooFew warnings
  have hasRanges : ranges ≠ [] := by decide
  have available : IdRange.available ranges = 120 := by decide
  have length : enough.2.length = 121 := by decide +kernel
  obtain ⟨rule, -, -⟩ := warnings_by_whole_numbers ranges (Consumption.ofList [enough, tooFew])
    hasRanges (by rw [available]; decide)
  obtain ⟨isWarned, carries, -, -⟩ := rule enough (by decide +kernel) (by rw [length]; decide)
  obtain ⟨isNotWarned, -⟩ := rule tooFew (by decide +kernel) (by decide +kernel)
  refine ⟨hasRanges, available, length, isWarned.2 (by decide +kernel),
    fun warning isThere isTable => ?_, fun isThere => ?_⟩
  · rw [carries warning isThere isTable]
    decide +kernel
  · exact absurd (isNotWarned.1 isThere) (by decide +kernel)

end ObjectIds
