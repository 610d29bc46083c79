import Mathlib.Data.Set.Card
import Mathlib.Order.Interval.Finset.Nat
import ObjectIds.IdRange

/-!
# The capacity of id ranges

The ids in some of several ranges are at most as many as the ranges count for.  A reversed
range counts for one id that it does not contain, and an id in several ranges counts once for
each of them; nothing else makes a difference.

A count in 64 bits is exact as long as its result takes no more than 64 bits, which fewer than
2³¹ ranges never do.
-/

namespace ObjectIds

instance finiteUInt32 : Finite UInt32 :=
  Finite.of_injective UInt32.toFin fun _ _ => UInt32.toFin_inj.1

theorem ncard_le_size (ids : Set UInt32) : ids.ncard ≤ UInt32.size :=
  calc
    ids.ncard ≤ Nat.card UInt32 := Set.ncard_le_card ids
    _ ≤ Nat.card (Fin UInt32.size) :=
      Nat.card_le_card_of_injective UInt32.toFin fun _ _ => UInt32.toFin_inj.1
    _ = UInt32.size := Nat.card_fin _

namespace IdRange

/-- The ids that a range contains. -/
def ids (range : IdRange) : Set UInt32 := {id | range.contains id = true}

/-- The ids that lie in some of several ranges. -/
def usable (ranges : List IdRange) : Set UInt32 := {id | anyContains ranges id = true}

/-- Whether the last id of a range comes before its first. -/
def isReversed (range : IdRange) : Bool := decide (range.last < range.first)

/-- How many ids of a range lie in a later range too, summed over the ranges. -/
noncomputable def shared : List IdRange → Nat
  | [] => 0
  | range :: ranges => (range.ids ∩ usable ranges).ncard + shared ranges

/-- What ranges count for beyond the ids in them: one for each reversed range, and one for
each id of a range that lies in a later range too. -/
noncomputable def surplus (ranges : List IdRange) : Nat :=
  ranges.countP isReversed + shared ranges

@[simp]
theorem mem_ids {range : IdRange} {id : UInt32} :
    id ∈ range.ids ↔ range.first ≤ id ∧ id ≤ range.last := by
  simp [ids, contains]

@[simp]
theorem usable_nil : usable [] = ∅ := by
  simp [usable, anyContains]

@[simp]
theorem usable_cons (range : IdRange) (ranges : List IdRange) :
    usable (range :: ranges) = range.ids ∪ usable ranges := by
  ext id
  simp [usable, anyContains, ids]

/-- The ids of a range are the numbers from its first to its last id. -/
theorem image_toNat_ids (range : IdRange) :
    UInt32.toNat '' range.ids = Finset.Icc range.first.toNat range.last.toNat := by
  ext number
  simp only [Set.mem_image, mem_ids, UInt32.le_iff_toNat_le, Finset.coe_Icc, Set.mem_Icc]
  constructor
  · rintro ⟨id, inside, rfl⟩
    exact inside
  · intro inside
    have small := Nat.lt_of_le_of_lt inside.2 range.last.toNat_lt
    refine ⟨UInt32.ofNat number, ?_, UInt32.toNat_ofNat_of_lt' small⟩
    rwa [UInt32.toNat_ofNat_of_lt' small]

theorem ncard_ids (range : IdRange) :
    range.ids.ncard = range.last.toNat + 1 - range.first.toNat := by
  rw [← Set.ncard_image_of_injective range.ids fun _ _ => UInt32.toNat_inj.1, image_toNat_ids,
    Set.ncard_coe_finset, Nat.card_Icc]

theorem ids_eq_empty {range : IdRange} (reversed : range.last < range.first) :
    range.ids = ∅ := by
  rw [← Set.ncard_eq_zero, ncard_ids]
  have lower := UInt32.lt_iff_toNat_lt.1 reversed
  omega

/-- A reversed range counts for one id more than it contains. -/
theorem size_eq (range : IdRange) :
    range.size = range.ids.ncard + range.isReversed.toNat := by
  rw [ncard_ids, size, isReversed]
  by_cases reversed : range.last < range.first
  · have lower := UInt32.lt_iff_toNat_lt.1 reversed
    simp only [reversed, decide_true, Bool.toNat_true]
    omega
  · have notLower := UInt32.le_iff_toNat_le.1 (UInt32.not_lt.1 reversed)
    simp only [reversed, decide_false, Bool.toNat_false]
    omega

/-- Ranges count for the ids in them and for their surplus. -/
theorem available_eq (ranges : List IdRange) :
    available ranges = (usable ranges).ncard + surplus ranges := by
  unfold surplus
  induction ranges with
  | nil => simp [shared]
  | cons range ranges ih =>
      -- The ids that the first range shares with later ones are in the union only once.
      have both := Set.ncard_union_add_ncard_inter range.ids (usable ranges)
      have reversed : (range :: ranges).countP isReversed =
          range.isReversed.toNat + ranges.countP isReversed := by
        rw [List.countP_cons, Nat.add_comm]
        cases range.isReversed <;> rfl
      rw [available_cons, size_eq, ih, usable_cons, shared, reversed]
      omega

theorem mem_usable {ranges : List IdRange} {id : UInt32} :
    id ∈ usable ranges ↔ ∃ range ∈ ranges, id ∈ range.ids := by
  simp [usable, anyContains, ids]

/-- No id counts twice if and only if no two ranges have an id in common. -/
theorem shared_eq_zero_iff (ranges : List IdRange) :
    shared ranges = 0 ↔
      ranges.Pairwise fun first second => first.ids ∩ second.ids = ∅ := by
  induction ranges with
  | nil => simp [shared]
  | cons range ranges ih =>
      have apart : range.ids ∩ usable ranges = ∅ ↔
          ∀ other ∈ ranges, range.ids ∩ other.ids = ∅ := by
        simp only [Set.eq_empty_iff_forall_notMem, Set.mem_inter_iff, mem_usable]
        constructor
        · rintro outside other member id ⟨inside, insideOther⟩
          exact outside id ⟨inside, other, member, insideOther⟩
        · rintro outside id ⟨inside, other, member, insideOther⟩
          exact outside other member id ⟨inside, insideOther⟩
      rw [shared, Nat.add_eq_zero_iff, Set.ncard_eq_zero, apart, ih, List.pairwise_cons]

/-- Ranges count for no more than the ids in them if and only if none is reversed and no two
have an id in common. -/
theorem surplus_eq_zero_iff (ranges : List IdRange) :
    surplus ranges = 0 ↔ (∀ range ∈ ranges, range.first ≤ range.last) ∧
      ranges.Pairwise fun first second => first.ids ∩ second.ids = ∅ := by
  rw [surplus, Nat.add_eq_zero_iff, shared_eq_zero_iff, List.countP_eq_zero]
  simp [isReversed]

/-! ## Counts in 64 bits -/

/-- The sum of two numbers, if it takes no more than 64 bits. -/
def addWords? (first second : UInt64) : Option UInt64 :=
  if first.toNat + second.toNat < UInt64.size then some (first + second) else none

/-- The number of ids that a range counts for, in 64 bits: one more than the difference of its
last id and its first, which is zero for a reversed range. -/
def wordSize? (range : IdRange) : Option UInt64 :=
  addWords? (if range.first ≤ range.last then range.last - range.first else 0).toUInt64 1

/-- The number of ids that several ranges count for, added up in 64 bits from the first range
on. -/
def availableWord? (ranges : List IdRange) : Option UInt64 :=
  ranges.foldlM (fun total range => range.wordSize?.bind (addWords? total)) 0

/-- A sum in 64 bits is exact. -/
theorem addWords?_eq_some_iff {first second sum : UInt64} :
    addWords? first second = some sum ↔ sum.toNat = first.toNat + second.toNat := by
  have bounded := sum.toNat_lt
  unfold addWords?
  split
  · rename_i fits
    have exact : (first + second).toNat = first.toNat + second.toNat := by
      rw [UInt64.toNat_add]
      exact Nat.mod_eq_of_lt fits
    rw [Option.some.injEq, ← UInt64.toNat_inj, exact]
    exact eq_comm
  · rename_i tooLarge
    have apart : sum.toNat ≠ first.toNat + second.toNat := by
      intro same
      exact tooLarge (same ▸ bounded)
    simp [apart]

theorem wordSize?_eq_some_iff {range : IdRange} {size : UInt64} :
    range.wordSize? = some size ↔ size.toNat = range.size := by
  rw [wordSize?, addWords?_eq_some_iff, IdRange.size, UInt32.toNat_toUInt64]
  split
  · rename_i ordered
    rw [UInt32.toNat_sub_of_le _ _ ordered]
    rfl
  · rename_i reversed
    have lower := UInt32.lt_iff_toNat_lt.1 (UInt32.not_le.1 reversed)
    rw [Nat.sub_eq_zero_of_le (Nat.le_of_lt lower)]
    rfl

theorem exists_wordSize? (range : IdRange) : ∃ size, range.wordSize? = some size := by
  have bounded : range.size < UInt64.size := by
    have small := range.last.toNat_lt
    unfold IdRange.size UInt64.size
    omega
  exact ⟨UInt64.ofNat range.size,
    wordSize?_eq_some_iff.2 (UInt64.toNat_ofNat_of_lt' bounded)⟩

/-- A count in 64 bits that goes on from a total is exact, and it succeeds if its result takes
no more than 64 bits: nothing in between is larger. -/
theorem foldlM_addWords?_eq_some_iff {ranges : List IdRange} {total result : UInt64} :
    ranges.foldlM (fun total range => range.wordSize?.bind (addWords? total)) total =
        some result ↔
      result.toNat = total.toNat + available ranges := by
  induction ranges generalizing total with
  | nil =>
      rw [List.foldlM_nil, available_nil, Nat.add_zero, UInt64.toNat_inj]
      exact Option.some_inj.trans eq_comm
  | cons range ranges ih =>
      obtain ⟨size, isSize⟩ := range.exists_wordSize?
      have sizeEq := wordSize?_eq_some_iff.1 isSize
      rw [List.foldlM_cons, isSize, Option.bind_some, Option.bind_eq_bind,
        Option.bind_eq_some_iff, available_cons, ← sizeEq]
      constructor
      · rintro ⟨sum, isSum, isResult⟩
        rw [ih.1 isResult, addWords?_eq_some_iff.1 isSum, Nat.add_assoc]
      · intro exactResult
        have bounded : total.toNat + size.toNat < UInt64.size := by
          have resultBounded := result.toNat_lt
          unfold UInt64.size
          omega
        have sumEq := UInt64.toNat_ofNat_of_lt' bounded
        refine ⟨UInt64.ofNat (total.toNat + size.toNat), addWords?_eq_some_iff.2 sumEq,
          ih.2 ?_⟩
        rw [exactResult, sumEq, Nat.add_assoc]

/-- Each range counts for at most all 2³² ids. -/
theorem available_le (ranges : List IdRange) :
    available ranges ≤ ranges.length * UInt32.size := by
  induction ranges with
  | nil => simp
  | cons range ranges ih =>
      have small := range.last.toNat_lt
      have one : range.size ≤ UInt32.size := by
        unfold IdRange.size UInt32.size
        omega
      rw [available_cons, List.length_cons, Nat.add_mul]
      omega

/-- Fewer than 2³¹ ranges can be counted in 64 bits.  They count for at least as many ids as lie
in some of them, and for just as many if and only if none of them is reversed and no two have
an id in common. -/
theorem available_bounds_usable (ranges : List IdRange) (few : ranges.length < 2 ^ 31) :
    (∃ total, availableWord? ranges = some total ∧ total.toNat = available ranges) ∧
      (usable ranges).ncard ≤ available ranges ∧
      (available ranges = (usable ranges).ncard ↔
        (∀ range ∈ ranges, range.first ≤ range.last) ∧
          ranges.Pairwise fun first second => first.ids ∩ second.ids = ∅) := by
  have counted := available_eq ranges
  refine ⟨?_, by omega, ?_⟩
  · have bounded : available ranges < UInt64.size := by
      have atMost := available_le ranges
      unfold UInt32.size at atMost
      unfold UInt64.size
      omega
    have exact := UInt64.toNat_ofNat_of_lt' bounded
    refine ⟨UInt64.ofNat (available ranges), foldlM_addWords?_eq_some_iff.2 ?_, exact⟩
    rw [exact]
    exact (Nat.zero_add _).symm
  · rw [← surplus_eq_zero_iff]
    omega

/-- All ids at once, and a reversed range, which counts for one id more than there are. -/
theorem available_bounds_usable_beside_reversed_range :
    let ranges : List IdRange := [⟨0, 4294967295, none⟩, ⟨9, 3, none⟩]
    ranges.length < 2 ^ 31 ∧ available ranges = 4294967297 ∧
      (∃ total, availableWord? ranges = some total ∧ total.toNat = 4294967297) ∧
      (usable ranges).ncard < 4294967297 := by
  intro ranges
  have few : ranges.length < 2 ^ 31 := by decide
  have counted : available ranges = 4294967297 := rfl
  obtain ⟨isCounted, atMost, tight⟩ := available_bounds_usable ranges few
  rw [counted] at isCounted atMost tight
  refine ⟨few, counted, isCounted, Nat.lt_of_le_of_ne atMost fun same => ?_⟩
  have ordered := (tight.1 same.symm).1 ⟨9, 3, none⟩ (by simp [ranges])
  exact absurd ordered (by decide)

end IdRange

end ObjectIds
