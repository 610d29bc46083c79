import ObjectIds.Consumption
import ObjectIds.IdRange
import ObjectIds.Number.Binary64

/-!
# Kinds that run out of ids

An app is warned about a kind when so many of the available ids are recorded for it
that the count reaches a threshold: the available ids less 5, or 95 % of them if that
is less, but never less than the available ids less 25.  The threshold is a number of
double precision.
-/

namespace ObjectIds

namespace Consumption

/-- The double nearest to 95 %, in units of 2⁻⁵³. -/
def warningShare : Int := 8556839292003942

-- No other number of 53 significant bits is as near to 95 %.
example : Binary64.one ≤ 2 * warningShare ∧ warningShare < Binary64.one ∧
    2 * (100 * warningShare - 95 * Binary64.one).natAbs < 100 := by
  decide

/-- The threshold, in units of 2⁻⁵³, at which a count of recorded ids calls for a
warning. -/
def warningThreshold (available : Nat) : Int :=
  let count : Int := Binary64.nearestNat available
  let share := Binary64.nearest (count * warningShare)
  let fewLeft := Binary64.nearest ((count - 5) * Binary64.one)
  let manyLeft := Binary64.nearest ((count - 25) * Binary64.one)
  max (min share fewLeft) manyLeft

/-- Whether a count of recorded ids calls for a warning. -/
def isRunningOut (available consumed : Nat) : Bool :=
  decide (warningThreshold available ≤ Binary64.nearestNat consumed * Binary64.one)

/-- A warning that few ids are left for a kind. -/
structure Warning where
  kind : String
  consumed : Nat
  remaining : Nat
deriving DecidableEq, Repr

/-- The number of recorded ids that lie in some range. -/
def countIn (ranges : List IdRange) (ids : List UInt32) : Nat :=
  ids.countP (IdRange.anyContains ranges)

/-- The warning about a record, if it calls for one. -/
def warning? (ranges : List IdRange) (entry : String × List UInt32) : Option Warning :=
  let available := IdRange.available ranges
  let consumed := countIn ranges entry.2
  if isRunningOut available consumed then
    some ⟨entry.1, consumed, available - consumed⟩
  else none

/-- The warnings about the recorded kinds, in the order of their keys.  Without ranges
there are none. -/
def warnings (ranges : List IdRange) (consumption : Consumption) : List Warning :=
  if ranges.isEmpty then [] else consumption.entries.filterMap (warning? ranges)

end Consumption

end ObjectIds
