/-!
# Numbers of double precision

Some rules are stated with binary numbers of 53 significant bits, where each operation
gives the number of that form that is nearest to its exact result.  All numbers that
these rules meet are whole multiples of 2⁻⁵³, so they are held as integers, and `one`
is the integer that stands for one.  Sums and differences are computed exactly and
then rounded by `nearest`.  Rounding does not depend on the unit: it looks only at the
binary digits.
-/

namespace ObjectIds

namespace Binary64

/-- The number of significant bits. -/
def precision : Nat := 53

/-- The integer that stands for one, 2⁵³. -/
def one : Int := 9007199254740992

/-- The distance between the numbers of 53 significant bits around a number. -/
def spacing (magnitude : Nat) : Nat :=
  1 <<< (magnitude.log2 + 1 - precision)

/-- The number of 53 significant bits that is nearest to a natural number.  Of two
equally near ones it is the one whose last bit is zero. -/
def nearestNat (magnitude : Nat) : Nat :=
  let quotient := magnitude / spacing magnitude
  let excess := 2 * (magnitude % spacing magnitude)
  if excess < spacing magnitude ∨ excess = spacing magnitude ∧ quotient % 2 = 0 then
    quotient * spacing magnitude
  else (quotient + 1) * spacing magnitude

/-- The number of 53 significant bits that is nearest to an integer. -/
def nearest (value : Int) : Int :=
  if value < 0 then -(nearestNat value.natAbs : Int) else nearestNat value.natAbs

/-- The 64 bits that encode a number of 53 significant bits: its sign, the position of
its first bit, and the 52 bits after that. -/
def toBits (value : Int) : UInt64 :=
  if value = 0 then 0
  else
    let first := value.natAbs.log2
    let significand :=
      if first ≤ 52 then value.natAbs <<< (52 - first)
      else value.natAbs >>> (first - 52)
    let sign := if value < 0 then 1 <<< 63 else 0
    UInt64.ofNat (sign + (first + 970) <<< 52 + (significand - 1 <<< 52))

example : toBits one = 0x3FF0000000000000 := by decide +kernel

/-- Numbers below 2⁵³ need no rounding. -/
theorem nearestNat_of_lt {magnitude : Nat} (small : magnitude < 1 <<< precision) :
    nearestNat magnitude = magnitude := by
  have bits : magnitude.log2 + 1 - precision = 0 := by
    by_cases isZero : magnitude = 0
    · rw [isZero]; decide
    · rw [Nat.one_shiftLeft] at small
      have fewBits := (Nat.log2_lt isZero).2 small
      omega
  simp [nearestNat, spacing, bits, Nat.mod_one]

end Binary64

end ObjectIds
