/-!
# Unsigned decimal numbers

Object ids and the bounds of id ranges are unsigned 32-bit numbers in decimal
notation.  Leading zeros do not matter here; a number that needs more than 32 bits is
not read at all.
-/

namespace ObjectIds

namespace Text

/-- The number that a run of decimal digits denotes. -/
def decimalValue (digits : List Char) : Nat :=
  Nat.ofDigitChars 10 digits 0

/-- Reads a non-empty run of decimal digits that denotes a 32-bit number. -/
def decimal? (digits : List Char) : Option UInt32 :=
  if digits.isEmpty || !digits.all Char.isDigit then none
  else if decimalValue digits < UInt32.size then
    some (UInt32.ofNat (decimalValue digits))
  else none

/-- A 32-bit number in decimal notation. -/
def decimalText (number : UInt32) : String := Nat.repr number.toNat

theorem decimal?_eq_some_iff {digits : List Char} {number : UInt32} :
    decimal? digits = some number ↔
      digits ≠ [] ∧ (∀ character ∈ digits, character.isDigit = true) ∧
        decimalValue digits = number.toNat := by
  constructor
  · intro isDecimal
    unfold decimal? at isDecimal
    split at isDecimal
    · contradiction
    · rename_i isNumeral
      split at isDecimal
      · rename_i bounded
        obtain rfl := Option.some.inj isDecimal
        exact ⟨by simp_all, by simp_all, (UInt32.toNat_ofNat_of_lt' bounded).symm⟩
      · contradiction
  · rintro ⟨notEmpty, allDigits, value⟩
    have isNumeral : ¬(digits.isEmpty || !digits.all Char.isDigit) = true := by
      simpa [notEmpty] using allDigits
    have bounded : decimalValue digits < UInt32.size := value ▸ number.toNat_lt
    rw [decimal?, if_neg isNumeral, if_pos bounded, value, UInt32.ofNat_toNat]

end Text

end ObjectIds
