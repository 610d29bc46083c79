/-!
# Letter case

Keywords, object kinds, directive names and file extensions are compared without
regard to the case of the 26 basic Latin letters.  No other character has a case
here, so two spellings of a keyword have the same length and the same non-letters.
-/

namespace ObjectIds

namespace Text

/-- A text with each of the letters `A` to `Z` in lower case. -/
def lowercase (text : String) : String :=
  String.ofList (text.toList.map Char.toLower)

/-- Whether two texts differ at most in the case of the letters `A` to `Z`. -/
def equalIgnoringCase (first second : String) : Bool :=
  lowercase first == lowercase second

theorem equalIgnoringCase_comm (first second : String) :
    equalIgnoringCase first second = equalIgnoringCase second first :=
  Bool.beq_comm

/-- Only the letters `A` to `Z` have another lower case. -/
theorem toLower_eq_self {character : Char} (notCapital : character.isUpper = false) :
    character.toLower = character :=
  dif_neg (of_decide_eq_false notCapital)

/-- The lower case of a letter `A` to `Z` is one of the letters `a` to `z`. -/
theorem isLower_toLower {character : Char} (capital : character.isUpper = true) :
    character.toLower.isLower = true ∧ character.toLower.isUpper = false := by
  have small : character.toNat < 128 :=
    Nat.lt_of_le_of_lt (UInt32.le_iff_toNat_le.1 (of_decide_eq_true capital).2) (by decide)
  have letters : ∀ code < 128, (Char.ofNat code).isUpper = true →
      (Char.ofNat code).toLower.isLower = true ∧
        (Char.ofNat code).toLower.isUpper = false := by decide
  have isLetter := letters character.toNat small
  rw [Char.ofNat_toNat] at isLetter
  exact isLetter capital

theorem isUpper_toLower (character : Char) : character.toLower.isUpper = false := by
  cases capital : character.isUpper with
  | true => exact (isLower_toLower capital).2
  | false => rw [toLower_eq_self capital, capital]

theorem toLower_toLower (character : Char) : character.toLower.toLower = character.toLower :=
  toLower_eq_self (isUpper_toLower character)

@[simp]
theorem lowercase_lowercase (text : String) : lowercase (lowercase text) = lowercase text := by
  simp only [lowercase, String.toList_ofList, List.map_map, Function.comp_def, toLower_toLower]

end Text

end ObjectIds
