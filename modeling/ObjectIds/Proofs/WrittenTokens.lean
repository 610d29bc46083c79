import ObjectIds.Proofs.PieceTiling
import ObjectIds.Declaration.Header

/-!
# Writing tokens

A text can be put together from tokens with spaces in front of them.  As long as each
token fits before what is written after it, cutting the text gives these tokens back.
Keywords in any letter case, ids in decimal notation, names in double quotes and marks
fit before almost everything, and they mean what they were written for.
-/

namespace ObjectIds

/-- A token to be written: the number of spaces in front of it, and the token itself. -/
structure WrittenToken where
  spaces : Nat
  kind : Token.Kind
  text : List Char

namespace WrittenToken

def gap (written : WrittenToken) : List Char := List.replicate written.spaces ' '

/-- The characters of a token and the spaces in front of it. -/
def print (written : WrittenToken) : List Char := written.gap ++ written.text

def printAll (written : List WrittenToken) : List Char := written.flatMap print

/-- The piece that a token becomes when it is written at a place. -/
def piece (place : Place) (written : WrittenToken) : Piece :=
  ⟨.token written.kind true, written.text, place.advance written.gap⟩

/-- The token that is read back when it is written at a place. -/
def token (place : Place) (written : WrittenToken) : Token :=
  ⟨written.kind, String.ofList written.text, (written.piece place).start.position,
    (written.piece place).span⟩

def pieces (place : Place) : List WrittenToken → List Piece
  | [] => []
  | first :: others => first.piece place :: pieces (place.advance first.print) others

def tokens (place : Place) : List WrittenToken → List Token
  | [] => []
  | first :: others => first.token place :: tokens (place.advance first.print) others

/-- Whether each token fits before the one after it, and the last one before `next`. -/
def Fit (next : Option Char) : List WrittenToken → Prop
  | [] => True
  | first :: others =>
      Piece.Fits (.token first.kind true) first.text ((printAll others).head?.or next) ∧
        Fit next others

@[simp]
theorem printAll_nil : printAll [] = [] := rfl

@[simp]
theorem printAll_cons (first : WrittenToken) (others : List WrittenToken) :
    printAll (first :: others) = first.print ++ printAll others := rfl

@[simp]
theorem printAll_append (first second : List WrittenToken) :
    printAll (first ++ second) = printAll first ++ printAll second :=
  List.flatMap_append

@[simp]
theorem tokens_nil (place : Place) : tokens place [] = [] := rfl

@[simp]
theorem tokens_cons (place : Place) (first : WrittenToken) (others : List WrittenToken) :
    tokens place (first :: others) =
      first.token place :: tokens (place.advance first.print) others := rfl

@[simp]
theorem tokens_append (place : Place) (first second : List WrittenToken) :
    tokens place (first ++ second) =
      tokens place first ++ tokens (place.advance (printAll first)) second := by
  induction first generalizing place with
  | nil => rfl
  | cons written others ih => simp [ih]

theorem filterMap_token?_pieces (place : Place) (written : List WrittenToken) :
    (pieces place written).filterMap Piece.token? = tokens place written := by
  induction written generalizing place with
  | nil => rfl
  | cons first others ih =>
      have isToken : (first.piece place).token? = some (first.token place) := rfl
      rw [pieces, List.filterMap_cons, isToken, ih]
      rfl

theorem quiet_pieces (place : Place) (written : List WrittenToken) :
    ∀ piece ∈ pieces place written, piece.directive? = none ∧ piece.fault? = none := by
  induction written generalizing place with
  | nil => simp [pieces]
  | cons first others ih =>
      rw [pieces, List.forall_mem_cons]
      exact ⟨⟨rfl, rfl⟩, ih _⟩

theorem fit_append (next : Option Char) (first second : List WrittenToken) :
    Fit next (first ++ second) ↔
      Fit ((printAll second).head?.or next) first ∧ Fit next second := by
  induction first with
  | nil => simp [Fit]
  | cons written others ih =>
      simp only [List.cons_append, Fit, printAll_append, List.head?_append,
        Option.or_assoc, ih, and_assoc]

/-- Cutting written tokens gives their pieces. -/
theorem lexemesFrom_printAll {written : List WrittenToken} {rest : List Char}
    (place : Place) (fit : Fit rest.head? written) :
    Piece.lexemesFrom place (printAll written ++ rest) =
      pieces place written ++
        Piece.lexemesFrom (place.advance (printAll written)) rest := by
  induction written generalizing place with
  | nil => rfl
  | cons first others ih =>
      obtain ⟨fits, othersFit⟩ := fit
      have blank : ∀ character ∈ first.gap, Text.isSpacing character = true := by
        intro character member
        rw [List.eq_of_mem_replicate member]
        decide
      rw [← List.head?_append] at fits
      simp only [printAll_cons, print, pieces, piece, List.append_assoc, List.cons_append,
        Place.advance_append]
      rw [Piece.lexemesFrom_spacing _ place blank, Piece.lexemesFrom_token _ fits,
        ih _ othersFit]

def keyword (spaces : Nat) (word : String) : WrittenToken := ⟨spaces, .word, word.toList⟩

def number (spaces : Nat) (id : UInt32) : WrittenToken :=
  ⟨spaces, .number, (Text.decimalText id).toList⟩

def name (spaces : Nat) (name : String) : WrittenToken :=
  ⟨spaces, .quotedIdentifier, '"' :: (Text.quote '"' name.toList ++ ['"'])⟩

def mark (spaces : Nat) (mark : Char) : WrittenToken := ⟨spaces, .symbol, [mark]⟩

/-- A letter is part of words only. -/
theorem inWord_of_isLower_toLower {character : Char}
    (isLetter : character.toLower.isLower = true) :
    Piece.endsWord character = false ∧ character.isDigit = false := by
  have small : character.toNat < 128 := by
    by_cases isUpper : character.val ≥ 'A'.val ∧ character.val ≤ 'Z'.val
    · exact Nat.lt_of_le_of_lt (UInt32.le_iff_toNat_le.1 isUpper.2) (by decide)
    · have unchanged : character.toLower = character := dif_neg isUpper
      rw [unchanged] at isLetter
      have atMost : character.val ≤ 'z'.val :=
        of_decide_eq_true (Bool.and_eq_true_iff.1 isLetter).2
      exact Nat.lt_of_le_of_lt (UInt32.le_iff_toNat_le.1 atMost) (by decide)
  have letters : ∀ code < 128, (Char.ofNat code).toLower.isLower = true →
      Piece.endsWord (Char.ofNat code) = false ∧ (Char.ofNat code).isDigit = false := by
    decide
  have asCode : Char.ofNat character.toNat = character := Char.ofNat_toNat character
  have isLetter : (Char.ofNat character.toNat).toLower.isLower = true := by rwa [asCode]
  simpa only [asCode] using letters character.toNat small isLetter

/-- Whether a text is a word that has no other spelling than its letters in either case. -/
def IsLetters (word : String) : Prop :=
  word ≠ "" ∧ word.toList.all (·.toLower.isLower) = true

/-- A keyword in any letter case is a word. -/
theorem fits_keyword {plain word : String} {next : Option Char} (isLetters : IsLetters plain)
    (isKeyword : Text.equalIgnoringCase plain word = true)
    (stops : Piece.Stops (!Piece.endsWord ·) next) :
    Piece.Fits (.token .word true) word.toList next := by
  obtain ⟨notEmpty, letters⟩ := isLetters
  have sameLetters : plain.toList.map Char.toLower = word.toList.map Char.toLower :=
    String.ofList_injective (eq_of_beq isKeyword)
  have inWord : ∀ character ∈ word.toList,
      Piece.endsWord character = false ∧ character.isDigit = false := by
    intro character member
    apply inWord_of_isLower_toLower
    have isThere := List.mem_map_of_mem (f := Char.toLower) member
    rw [← sameLetters] at isThere
    obtain ⟨letter, isPlain, same⟩ := List.mem_map.1 isThere
    rw [← same]
    exact List.all_eq_true.1 letters letter isPlain
  cases isWord : word.toList with
  | nil =>
      rw [isWord, List.map_nil, List.map_eq_nil_iff, String.toList_eq_nil_iff] at sameLetters
      exact absurd sameLetters notEmpty
  | cons first others =>
      rw [isWord] at inWord
      exact .word (inWord first List.mem_cons_self).2
        (fun character member => (inWord character member).1) stops

theorem fits_number (id : UInt32) {next : Option Char}
    (stops : Piece.Stops Char.isDigit next) (noPoint : next ≠ some '.') :
    Piece.Fits (.token .number true) (Text.decimalText id).toList next := by
  have digits : ∀ character ∈ Nat.toDigits 10 id.toNat, character.isDigit = true :=
    fun _ member => Nat.isDigit_of_mem_toDigits (by decide) (by decide) member
  rw [Text.decimalText, Nat.toList_repr]
  cases isNumber : Nat.toDigits 10 id.toNat with
  | nil => exact absurd isNumber Nat.toDigits_ne_nil
  | cons first others => exact .integer (isNumber ▸ digits) stops noPoint

theorem fits_name (name : String) {next : Option Char} (alone : next ≠ some '"') :
    Piece.Fits (.token .quotedIdentifier true)
      ('"' :: (Text.quote '"' name.toList ++ ['"'])) next :=
  .closedQuote rfl alone

@[simp]
theorem objectId?_number (place : Place) (spaces : Nat) {id : UInt32} (notZero : id ≠ 0) :
    Header.objectId? ((number spaces id).token place) = some id := by
  have digits : ∀ character ∈ Nat.toDigits 10 id.toNat, character.isDigit = true :=
    fun _ member => Nat.isDigit_of_mem_toDigits (by decide) (by decide) member
  have noPoint : ∀ character ∈ Nat.toDigits 10 id.toNat, (character != '.') = true := by
    intro character member
    simpa using Piece.ne_of_isDigit (digits character member)
      (by decide : Char.isDigit '.' = false)
  have isDecimal : Text.decimal? (Nat.toDigits 10 id.toNat) = some id :=
    Text.decimal?_eq_some_iff.2
      ⟨Nat.toDigits_ne_nil, digits, Nat.ofDigitChars_ten_toDigits⟩
  have takeAll : (Nat.toDigits 10 id.toNat).takeWhile (· != '.') = Nat.toDigits 10 id.toNat :=
    List.takeWhile_eq_self_iff.2 noPoint
  simp [Header.objectId?, number, token, Text.decimalText, takeAll, isDecimal, notZero]

@[simp]
theorem isIdentifier_name (place : Place) (spaces : Nat) (text : String) :
    ((name spaces text).token place).isIdentifier = true := rfl

@[simp]
theorem value_name (place : Place) (spaces : Nat) (text : String) :
    ((name spaces text).token place).value = text := by
  have inside : Text.unquote '"' (Text.quote '"' text.toList ++ ['"']) = text.toList :=
    (Text.unquote_quote text.toList).1
  simp [Token.value, name, token, Token.Kind.delimiter?, Token.unquoted, inside]

@[simp]
theorem isKeyword_keyword (place : Place) (spaces : Nat) (word plain : String) :
    ((keyword spaces word).token place).isKeyword plain =
      Text.equalIgnoringCase plain word := by
  rw [Text.equalIgnoringCase_comm]
  simp [Token.isKeyword, keyword, token]

end WrittenToken

end ObjectIds
