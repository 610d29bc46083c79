import ObjectIds.Json

/-!
# JSON tokens

The text of a JSON value is a sequence of tokens with spacing between them.  A text in
which some token is malformed has no tokens at all.  Which sequences of tokens are
values is decided elsewhere.
-/

namespace ObjectIds

namespace Json

/-- A token of a JSON text. -/
inductive Token where
  | openBrace
  | closeBrace
  | openBracket
  | closeBracket
  | comma
  | colon
  | null
  | bool (value : Bool)
  | number (literal : String)
  | string (characters : List Character)
deriving DecidableEq, Repr

namespace Token

/-- Whether a character may stand between two tokens. -/
def isSpace (character : Char) : Bool :=
  character == ' ' || character == '\t' || character == '\n' || character == '\r'

/-! ## Strings -/

/-- The number that a hexadecimal digit denotes. -/
def hexDigit? (digit : Char) : Option Nat :=
  if digit.isDigit then some (digit.toNat - '0'.toNat)
  else if 'a' ≤ digit ∧ digit ≤ 'f' then some (digit.toNat - 'a'.toNat + 10)
  else if 'A' ≤ digit ∧ digit ≤ 'F' then some (digit.toNat - 'A'.toNat + 10)
  else none

/-- The number that four hexadecimal digits denote. -/
def hexUnit? (first second third fourth : Char) : Option Nat := do
  let high ← hexDigit? first
  let middle ← hexDigit? second
  let low ← hexDigit? third
  let last ← hexDigit? fourth
  return ((high * 16 + middle) * 16 + low) * 16 + last

/-- Whether a number is the first half of a surrogate pair. -/
def isHighSurrogate (unit : Nat) : Bool :=
  decide (0xD800 ≤ unit) && decide (unit < 0xDC00)

/-- Whether a number is the second half of a surrogate pair. -/
def isLowSurrogate (unit : Nat) : Bool :=
  decide (0xDC00 ≤ unit) && decide (unit < 0xE000)

/-- The character that a number stands for, by itself. -/
def characterOf (unit : Nat) : Character :=
  if isHighSurrogate unit || isLowSurrogate unit then .surrogate (UInt16.ofNat unit)
  else .scalar (Char.ofNat unit)

/-- Appends a number to the characters of a string, which are given latest first.  A
second half of a surrogate pair joins the first half before it. -/
def appendUnit (unit : Nat) (found : List Character) : List Character :=
  match found with
  | .surrogate high :: earlier =>
      if isHighSurrogate high.toNat && isLowSurrogate unit then
        .scalar (Char.ofNat
          (0x10000 + (high.toNat - 0xD800) * 0x400 + (unit - 0xDC00))) :: earlier
      else characterOf unit :: found
  | _ => characterOf unit :: found

/-- What a character stands for after a backslash. -/
def escaped? (character : Char) : Option Char :=
  match character with
  | '"' => some '"'
  | '\\' => some '\\'
  | '/' => some '/'
  | 'b' => some '\x08'
  | 'f' => some '\x0c'
  | 'n' => some '\n'
  | 'r' => some '\r'
  | 't' => some '\t'
  | _ => none

/-- Reads a string up to its closing quote.  The characters read so far are given
latest first. -/
def readString (found : List Character) : List Char →
    Option (List Character × List Char)
  | [] => none
  | character :: rest =>
      if character = '"' then some (found.reverse, rest)
      else if character = '\\' then
        match rest with
        | [] => none
        | mark :: others =>
            if mark = 'u' then
              match others with
              | first :: second :: third :: fourth :: later =>
                  match hexUnit? first second third fourth with
                  | some unit => readString (appendUnit unit found) later
                  | none => none
              | _ => none
            else
              match escaped? mark with
              | some plain => readString (.scalar plain :: found) others
              | none => none
      else if character.toNat < 0x20 then none
      else readString (.scalar character :: found) rest

/-! ## Numbers -/

/-- A first part of a text, and what comes after it. -/
abbrev Part := Option (List Char × List Char)

/-- Reads the digits before the point of a number.  The first is zero only if it is
the only one. -/
def readInteger : List Char → Part
  | [] => none
  | first :: rest =>
      if first = '0' then some ([first], rest)
      else if first.isDigit then
        some (first :: rest.takeWhile Char.isDigit, rest.dropWhile Char.isDigit)
      else none

/-- Reads at least one digit. -/
def readDigits (text : List Char) : Part :=
  if (text.takeWhile Char.isDigit).isEmpty then none
  else some (text.takeWhile Char.isDigit, text.dropWhile Char.isDigit)

/-- Reads a point and digits, or nothing. -/
def readFraction (text : List Char) : Part :=
  match text with
  | '.' :: rest =>
      (readDigits rest).map fun (digits, later) => ('.' :: digits, later)
  | _ => some ([], text)

/-- Reads a sign, or nothing. -/
def readSign (signs text : List Char) : List Char × List Char :=
  match text with
  | [] => ([], [])
  | first :: rest => if signs.contains first then ([first], rest) else ([], text)

/-- Reads an exponent, or nothing. -/
def readExponent (text : List Char) : Part :=
  match text with
  | [] => some ([], [])
  | mark :: rest =>
      if mark = 'e' ∨ mark = 'E' then
        let sign := readSign ['+', '-'] rest
        (readDigits sign.2).map fun (digits, later) =>
          (mark :: sign.1 ++ digits, later)
      else some ([], text)

/-- Reads a number. -/
def readNumber (text : List Char) : Part := do
  let sign := readSign ['-'] text
  let integer ← readInteger sign.2
  let fraction ← readFraction integer.2
  let exponent ← readExponent fraction.2
  return (sign.1 ++ integer.1 ++ fraction.1 ++ exponent.1, exponent.2)

/-! ## Tokens -/

/-- Reads the rest of a word of the language. -/
def readWord (token : Token) : List Char → List Char → Option (Token × List Char)
  | [], text => some (token, text)
  | _ :: _, [] => none
  | expected :: word, character :: text =>
      if character = expected then readWord token word text else none

/-- The token that a single character is. -/
def ofMark? (character : Char) : Option Token :=
  match character with
  | '{' => some .openBrace
  | '}' => some .closeBrace
  | '[' => some .openBracket
  | ']' => some .closeBracket
  | ',' => some .comma
  | ':' => some .colon
  | _ => none

/-- Reads a token that starts with a character. -/
def read (character : Char) (rest : List Char) : Option (Token × List Char) :=
  match ofMark? character with
  | some token => some (token, rest)
  | none =>
      if character = '"' then
        (readString [] rest).map fun (characters, later) => (.string characters, later)
      else if character = 'n' then readWord .null ['u', 'l', 'l'] rest
      else if character = 't' then readWord (.bool true) ['r', 'u', 'e'] rest
      else if character = 'f' then readWord (.bool false) ['a', 'l', 's', 'e'] rest
      else
        (readNumber (character :: rest)).map fun (literal, later) =>
          (.number (String.ofList literal), later)

theorem length_readString_le {found characters : List Character}
    {text later : List Char} (isString : readString found text = some (characters, later)) :
    later.length ≤ text.length := by
  fun_induction readString found text <;> simp_all <;> omega

theorem length_readWord_le {token result : Token} {word text later : List Char}
    (isWord : readWord token word text = some (result, later)) :
    later.length ≤ text.length := by
  fun_induction readWord token word text with
  | case1 text => simp_all
  | case3 expected word text ih =>
      have shorter := ih isWord
      simp only [List.length_cons]
      omega
  | _ => simp_all

/-! ## What a number takes from a text -/

theorem append_of_readInteger {text digits later : List Char}
    (isInteger : readInteger text = some (digits, later)) : digits ++ later = text := by
  unfold readInteger at isInteger
  split at isInteger
  · simp at isInteger
  · split at isInteger
    · simp only [Option.some.injEq, Prod.mk.injEq] at isInteger
      obtain ⟨rfl, rfl⟩ := isInteger
      rfl
    · split at isInteger
      · simp only [Option.some.injEq, Prod.mk.injEq] at isInteger
        obtain ⟨rfl, rfl⟩ := isInteger
        simp [List.takeWhile_append_dropWhile]
      · simp at isInteger

theorem append_of_readDigits {text digits later : List Char}
    (areDigits : readDigits text = some (digits, later)) : digits ++ later = text := by
  unfold readDigits at areDigits
  split at areDigits
  · simp at areDigits
  · simp only [Option.some.injEq, Prod.mk.injEq] at areDigits
    obtain ⟨rfl, rfl⟩ := areDigits
    exact List.takeWhile_append_dropWhile

theorem append_of_readFraction {text fraction later : List Char}
    (isFraction : readFraction text = some (fraction, later)) :
    fraction ++ later = text := by
  unfold readFraction at isFraction
  split at isFraction
  · simp only [Option.map_eq_some_iff, Prod.mk.injEq] at isFraction
    obtain ⟨⟨digits, after⟩, areDigits, rfl, rfl⟩ := isFraction
    rw [List.cons_append, append_of_readDigits areDigits]
  · simp_all

theorem readSign_append (signs text : List Char) :
    (readSign signs text).1 ++ (readSign signs text).2 = text := by
  unfold readSign
  split
  · rfl
  · split <;> rfl

theorem append_of_readExponent {text exponent later : List Char}
    (isExponent : readExponent text = some (exponent, later)) :
    exponent ++ later = text := by
  unfold readExponent at isExponent
  split at isExponent
  · simp_all
  · rename_i mark rest
    split at isExponent
    · simp only [Option.map_eq_some_iff, Prod.mk.injEq] at isExponent
      obtain ⟨⟨digits, after⟩, areDigits, rfl, rfl⟩ := isExponent
      simp only [List.cons_append, List.append_assoc]
      rw [append_of_readDigits areDigits, readSign_append]
    · simp_all

/-- A number and what comes after it are the whole text. -/
theorem append_of_readNumber {text literal later : List Char}
    (isNumber : readNumber text = some (literal, later)) : literal ++ later = text := by
  simp only [readNumber, Option.bind_eq_bind, Option.bind_eq_some_iff] at isNumber
  obtain ⟨⟨digits, afterDigits⟩, isInteger, ⟨fraction, afterFraction⟩, isFraction,
    ⟨exponent, afterExponent⟩, isExponent, same⟩ := isNumber
  simp only [pure, Option.some.injEq, Prod.mk.injEq] at same
  obtain ⟨rfl, rfl⟩ := same
  rw [List.append_assoc, append_of_readExponent isExponent, List.append_assoc,
    append_of_readFraction isFraction, List.append_assoc,
    append_of_readInteger isInteger, readSign_append]

theorem readInteger_ne_nil {text digits later : List Char}
    (isInteger : readInteger text = some (digits, later)) : digits ≠ [] := by
  unfold readInteger at isInteger
  split at isInteger
  · simp at isInteger
  · split at isInteger
    · simp only [Option.some.injEq, Prod.mk.injEq] at isInteger
      simp [← isInteger.1]
    · split at isInteger
      · simp only [Option.some.injEq, Prod.mk.injEq] at isInteger
        simp [← isInteger.1]
      · simp at isInteger

/-- A number is not empty. -/
theorem readNumber_ne_nil {text literal later : List Char}
    (isNumber : readNumber text = some (literal, later)) : literal ≠ [] := by
  simp only [readNumber, Option.bind_eq_bind, Option.bind_eq_some_iff] at isNumber
  obtain ⟨⟨digits, afterDigits⟩, isInteger, ⟨fraction, afterFraction⟩, isFraction,
    ⟨exponent, afterExponent⟩, isExponent, same⟩ := isNumber
  simp only [pure, Option.some.injEq, Prod.mk.injEq] at same
  have notEmpty := readInteger_ne_nil isInteger
  simp [← same.1, notEmpty]

/-- Reading a token takes at least its first character. -/
theorem length_read_le {character : Char} {rest later : List Char} {token : Token}
    (isToken : read character rest = some (token, later)) :
    later.length ≤ rest.length := by
  unfold read at isToken
  split at isToken
  · simp only [Option.some.injEq, Prod.mk.injEq] at isToken
    exact isToken.2 ▸ Nat.le_refl _
  · split at isToken
    · simp only [Option.map_eq_some_iff, Prod.mk.injEq] at isToken
      obtain ⟨⟨characters, after⟩, isString, -, rfl⟩ := isToken
      exact length_readString_le isString
    · split at isToken
      · exact length_readWord_le isToken
      · split at isToken
        · exact length_readWord_le isToken
        · split at isToken
          · exact length_readWord_le isToken
          · simp only [Option.map_eq_some_iff, Prod.mk.injEq] at isToken
            obtain ⟨⟨literal, after⟩, isNumber, -, rfl⟩ := isToken
            have lengths := congrArg List.length (append_of_readNumber isNumber)
            have positive := List.length_pos_iff.2 (readNumber_ne_nil isNumber)
            simp only [List.length_append, List.length_cons] at lengths
            dsimp only
            omega

/-- The tokens of a text, after the tokens in `found`, which are given latest
first. -/
def listAfter (found : List Token) : List Char → Option (List Token)
  | [] => some found.reverse
  | character :: rest =>
      if isSpace character then listAfter found rest
      else
        match isRead : read character rest with
        | none => none
        | some (token, later) =>
            have := length_read_le isRead
            listAfter (token :: found) later
termination_by text => text.length

/-- The tokens of a text. -/
def list? (text : String) : Option (List Token) := listAfter [] text.toList

end Token

end Json

end ObjectIds
