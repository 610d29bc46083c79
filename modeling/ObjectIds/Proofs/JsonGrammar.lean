import ObjectIds.Json.Token
import Mathlib.Data.List.Forall2
import Mathlib.Tactic.SplitIfs

/-!
# The grammar of JSON texts

What may be written as a JSON value is stated here without regard to how texts are read:
spacing may stand around every value, key, comma and colon, a character of a string may be
spelled in several ways, and values may be nested to any depth.  The strings, words and
numbers of such a text are tokens, of which only a number depends on what comes after it.
-/

namespace ObjectIds

namespace Json

/-! ## Spacing and sequences -/

/-- Characters that only set other characters apart. -/
def Gap (text : List Char) : Prop :=
  ∀ character ∈ text, character ∈ [' ', '\t', '\n', '\r']

theorem gap_nil : Gap [] := List.forall_mem_nil _

theorem gap_singleton {character : Char} (isSpace : character ∈ [' ', '\t', '\n', '\r']) :
    Gap [character] := List.forall_mem_singleton.2 isSpace

/-- Some text with gaps around it. -/
def Padded (text padded : List Char) : Prop :=
  ∃ before after, Gap before ∧ Gap after ∧ padded = before ++ text ++ after

/-- Texts with gaps around them and a comma before each. -/
inductive Continued : List (List Char) → List Char → Prop
  | nil : Continued [] []
  | cons {item padded rest : List Char} {items : List (List Char)}
      (isPadded : Padded item padded) (later : Continued items rest) :
      Continued (item :: items) (',' :: (padded ++ rest))

/-- Texts with gaps around them, commas between them and brackets around them all. -/
inductive Enclosed (opening closing : Char) : List (List Char) → List Char → Prop
  | empty {gap : List Char} (isGap : Gap gap) :
      Enclosed opening closing [] (opening :: (gap ++ [closing]))
  | cons {item padded rest : List Char} {items : List (List Char)}
      (isPadded : Padded item padded) (later : Continued items rest) :
      Enclosed opening closing (item :: items) (opening :: (padded ++ (rest ++ [closing])))

/-! ## Strings -/

/-- A hexadecimal digit, in lower or upper case, and the number it denotes. -/
def HexDigit (digit : Char) (value : Nat) : Prop :=
  value < 16 ∧ (digit = value.digitChar ∨ digit = value.digitChar.toUpper)

/-- Four hexadecimal digits and the number they denote. -/
inductive HexUnit : List Char → Nat → Prop
  | digits {first second third fourth : Char} {high middle low last : Nat}
      (isHigh : HexDigit first high) (isMiddle : HexDigit second middle)
      (isLow : HexDigit third low) (isLast : HexDigit fourth last) :
      HexUnit [first, second, third, fourth]
        (high * 4096 + middle * 256 + low * 16 + last)

/-- The characters that may follow a backslash, and what they stand for. -/
def escapes : List (Char × Char) :=
  [('"', '"'), ('\\', '\\'), ('/', '/'), ('b', '\x08'), ('f', '\x0c'), ('n', '\n'),
    ('r', '\r'), ('t', '\t')]

/-- What may be written in a string for a character. -/
inductive Spelling : List Char → Char → Prop
  | plain {character : Char} (notQuote : character ≠ '"') (notBackslash : character ≠ '\\')
      (notControl : 0x20 ≤ character.toNat) : Spelling [character] character
  | escape {mark character : Char} (isEscape : (mark, character) ∈ escapes) :
      Spelling ['\\', mark] character
  | unit {digits : List Char} {unit : Nat} (isUnit : HexUnit digits unit)
      (notSurrogate : unit < 0xD800 ∨ 0xE000 ≤ unit) :
      Spelling ('\\' :: 'u' :: digits) (Char.ofNat unit)
  | pair {first second : List Char} {high low : Nat}
      (isHigh : HexUnit first (0xD800 + high)) (highSmall : high < 0x400)
      (isLow : HexUnit second (0xDC00 + low)) (lowSmall : low < 0x400) :
      Spelling ('\\' :: 'u' :: (first ++ '\\' :: 'u' :: second))
        (Char.ofNat (0x10000 + high * 0x400 + low))

/-- A string that is a given text. -/
def Literal (text : String) (written : List Char) : Prop :=
  ∃ spellings, List.Forall₂ Spelling spellings text.toList ∧
    written = '"' :: spellings.flatten ++ ['"']

/-- A text without quotes, backslashes and control characters is written as it is. -/
theorem literal_of_plain (text : String)
    (plain : ∀ character ∈ text.toList,
      character ≠ '"' ∧ character ≠ '\\' ∧ 0x20 ≤ character.toNat) :
    Literal text ('"' :: text.toList ++ ['"']) := by
  refine ⟨text.toList.map fun character => [character], ?_, ?_⟩
  · rw [List.forall₂_map_left_iff, List.forall₂_same]
    intro character isThere
    obtain ⟨notQuote, notBackslash, notControl⟩ := plain character isThere
    exact .plain notQuote notBackslash notControl
  · rw [← List.flatMap_def, List.flatMap_singleton']

/-- What may be written in a string, which need not be a text: halves of surrogate pairs may
stand alone. -/
inductive StringPiece : List Char → Prop
  | spelling {text : List Char} {character : Char} (isSpelling : Spelling text character) :
      StringPiece text
  | unit {digits : List Char} {unit : Nat} (isUnit : HexUnit digits unit) :
      StringPiece ('\\' :: 'u' :: digits)

/-- A string. -/
def StringText (text : List Char) : Prop :=
  ∃ pieces : List (List Char), (∀ piece ∈ pieces, StringPiece piece) ∧
    text = '"' :: pieces.flatten ++ ['"']

/-! ## Numbers -/

/-- Some digits, at least one. -/
def Digits (text : List Char) : Prop :=
  text ≠ [] ∧ ∀ character ∈ text, character.isDigit = true

/-- One of some signs, or nothing. -/
def Sign (signs text : List Char) : Prop := text = [] ∨ ∃ sign ∈ signs, text = [sign]

/-- A point and digits, or nothing. -/
def Fraction (text : List Char) : Prop :=
  text = [] ∨ ∃ digits, Digits digits ∧ text = '.' :: digits

/-- An exponent, or nothing. -/
def Exponent (text : List Char) : Prop :=
  text = [] ∨ ∃ mark sign digits, (mark = 'e' ∨ mark = 'E') ∧ Sign ['+', '-'] sign ∧
    Digits digits ∧ text = mark :: (sign ++ digits)

/-- A number.  Its integer part has no leading zeros. -/
def NumberText (text : List Char) : Prop :=
  ∃ sign integer fraction exponent, Sign ['-'] sign ∧ Digits integer ∧
    (integer.head? = some '0' → integer = ['0']) ∧ Fraction fraction ∧ Exponent exponent ∧
      text = sign ++ (integer ++ (fraction ++ exponent))

/-! ## Values -/

/-- A key and a value, with a colon between them. -/
def MemberText (key value text : List Char) : Prop :=
  ∃ before after, Gap before ∧ Gap after ∧ text = key ++ (before ++ ':' :: (after ++ value))

/-- A value. -/
inductive ValueText : List Char → Prop
  | null : ValueText ['n', 'u', 'l', 'l']
  | true : ValueText ['t', 'r', 'u', 'e']
  | false : ValueText ['f', 'a', 'l', 's', 'e']
  | number {text : List Char} (isNumber : NumberText text) : ValueText text
  | string {text : List Char} (isString : StringText text) : ValueText text
  | array {items : List (List Char)} {text : List Char}
      (each : ∀ item ∈ items, ValueText item) (enclosed : Enclosed '[' ']' items text) :
      ValueText text
  | object {members : List (List Char × List Char)} {texts : List (List Char)}
      {text : List Char} (keys : ∀ member ∈ members, StringText member.1)
      (values : ∀ member ∈ members, ValueText member.2)
      (written : List.Forall₂ (fun member text => MemberText member.1 member.2 text)
        members texts)
      (enclosed : Enclosed '{' '}' texts text) : ValueText text

/-! ## Reading tokens -/

namespace Token

/-- Whether a number ends before some characters. -/
def EndsNumber (rest : List Char) : Prop :=
  ∀ character ∈ rest.head?, character.isDigit = false ∧ character ≠ '.' ∧
    character ≠ 'e' ∧ character ≠ 'E'

/-- Whether a run of digits ends before some characters. -/
def EndsDigits (rest : List Char) : Prop :=
  ∀ character ∈ rest.head?, character.isDigit = false

theorem EndsNumber.endsDigits {rest : List Char} (ends : EndsNumber rest) : EndsDigits rest :=
  fun character first => (ends character first).1

/-- Some characters are read as some tokens, with or without more of them around. -/
def Spells (text : List Char) (tokens : List Token) : Prop :=
  ∀ found rest, EndsNumber rest →
    listAfter found (text ++ rest) = listAfter (tokens.reverse ++ found) rest

theorem endsNumber_nil : EndsNumber [] := by simp [EndsNumber]

theorem endsNumber_cons {character : Char} {rest : List Char}
    (apart : character.isDigit = false ∧ character ≠ '.' ∧ character ≠ 'e' ∧ character ≠ 'E') :
    EndsNumber (character :: rest) := by
  simpa [EndsNumber] using apart

theorem listAfter_token {found : List Token} {character : Char} {rest later : List Char}
    {token : Token} (notSpace : isSpace character = false)
    (isRead : read character rest = some (token, later)) :
    listAfter found (character :: rest) = listAfter (token :: found) later := by
  rw [listAfter.eq_def]
  simp only [notSpace, Bool.false_eq_true, if_false]
  split
  · simp_all
  · rename_i other after isOther
    obtain ⟨rfl, rfl⟩ : other = token ∧ after = later := by simpa [isRead] using isOther.symm
    rfl

theorem Spells.append {first second : List Char} {firstTokens secondTokens : List Token}
    (spellsFirst : Spells first firstTokens) (spellsSecond : Spells second secondTokens)
    (ends : ∀ rest, EndsNumber rest → EndsNumber (second ++ rest)) :
    Spells (first ++ second) (firstTokens ++ secondTokens) := by
  intro found rest isEnd
  rw [List.append_assoc, spellsFirst found _ (ends rest isEnd), spellsSecond _ rest isEnd,
    List.reverse_append, List.append_assoc]

/-- One token before others. -/
theorem Spells.cons {character : Char} {text : List Char} {token : Token}
    {tokens : List Token} (notSpace : isSpace character = false)
    (isMark : ofMark? character = some token) (spells : Spells text tokens) :
    Spells (character :: text) (token :: tokens) := by
  intro found rest isEnd
  have isRead : read character (text ++ rest) = some (token, text ++ rest) := by
    rw [read, isMark]
  rw [List.cons_append, listAfter_token notSpace isRead, spells _ rest isEnd,
    List.reverse_cons, List.append_assoc, List.singleton_append]

theorem spells_nil : Spells [] [] := fun _ _ _ => rfl

theorem Spells.space {character : Char} {text : List Char} {tokens : List Token}
    (space : isSpace character = true) (spells : Spells text tokens) :
    Spells (character :: text) tokens := by
  intro found rest isEnd
  rw [List.cons_append, listAfter.eq_def]
  simp only [space, if_true]
  exact spells found rest isEnd

end Token

namespace Gap

variable {gap : List Char}

theorem spells (isGap : Gap gap) {text : List Char} {tokens : List Token}
    (spells : Token.Spells text tokens) : Token.Spells (gap ++ text) tokens := by
  induction gap with
  | nil => exact spells
  | cons character gap ih =>
      have each : [' ', '\t', '\n', '\r'].all Token.isSpace = true := rfl
      exact (ih fun other later => isGap other (.tail _ later)).space
        (List.all_eq_true.1 each character (isGap character (.head gap)))

theorem endsNumber (isGap : Gap gap) {rest : List Char} (ends : Token.EndsNumber rest) :
    Token.EndsNumber (gap ++ rest) := by
  cases gap with
  | nil => exact ends
  | cons character gap =>
      have isSpace := isGap character (.head gap)
      simp only [List.mem_cons, List.not_mem_nil, or_false] at isSpace
      obtain rfl | rfl | rfl | rfl := isSpace <;> exact Token.endsNumber_cons (by decide)

end Gap

namespace Token

variable {text : List Char}

theorem Spells.padded {tokens : List Token} {whole : List Char} (spells : Spells text tokens)
    (isPadded : Padded text whole) : Spells whole tokens := by
  obtain ⟨before, after, isBefore, isAfter, rfl⟩ := isPadded
  have spaced : Spells (text ++ (after ++ [])) (tokens ++ []) :=
    spells.append (isAfter.spells spells_nil) fun rest ends => by
      simpa using isAfter.endsNumber ends
  rw [List.append_nil, List.append_nil] at spaced
  rw [List.append_assoc]
  exact isBefore.spells spaced

theorem spells_null : Spells ['n', 'u', 'l', 'l'] [.null] := by
  intro found rest _
  exact listAfter_token (by decide) (by simp [read, ofMark?, readWord])

theorem spells_true : Spells ['t', 'r', 'u', 'e'] [.bool true] := by
  intro found rest _
  exact listAfter_token (by decide) (by simp [read, ofMark?, readWord])

theorem spells_false : Spells ['f', 'a', 'l', 's', 'e'] [.bool false] := by
  intro found rest _
  exact listAfter_token (by decide) (by simp [read, ofMark?, readWord])

/-! ## Reading strings -/

theorem hexDigit?_digitChar {digit : Nat} (small : digit < 16) :
    hexDigit? digit.digitChar = some digit := by
  have all : ∀ digit : Fin 16, hexDigit? digit.val.digitChar = some digit.val := by decide
  exact all ⟨digit, small⟩

theorem hexDigit?_of_hexDigit {digit : Char} {value : Nat} (isDigit : HexDigit digit value) :
    hexDigit? digit = some value := by
  obtain ⟨small, rfl | rfl⟩ := isDigit
  · exact hexDigit?_digitChar small
  · have all : ∀ value : Fin 16,
        hexDigit? value.val.digitChar.toUpper = some value.val := by decide
    exact all ⟨value, small⟩

theorem readString_unit {digits : List Char} {unit : Nat} (isUnit : HexUnit digits unit)
    (found : List Character) (rest : List Char) :
    readString found ('\\' :: 'u' :: (digits ++ rest)) =
      readString (appendUnit unit found) rest := by
  cases isUnit with
  | @digits first second third fourth high middle low last isHigh isMiddle isLow isLast =>
    have isUnit : hexUnit? first second third fourth =
        some (high * 4096 + middle * 256 + low * 16 + last) := by
      simp only [hexUnit?, hexDigit?_of_hexDigit isHigh, hexDigit?_of_hexDigit isMiddle,
        hexDigit?_of_hexDigit isLow, hexDigit?_of_hexDigit isLast, Option.bind_eq_bind,
        Option.bind_some, pure]
      congr 1
      omega
    rw [readString.eq_def]
    simp [isUnit]

/-- Only the second half of a pair is joined to what comes before it. -/
theorem appendUnit_of_not_low {unit : Nat} (notLow : isLowSurrogate unit = false)
    (found : List Character) : appendUnit unit found = characterOf unit :: found := by
  unfold appendUnit
  split
  · rw [notLow, Bool.and_false, if_neg Bool.false_ne_true]
  · rfl

theorem appendUnit_of_not_surrogate {unit : Nat} (apart : unit < 0xD800 ∨ 0xE000 ≤ unit)
    (found : List Character) : appendUnit unit found = .scalar (Char.ofNat unit) :: found := by
  have notHigh : isHighSurrogate unit = false := by
    simp only [isHighSurrogate, Bool.and_eq_false_iff, decide_eq_false_iff_not]
    omega
  have notLow : isLowSurrogate unit = false := by
    simp only [isLowSurrogate, Bool.and_eq_false_iff, decide_eq_false_iff_not]
    omega
  have alone : characterOf unit = .scalar (Char.ofNat unit) := by
    simp [characterOf, notHigh, notLow]
  rw [appendUnit_of_not_low notLow, alone]

/-- The halves of a surrogate pair are joined, whatever comes before them. -/
theorem appendUnit_pair {high low : Nat} (highSmall : high < 0x400) (lowSmall : low < 0x400)
    (found : List Character) :
    appendUnit (0xDC00 + low) (appendUnit (0xD800 + high) found) =
      .scalar (Char.ofNat (0x10000 + high * 0x400 + low)) :: found := by
  have isHigh : isHighSurrogate (0xD800 + high) = true := by
    simp only [isHighSurrogate, Bool.and_eq_true, decide_eq_true_eq]
    omega
  have notLow : isLowSurrogate (0xD800 + high) = false := by
    simp only [isLowSurrogate, Bool.and_eq_false_iff, decide_eq_false_iff_not]
    omega
  have isLow : isLowSurrogate (0xDC00 + low) = true := by
    simp only [isLowSurrogate, Bool.and_eq_true, decide_eq_true_eq]
    omega
  have asNat : (UInt16.ofNat (0xD800 + high)).toNat = 0xD800 + high :=
    UInt16.toNat_ofNat_of_lt' (show 0xD800 + high < 0x10000 by omega)
  have alone : characterOf (0xD800 + high) = .surrogate (UInt16.ofNat (0xD800 + high)) := by
    simp [characterOf, isHigh]
  -- Another first half may stand before this one, which is not joined to it.
  rw [appendUnit_of_not_low notLow, alone, appendUnit, asNat, isHigh, isLow, Bool.and_self,
    if_pos rfl, Nat.add_sub_cancel_left, Nat.add_sub_cancel_left]

theorem readString_escaped {mark plain : Char} (apart : mark ≠ 'u')
    (isEscape : escaped? mark = some plain) (found : List Character) (rest : List Char) :
    readString found ('\\' :: mark :: rest) = readString (.scalar plain :: found) rest := by
  rw [readString.eq_def]
  simp [apart, isEscape]

theorem readString_spelling {character : Char} (isSpelling : Spelling text character)
    (found : List Character) (rest : List Char) :
    readString found (text ++ rest) = readString (.scalar character :: found) rest := by
  cases isSpelling with
  | plain notQuote notBackslash notControl =>
      rw [List.singleton_append, readString.eq_def]
      simp [notQuote, notBackslash, Nat.not_lt.2 notControl]
  | @escape mark _ isEscape =>
      -- The letter u is none of the escapes, so that the reader does not look for digits.
      have each : ∀ escape ∈ escapes,
          escape.1 ≠ 'u' ∧ escaped? escape.1 = some escape.2 := by decide
      obtain ⟨apart, isEscaped⟩ := each _ isEscape
      exact readString_escaped apart isEscaped found rest
  | unit isUnit notSurrogate =>
      rw [List.cons_append, List.cons_append, readString_unit isUnit,
        appendUnit_of_not_surrogate notSurrogate]
  | pair isHigh highSmall isLow lowSmall =>
      rw [List.cons_append, List.cons_append, List.append_assoc, readString_unit isHigh,
        List.cons_append, List.cons_append, readString_unit isLow,
        appendUnit_pair highSmall lowSmall]

theorem readString_spellings {spellings : List (List Char)} {scalars : List Char}
    (areSpellings : List.Forall₂ Spelling spellings scalars) (found : List Character)
    (rest : List Char) :
    readString found (spellings.flatten ++ '"' :: rest) =
      some (found.reverse ++ scalars.map Character.scalar, rest) := by
  induction areSpellings generalizing found with
  | nil =>
      rw [List.flatten_nil, List.nil_append, readString.eq_def]
      simp
  | cons isSpelling _ ih =>
      rw [List.flatten_cons, List.append_assoc, readString_spelling isSpelling, ih]
      simp

/-- A string is one token if its quotes enclose what is read up to the second of them. -/
theorem spells_of_readString {body : List Char} {found : List Character}
    (reads : ∀ rest, readString [] (body ++ '"' :: rest) = some (found, rest)) :
    Spells ('"' :: body ++ ['"']) [.string found] := by
  intro earlier rest _
  have isRead : read '"' (body ++ '"' :: rest) = some (.string found, rest) := by
    rw [read, reads]
    rfl
  rw [List.cons_append, List.cons_append, List.append_assoc, List.singleton_append,
    listAfter_token (by decide) isRead]
  rfl

theorem spells_literal {string : String} (isLiteral : Literal string text) :
    Spells text [.string (characters string)] := by
  obtain ⟨spellings, areSpellings, rfl⟩ := isLiteral
  exact spells_of_readString (readString_spellings areSpellings [])

theorem exists_readString_piece (isPiece : StringPiece text) (found : List Character) :
    ∃ later, ∀ rest, readString found (text ++ rest) = readString later rest := by
  cases isPiece with
  | spelling isSpelling => exact ⟨_, readString_spelling isSpelling found⟩
  | unit isUnit => exact ⟨_, readString_unit isUnit found⟩

theorem exists_readString_pieces {pieces : List (List Char)}
    (arePieces : ∀ piece ∈ pieces, StringPiece piece) (found : List Character) :
    ∃ characters, ∀ rest,
      readString found (pieces.flatten ++ '"' :: rest) = some (characters, rest) := by
  induction pieces generalizing found with
  | nil =>
      refine ⟨found.reverse, fun rest => ?_⟩
      rw [List.flatten_nil, List.nil_append, readString.eq_def]
      simp
  | cons piece pieces ih =>
      obtain ⟨later, readsPiece⟩ := exists_readString_piece (arePieces piece (.head pieces)) found
      obtain ⟨characters, readsLater⟩ :=
        ih (fun other member => arePieces other (.tail piece member)) later
      refine ⟨characters, fun rest => ?_⟩
      rw [List.flatten_cons, List.append_assoc, readsPiece, readsLater]

theorem exists_spells_stringText (isString : StringText text) :
    ∃ characters, Spells text [.string characters] := by
  obtain ⟨pieces, arePieces, rfl⟩ := isString
  obtain ⟨characters, reads⟩ := exists_readString_pieces arePieces []
  exact ⟨characters, spells_of_readString reads⟩

/-! ## Reading numbers -/

theorem takeWhile_digits {digits rest : List Char}
    (areDigits : ∀ character ∈ digits, character.isDigit = true) (ends : EndsDigits rest) :
    (digits ++ rest).takeWhile Char.isDigit = digits ∧
      (digits ++ rest).dropWhile Char.isDigit = rest := by
  rw [List.takeWhile_append_of_pos areDigits, List.dropWhile_append_of_pos areDigits]
  cases rest with
  | nil => simp
  | cons character rest =>
      have apart := ends character rfl
      simp [apart]

theorem ne_of_isDigit {character other : Char} (isDigit : character.isDigit = true)
    (notDigit : other.isDigit = false) : character ≠ other := by
  rintro rfl
  simp [isDigit] at notDigit

theorem readFraction_of_ne_point {rest : List Char} (apart : ∀ first ∈ rest.head?, first ≠ '.') :
    readFraction rest = some ([], rest) := by
  unfold readFraction
  split
  · exact absurd rfl (apart '.' rfl)
  · rfl

theorem readExponent_of_endsNumber {rest : List Char} (ends : EndsNumber rest) :
    readExponent rest = some ([], rest) := by
  unfold readExponent
  split
  · rfl
  · rename_i mark later
    have apart := (ends mark rfl).2.2
    simp [apart]

theorem read_digit {first : Char} (isDigit : first.isDigit = true) (rest : List Char) :
    read first rest = (readNumber (first :: rest)).map
      fun (literal, later) => (.number (String.ofList literal), later) := by
  have notMark : ofMark? first = none := by
    unfold ofMark?
    split <;> first | rfl | contradiction
  rw [read, notMark]
  simp only [ne_of_isDigit isDigit (rfl : '"'.isDigit = false),
    ne_of_isDigit isDigit (rfl : 'n'.isDigit = false),
    ne_of_isDigit isDigit (rfl : 't'.isDigit = false),
    ne_of_isDigit isDigit (rfl : 'f'.isDigit = false), if_false]

theorem isSpace_digit {first : Char} (isDigit : first.isDigit = true) : isSpace first = false := by
  simp only [isSpace, Bool.or_eq_false_iff, beq_eq_false_iff_ne]
  exact ⟨⟨⟨ne_of_isDigit isDigit rfl, ne_of_isDigit isDigit rfl⟩,
    ne_of_isDigit isDigit rfl⟩, ne_of_isDigit isDigit rfl⟩

theorem readInteger_of_digits {rest : List Char} (areDigits : Digits text)
    (unpadded : text.head? = some '0' → text = ['0']) (ends : EndsDigits rest) :
    readInteger (text ++ rest) = some (text, rest) := by
  cases text with
  | nil => exact absurd rfl areDigits.1
  | cons first later =>
      rw [List.cons_append, readInteger]
      split_ifs with zero digit
      · obtain ⟨-, rfl⟩ := List.cons.inj (unpadded (congrArg some zero))
        rfl
      · obtain ⟨taken, left⟩ := takeWhile_digits
          (fun character member => areDigits.2 character (.tail first member)) ends
        rw [taken, left]
      · exact absurd (areDigits.2 first (.head later)) digit

theorem readDigits_of_digits {rest : List Char} (areDigits : Digits text)
    (ends : EndsDigits rest) : readDigits (text ++ rest) = some (text, rest) := by
  obtain ⟨taken, left⟩ := takeWhile_digits areDigits.2 ends
  rw [readDigits, taken, left, if_neg]
  simpa using areDigits.1

theorem head_ne_of_digits {rest : List Char} (areDigits : Digits text) {other : Char}
    (notDigit : other.isDigit = false) : ∀ first ∈ (text ++ rest).head?, first ≠ other := by
  cases text with
  | nil => exact absurd rfl areDigits.1
  | cons first later =>
      rintro _ ⟨⟩
      exact ne_of_isDigit (areDigits.2 first (.head later)) notDigit

theorem readSign_sign {signs sign : List Char} (isSign : Sign signs sign)
    (apart : ∀ first ∈ text.head?, first ∉ signs) :
    readSign signs (sign ++ text) = (sign, text) := by
  obtain rfl | ⟨character, isSign, rfl⟩ := isSign
  · cases text with
    | nil => rfl
    | cons first rest => simp [readSign, apart first rfl]
  · simp [readSign, isSign]

theorem readFraction_fraction {fraction rest : List Char} (isFraction : Fraction fraction)
    (ends : EndsDigits rest) (apart : ∀ first ∈ rest.head?, first ≠ '.') :
    readFraction (fraction ++ rest) = some (fraction, rest) := by
  obtain rfl | ⟨digits, areDigits, rfl⟩ := isFraction
  · exact readFraction_of_ne_point apart
  · rw [List.cons_append, readFraction, readDigits_of_digits areDigits ends]
    rfl

theorem readExponent_exponent {exponent rest : List Char} (isExponent : Exponent exponent)
    (ends : EndsNumber rest) : readExponent (exponent ++ rest) = some (exponent, rest) := by
  obtain rfl | ⟨mark, sign, digits, isMark, isSign, areDigits, rfl⟩ := isExponent
  · exact readExponent_of_endsNumber ends
  · have signed : readSign ['+', '-'] (sign ++ (digits ++ rest)) = (sign, digits ++ rest) := by
      refine readSign_sign isSign fun first isFirst => ?_
      simp [head_ne_of_digits areDigits (rfl : '+'.isDigit = false) first isFirst,
        head_ne_of_digits areDigits (rfl : '-'.isDigit = false) first isFirst]
    rw [List.cons_append, List.append_assoc, readExponent, if_pos isMark, signed]
    simp [readDigits_of_digits areDigits ends.endsDigits]

/-- What follows an integer or a fraction is not taken for more of it. -/
theorem exponent_apart {exponent rest : List Char} (isExponent : Exponent exponent)
    (ends : EndsNumber rest) : EndsDigits (exponent ++ rest) ∧
      ∀ first ∈ (exponent ++ rest).head?, first ≠ '.' := by
  obtain rfl | ⟨mark, sign, digits, rfl | rfl, isSign, areDigits, rfl⟩ := isExponent
  · exact ⟨ends.endsDigits, fun first isFirst => (ends first isFirst).2.1⟩
  · simp [EndsDigits]
  · simp [EndsDigits]

theorem endsDigits_fraction {fraction rest : List Char} (isFraction : Fraction fraction)
    (ends : EndsDigits rest) : EndsDigits (fraction ++ rest) := by
  obtain rfl | ⟨digits, -, rfl⟩ := isFraction
  · exact ends
  · simp [EndsDigits]

theorem readNumber_number (isNumber : NumberText text) {rest : List Char}
    (ends : EndsNumber rest) : readNumber (text ++ rest) = some (text, rest) := by
  obtain ⟨sign, integer, fraction, exponent, isSign, isInteger, unpadded, isFraction,
    isExponent, rfl⟩ := isNumber
  have apart := exponent_apart isExponent ends
  have signed : readSign ['-'] (sign ++ (integer ++ (fraction ++ (exponent ++ rest)))) =
      (sign, integer ++ (fraction ++ (exponent ++ rest))) := by
    refine readSign_sign isSign fun first isFirst => ?_
    simpa using head_ne_of_digits isInteger (rfl : '-'.isDigit = false) first isFirst
  simp only [List.append_assoc, readNumber, signed, Option.bind_eq_bind, Option.bind_some,
    readInteger_of_digits isInteger unpadded (endsDigits_fraction isFraction apart.1),
    readFraction_fraction isFraction apart.1 apart.2, readExponent_exponent isExponent ends,
    pure]

theorem exists_number_head (isNumber : NumberText text) :
    ∃ first later, text = first :: later ∧ (first = '-' ∨ first.isDigit = true) := by
  obtain ⟨sign, integer, fraction, exponent, isSign, isInteger, -, -, -, rfl⟩ := isNumber
  obtain rfl | ⟨character, isSign, rfl⟩ := isSign
  · obtain ⟨first, later, rfl⟩ := List.exists_cons_of_ne_nil isInteger.1
    exact ⟨first, _, rfl, .inr (isInteger.2 first (.head later))⟩
  · exact ⟨character, _, rfl, .inl (List.mem_singleton.1 isSign)⟩

theorem spells_numberText (isNumber : NumberText text) :
    Spells text [.number (String.ofList text)] := by
  obtain ⟨first, later, isText, isFirst⟩ := exists_number_head isNumber
  intro found rest ends
  have reads := readNumber_number isNumber ends
  rw [isText, List.cons_append] at reads ⊢
  have notSpace : isSpace first = false := by
    obtain rfl | isDigit := isFirst
    · rfl
    · exact isSpace_digit isDigit
  have isRead : read first (later ++ rest) =
      some (.number (String.ofList (first :: later)), rest) := by
    obtain rfl | isDigit := isFirst
    · simp [read, ofMark?, reads]
    · rw [read_digit isDigit, reads]
      rfl
  exact listAfter_token notSpace isRead

end Token

end Json

end ObjectIds
