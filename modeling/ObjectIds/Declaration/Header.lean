import ObjectIds.Declaration
import ObjectIds.Text.Decimal
import ObjectIds.Token

/-!
# Headers of declarations

The parts of a header are read in the order in which its kind lists them, up to the
first part that is not there.  What has been read up to that point is kept, and the
token that does not fit stays unread.  Whatever a header turns out to be, the tokens
after it are a suffix of the tokens before it.
-/

namespace ObjectIds

namespace Header

/-- How reading a part of a header went: whether the part was there, what the
declaration says by now, and the tokens after it. -/
structure Reading where
  found : Bool
  declaration : Declaration
  rest : List Token
deriving DecidableEq, Repr

/-- The object id that a token denotes: the digits of a number before its point, as a
32-bit number that is not zero. -/
def objectId? (token : Token) : Option UInt32 :=
  if token.kind = .number then
    (Text.decimal? (token.text.toList.takeWhile (· != '.'))).filter (· != 0)
  else none

/-- Reads the id of an object. -/
def readId (declaration : Declaration) : List Token → Reading
  | [] => ⟨false, declaration, []⟩
  | token :: rest =>
      match objectId? token with
      | some id =>
          ⟨true, { declaration with id := some id, idSpan := some token.span }, rest⟩
      | none => ⟨false, declaration, token :: rest⟩

/-- Reads the name of an object. -/
def readName (declaration : Declaration) : List Token → Reading
  | [] => ⟨false, declaration, []⟩
  | token :: rest =>
      if token.isIdentifier then
        ⟨true,
          { declaration with name := some token.value, nameSpan := some token.span },
          rest⟩
      else ⟨false, declaration, token :: rest⟩

/-- A list of names: whether it ended after a name, the names, and the tokens after
them. -/
structure Names where
  found : Bool
  names : List String
  rest : List Token
deriving DecidableEq, Repr

/-- Reads names with commas between them. -/
def readNames : List Token → Names
  | [] => ⟨false, [], []⟩
  | [token] =>
      if token.isIdentifier then ⟨true, [token.value], []⟩ else ⟨false, [], [token]⟩
  | token :: comma :: rest =>
      if token.isIdentifier then
        if comma.isSymbol "," then
          let later := readNames rest
          ⟨later.found, token.value :: later.names, later.rest⟩
        else ⟨true, [token.value], comma :: rest⟩
      else ⟨false, [], token :: comma :: rest⟩

/-- Reads the interfaces that an object implements, if it says so. -/
def readInterfaces (declaration : Declaration) : List Token → Reading
  | [] => ⟨true, declaration, []⟩
  | token :: rest =>
      if token.isKeyword "implements" then
        let list := readNames rest
        ⟨list.found, { declaration with interfaces := list.names }, list.rest⟩
      else ⟨true, declaration, token :: rest⟩

/-- Reads the object that an object extends or customizes. -/
def readTarget (keyword : String) (declaration : Declaration) : List Token → Reading
  | [] => ⟨false, declaration, []⟩
  | token :: rest =>
      if token.isKeyword keyword then
        match rest with
        | [] => ⟨false, declaration, []⟩
        | name :: others =>
            if name.isIdentifier then
              ⟨true, { declaration with target := some name.value }, others⟩
            else ⟨false, declaration, name :: others⟩
      else ⟨false, declaration, token :: rest⟩

/-- Skips the tokens up to the brace that closes `depth` more braces than are opened
in between and one more.  There may be no such brace. -/
def skipToClosing (depth : Nat) : List Token → Bool × List Token
  | [] => (false, [])
  | token :: rest =>
      if token.isSymbol "\x7b" then skipToClosing (depth + 1) rest
      else if token.isSymbol "\x7d" then
        match depth with
        | 0 => (true, rest)
        | depth + 1 => skipToClosing depth rest
      else skipToClosing depth rest

/-- Skips the body of an object. -/
def skipBody : List Token → Bool × List Token
  | [] => (false, [])
  | token :: rest =>
      if token.isSymbol "\x7b" then skipToClosing 0 rest else (false, token :: rest)

/-- Reads a part of a header. -/
def readPart (part : HeaderPart) (declaration : Declaration)
    (tokens : List Token) : Reading :=
  match part with
  | .id => readId declaration tokens
  | .name => readName declaration tokens
  | .interfaces => readInterfaces declaration tokens
  | .target keyword => readTarget keyword declaration tokens
  | .body =>
      let (found, rest) := skipBody tokens
      ⟨found, declaration, rest⟩

/-- Reads parts of a header, up to the first that is not there. -/
def readParts (declaration : Declaration) (tokens : List Token) :
    List HeaderPart → Declaration × List Token
  | [] => (declaration, tokens)
  | part :: parts =>
      let reading := readPart part declaration tokens
      if reading.found then readParts reading.declaration reading.rest parts
      else (reading.declaration, reading.rest)

/-- Reads a header of a kind, from after its keyword. -/
def read (kind : ObjectKind) (keyword : Token) (tokens : List Token) :
    Declaration × List Token :=
  readParts (Declaration.started kind keyword.position) tokens kind.parts

theorem readId_suffix (declaration : Declaration) (tokens : List Token) :
    (readId declaration tokens).rest <:+ tokens := by
  unfold readId
  repeat' split
  all_goals simp

theorem readName_suffix (declaration : Declaration) (tokens : List Token) :
    (readName declaration tokens).rest <:+ tokens := by
  unfold readName
  repeat' split
  all_goals simp

theorem readNames_suffix (tokens : List Token) :
    (readNames tokens).rest <:+ tokens := by
  fun_induction readNames tokens with
  | case4 token comma rest isName isComma later ih =>
      exact (ih.trans (List.suffix_cons comma rest)).trans (List.suffix_cons token _)
  | _ => simp

theorem readInterfaces_suffix (declaration : Declaration) (tokens : List Token) :
    (readInterfaces declaration tokens).rest <:+ tokens := by
  unfold readInterfaces
  split
  · simp
  · split
    · exact (readNames_suffix _).trans (List.suffix_cons _ _)
    · simp

theorem readTarget_suffix (keyword : String) (declaration : Declaration)
    (tokens : List Token) :
    (readTarget keyword declaration tokens).rest <:+ tokens := by
  unfold readTarget
  split
  · simp
  · split
    · split
      · simp
      · split
        · exact (List.suffix_cons _ _).trans (List.suffix_cons _ _)
        · exact List.suffix_cons _ _
    · simp

theorem skipToClosing_suffix (depth : Nat) (tokens : List Token) :
    (skipToClosing depth tokens).2 <:+ tokens := by
  induction tokens generalizing depth with
  | nil => simp [skipToClosing]
  | cons token rest ih =>
      unfold skipToClosing
      split
      · exact (ih _).trans (List.suffix_cons _ _)
      · split
        · split
          · exact List.suffix_cons _ _
          · exact (ih _).trans (List.suffix_cons _ _)
        · exact (ih _).trans (List.suffix_cons _ _)

theorem skipBody_suffix (tokens : List Token) : (skipBody tokens).2 <:+ tokens := by
  unfold skipBody
  split
  · simp
  · split
    · exact (skipToClosing_suffix _ _).trans (List.suffix_cons _ _)
    · simp

theorem readPart_suffix (part : HeaderPart) (declaration : Declaration)
    (tokens : List Token) :
    (readPart part declaration tokens).rest <:+ tokens := by
  cases part with
  | id => exact readId_suffix declaration tokens
  | name => exact readName_suffix declaration tokens
  | interfaces => exact readInterfaces_suffix declaration tokens
  | target keyword => exact readTarget_suffix keyword declaration tokens
  | body => exact skipBody_suffix tokens

theorem readParts_suffix (declaration : Declaration) (tokens : List Token)
    (parts : List HeaderPart) :
    (readParts declaration tokens parts).2 <:+ tokens := by
  induction parts generalizing declaration tokens with
  | nil => exact List.suffix_refl tokens
  | cons part parts ih =>
      simp only [readParts]
      split
      · exact (ih _ _).trans (readPart_suffix part declaration tokens)
      · exact readPart_suffix part declaration tokens

/-- The tokens after a header are a suffix of those before it. -/
theorem read_suffix (kind : ObjectKind) (keyword : Token) (tokens : List Token) :
    (read kind keyword tokens).2 <:+ tokens :=
  readParts_suffix _ tokens kind.parts

end Header

end ObjectIds
