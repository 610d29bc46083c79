/-!
# Runs that end with a delimiter

A string or a quoted identifier runs from a delimiter to the next delimiter that is
not doubled; a block comment runs to the next `*/`.  Either may also run to the end
of the text, and then it is not closed.

Inside quotes a doubled delimiter stands for the delimiter itself.  `quote` writes a
text that way and `unquote` reads it back up to the first delimiter that stands alone.
-/

namespace ObjectIds

namespace Text

/-- The part of a text up to and including a delimiter, whether the delimiter was
found, and what comes after it. -/
structure Run where
  text : List Char
  closed : Bool
  rest : List Char
deriving DecidableEq, Repr

/-- Extends a run, whose characters so far are given latest first, to the first
delimiter that is not doubled. -/
def quotedRunAfter (delimiter : Char) (found : List Char) : List Char → Run
  | [] => ⟨found.reverse, false, []⟩
  | [character] =>
      ⟨(character :: found).reverse, character == delimiter, []⟩
  | character :: next :: rest =>
      if character = delimiter then
        if next = delimiter then
          quotedRunAfter delimiter (next :: character :: found) rest
        else ⟨(character :: found).reverse, true, next :: rest⟩
      else quotedRunAfter delimiter (character :: found) (next :: rest)

/-- The run of a quoted text, from after its opening delimiter. -/
def quotedRun (delimiter : Char) (text : List Char) : Run :=
  quotedRunAfter delimiter [] text

/-- Extends a run, whose characters so far are given latest first, to the first
`*/`. -/
def commentRunAfter (found : List Char) : List Char → Run
  | [] => ⟨found.reverse, false, []⟩
  | [character] => ⟨(character :: found).reverse, false, []⟩
  | character :: next :: rest =>
      if character = '*' ∧ next = '/' then
        ⟨(next :: character :: found).reverse, true, rest⟩
      else commentRunAfter (character :: found) (next :: rest)

/-- The run of a block comment, from after its opening `/*`. -/
def commentRun (text : List Char) : Run :=
  commentRunAfter [] text

/-- A text as it is written between two delimiters. -/
def quote (delimiter : Char) (text : List Char) : List Char :=
  text.flatMap fun character =>
    if character = delimiter then [delimiter, delimiter] else [character]

/-- Reads a text as it is written after a delimiter; `found` holds the characters read
so far, latest first. -/
def unquoteAfter (delimiter : Char) (found : List Char) : List Char → List Char
  | [] => found.reverse
  | [character] =>
      if character = delimiter then found.reverse else (character :: found).reverse
  | character :: next :: rest =>
      if character = delimiter then
        if next = delimiter then unquoteAfter delimiter (character :: found) rest
        else found.reverse
      else unquoteAfter delimiter (character :: found) (next :: rest)

/-- The text that stands between two delimiters, read from after the first. -/
def unquote (delimiter : Char) (text : List Char) : List Char :=
  unquoteAfter delimiter [] text

/-- The characters found so far come first in a quoted run, and nothing is lost. -/
theorem quotedRunAfter_append (delimiter : Char) (found text : List Char) :
    (quotedRunAfter delimiter found text).text ++
        (quotedRunAfter delimiter found text).rest =
      found.reverse ++ text := by
  fun_induction quotedRunAfter delimiter found text <;> simp_all

/-- The characters found so far come first in a comment, and nothing is lost. -/
theorem commentRunAfter_append (found text : List Char) :
    (commentRunAfter found text).text ++ (commentRunAfter found text).rest =
      found.reverse ++ text := by
  fun_induction commentRunAfter found text <;> simp_all

/-- A quoted run and what comes after it are the whole text. -/
@[simp]
theorem quotedRun_append (delimiter : Char) (text : List Char) :
    (quotedRun delimiter text).text ++ (quotedRun delimiter text).rest = text := by
  simp [quotedRun, quotedRunAfter_append]

/-- A comment and what comes after it are the whole text. -/
@[simp]
theorem commentRun_append (text : List Char) :
    (commentRun text).text ++ (commentRun text).rest = text := by
  simp [commentRun, commentRunAfter_append]

end Text

end ObjectIds
