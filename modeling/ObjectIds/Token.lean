import ObjectIds.Text.Delimited
import ObjectIds.Text.Letters
import ObjectIds.Text.Location

/-!
# Tokens

A token is a word, a number, a quoted text or a symbol, with the exact characters that
it has in the source.  Its value is what those characters mean: the text between the
delimiters of a quoted token, and the characters themselves of any other.
-/

namespace ObjectIds

/-- The classes of tokens. -/
inductive Token.Kind where
  /-- A keyword or a plain name. -/
  | word
  /-- Digits with at most one point. -/
  | number
  /-- A text in single quotes. -/
  | string
  /-- A name in double quotes. -/
  | quotedIdentifier
  /-- An operator or a punctuation mark. -/
  | symbol
deriving DecidableEq, Repr, Inhabited

/-- A piece of source text that has a meaning of its own. -/
structure Token where
  kind : Token.Kind
  text : String
  position : Position
  span : Span
deriving DecidableEq, Repr, Inhabited

namespace Token

/-- The character that stands around tokens of a kind. -/
def Kind.delimiter? : Kind → Option Char
  | .string => some '\''
  | .quotedIdentifier => some '"'
  | .word | .number | .symbol => none

/-- The name of a kind in messages. -/
def Kind.label : Kind → String
  | .word => "word"
  | .number => "number"
  | .string => "string"
  | .quotedIdentifier => "quoted identifier"
  | .symbol => "symbol"

/-- What a quoted text means: its characters without the delimiters around them, each
doubled delimiter read as one. -/
def unquoted (delimiter : Char) (text : List Char) : List Char :=
  match text with
  | [] => []
  | first :: rest =>
      if first = delimiter then Text.unquote delimiter rest
      else Text.unquote delimiter text

/-- What a token means. -/
def value (token : Token) : String :=
  match token.kind.delimiter? with
  | some delimiter => String.ofList (unquoted delimiter token.text.toList)
  | none => token.text

/-- Whether a token is the given symbol. -/
def isSymbol (token : Token) (symbol : String) : Bool :=
  token.kind == .symbol && token.text == symbol

/-- Whether a token is the given keyword, in any case. -/
def isKeyword (token : Token) (keyword : String) : Bool :=
  token.kind == .word && Text.equalIgnoringCase token.text keyword

/-- Whether a token can name something. -/
def isIdentifier (token : Token) : Bool :=
  token.kind == .word || token.kind == .quotedIdentifier

end Token

end ObjectIds
