import ObjectIds.Json.Token

/-!
# Reading JSON texts

A text is a JSON document when its tokens are one value.  Arrays and objects may be
nested to any depth: those that are still open are kept in a list, innermost first,
and each token takes that list one step further.
-/

namespace ObjectIds

namespace Json

/-- An array or object that is still open, its elements or members given latest first.
An open object is waiting for the value of a key. -/
inductive Container where
  | array (elements : List Json)
  | object (members : List (List Character × Json)) (key : List Character)

/-- How far the reading of a value has come. -/
inductive Progress where
  /-- A value must follow. -/
  | value (containers : List Container)
  /-- An array has just been opened: a value or the end of the array must follow. -/
  | element (containers : List Container)
  /-- An object has just been opened: a key or the end of the object must follow. -/
  | member (containers : List Container)
  /-- A key must follow. -/
  | key (containers : List Container) (members : List (List Character × Json))
  /-- A colon must follow. -/
  | colon (containers : List Container) (members : List (List Character × Json))
      (key : List Character)
  /-- A value has been read. -/
  | done (containers : List Container) (value : Json)

namespace Progress

/-- Reads a token at a place where a value must start. -/
def start (containers : List Container) : Token → Option Progress
  | .null => some (.done containers .null)
  | .bool truth => some (.done containers (.bool truth))
  | .number literal => some (.done containers (.number literal))
  | .string characters => some (.done containers (.string characters))
  | .openBracket => some (.element containers)
  | .openBrace => some (.member containers)
  | .closeBracket | .closeBrace | .comma | .colon => none

/-- Reads a token after a value in the innermost open container. -/
def finish (item : Json) (token : Token) : List Container → Option Progress
  | [] => none
  | .array elements :: outer =>
      match token with
      | .comma => some (.value (.array (item :: elements) :: outer))
      | .closeBracket => some (.done outer (.array (item :: elements).reverse))
      | _ => none
  | .object members name :: outer =>
      match token with
      | .comma => some (.key outer ((name, item) :: members))
      | .closeBrace => some (.done outer (.object ((name, item) :: members).reverse))
      | _ => none

/-- Reads a token. -/
def step (progress : Progress) (token : Token) : Option Progress :=
  match progress with
  | .value containers => start containers token
  | .element containers =>
      match token with
      | .closeBracket => some (.done containers (.array []))
      | _ => start (.array [] :: containers) token
  | .member containers =>
      match token with
      | .closeBrace => some (.done containers (.object []))
      | .string name => some (.colon containers [] name)
      | _ => none
  | .key containers members =>
      match token with
      | .string name => some (.colon containers members name)
      | _ => none
  | .colon containers members name =>
      match token with
      | .colon => some (.value (.object members name :: containers))
      | _ => none
  | .done containers item => finish item token containers

/-- The value that has been read, if nothing is left open. -/
def result? : Progress → Option Json
  | .done [] item => some item
  | _ => none

/-- Reads tokens. -/
def steps (progress : Progress) (tokens : List Token) : Option Progress :=
  tokens.foldlM step progress

end Progress

/-- The value that a sequence of tokens is. -/
def ofTokens? (tokens : List Token) : Option Json :=
  (Progress.steps (.value []) tokens).bind Progress.result?

/-- Reads a JSON document. -/
def read? (text : String) : Option Json :=
  (Token.list? text).bind ofTokens?

end Json

end ObjectIds
