import ObjectIds.Directive
import ObjectIds.Text.Location
import ObjectIds.Token

/-!
# Issues

No text fails to be read.  What is wrong with one is noted as an issue: its cause and
the span it concerns.
-/

namespace ObjectIds

/-- What can be wrong with a source text. -/
inductive Issue.Cause where
  /-- A string runs to the end of the text. -/
  | unterminatedString
  /-- A quoted identifier runs to the end of the text. -/
  | unterminatedQuotedIdentifier
  /-- A block comment runs to the end of the text. -/
  | unterminatedComment
  /-- An `#endif` stands outside every conditional. -/
  | unmatchedEndIf
  /-- An `#elif` stands outside every conditional. -/
  | unmatchedElseIf
  /-- An `#else` stands outside every conditional. -/
  | unmatchedElse
  /-- The text ends inside a conditional. -/
  | unclosedConditional
deriving DecidableEq, Repr

/-- Something wrong at a place in a source text. -/
structure Issue where
  cause : Issue.Cause
  span : Span
deriving DecidableEq, Repr

namespace Issue

/-- The sentence shown for a cause. -/
def Cause.message : Cause → String
  | .unterminatedString => "unterminated string literal"
  | .unterminatedQuotedIdentifier => "unterminated quoted identifier"
  | .unterminatedComment => "unterminated block comment"
  | .unmatchedEndIf => "#endif without matching #if"
  | .unmatchedElseIf => "#elif without matching #if"
  | .unmatchedElse => "#else without matching #if"
  | .unclosedConditional => "#if without matching #endif"

/-- What is wrong with a token of a kind that runs to the end of the text. -/
def Cause.ofUnterminated? : Token.Kind → Option Cause
  | .string => some .unterminatedString
  | .quotedIdentifier => some .unterminatedQuotedIdentifier
  | .word | .number | .symbol => none

/-- What is wrong with a directive outside every conditional. -/
def Cause.ofUnmatched? : Directive → Option Cause
  | .elseIfDefined _ => some .unmatchedElseIf
  | .elseBranch => some .unmatchedElse
  | .endIf => some .unmatchedEndIf
  | .ifDefined _ | .define _ | .undefine _ | .other _ => none

end Issue

end ObjectIds
