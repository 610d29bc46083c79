import ObjectIds.Issue
import ObjectIds.SymbolTable

/-!
# Conditional compilation

Conditionals nest.  At each point of a text the open ones, innermost first, and the
symbol table decide what is visible: what stands inside a conditional can be seen when
its current branch is the first of its branches whose symbol was defined when the line
of that branch was reached, and the surrounding conditionals allow it too.

Every directive takes effect, also one that stands in a hidden branch.  An `#elif`,
`#else` or `#endif` outside every conditional is an issue.
-/

namespace ObjectIds

/-- An open conditional: whether its current branch is the chosen one, whether a
branch up to the current one has been chosen, and the line that opened it. -/
structure Conditional where
  satisfied : Bool
  chosen : Bool
  opening : Span
deriving DecidableEq, Repr

namespace Conditional

/-- A conditional at its first branch. -/
def opened (satisfied : Bool) (opening : Span) : Conditional :=
  ⟨satisfied, satisfied, opening⟩

/-- A conditional at its next branch.  The branch is chosen when its own test holds
and no branch before it was chosen. -/
def branch (conditional : Conditional) (holds : Bool) : Conditional :=
  { conditional with
    satisfied := !conditional.chosen && holds
    chosen := conditional.chosen || holds }

end Conditional

/-- The symbols and the open conditionals, innermost first, at one point of a text. -/
structure Conditions where
  symbols : SymbolTable
  conditionals : List Conditional
deriving DecidableEq, Repr

namespace Conditions

/-- The conditions at the start of a text. -/
def initial (symbols : SymbolTable) : Conditions := ⟨symbols, []⟩

/-- Whether what stands at this point can be seen. -/
def isVisible (conditions : Conditions) : Bool :=
  conditions.conditionals.all Conditional.satisfied

/-- The number of open conditionals. -/
def depth (conditions : Conditions) : Nat := conditions.conditionals.length

/-- Defines a symbol, unless it is empty. -/
def define (symbols : SymbolTable) (symbol : String) : SymbolTable :=
  if symbol.isEmpty then symbols else symbols.define symbol

/-- Notes that a branch asked for a symbol, unless it is empty. -/
def check (symbols : SymbolTable) (symbol : String) : SymbolTable :=
  if symbol.isEmpty then symbols else symbols.markChecked symbol

/-- Moves the innermost conditional to its next branch. -/
def branch (holds : Bool) : List Conditional → List Conditional
  | [] => []
  | innermost :: outer => innermost.branch holds :: outer

/-- The conditions after a directive on a line. -/
def apply (conditions : Conditions) (directive : Directive) (line : Span) :
    Conditions :=
  let ⟨symbols, conditionals⟩ := conditions
  match directive with
  | .define symbol => ⟨define symbols symbol, conditionals⟩
  | .undefine symbol => ⟨symbols.undefine symbol, conditionals⟩
  | .ifDefined symbol =>
      ⟨check symbols symbol,
        Conditional.opened (symbols.isDefined symbol) line :: conditionals⟩
  | .elseIfDefined symbol =>
      ⟨check symbols symbol, branch (symbols.isDefined symbol) conditionals⟩
  | .elseBranch => ⟨symbols, branch true conditionals⟩
  | .endIf => ⟨symbols, conditionals.tail⟩
  | .other _ => conditions

/-- What is wrong with a directive at this point. -/
def fault? (conditions : Conditions) (directive : Directive) : Option Issue.Cause :=
  if conditions.conditionals.isEmpty then Issue.Cause.ofUnmatched? directive else none

/-- The issues of a text that ends at this point: its open conditionals, outermost
first. -/
def unclosed (conditions : Conditions) : List Issue :=
  conditions.conditionals.reverse.map fun conditional =>
    ⟨.unclosedConditional, conditional.opening⟩

end Conditions

end ObjectIds
