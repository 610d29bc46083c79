import ObjectIds.Declaration.Header
import ObjectIds.Preprocessed

/-!
# Scanning for declarations

A scan goes through the visible tokens of a source text.  A word that names an object
kind starts a declaration, which counts when its header has the parts that its kind
cannot do without.  Any other token is skipped together with the tokens that start on
its line.  When a header breaks off, scanning goes on at the token that did not fit.
-/

namespace ObjectIds

/-- The kind of object whose keyword a token is. -/
def ObjectKind.ofToken? (token : Token) : Option ObjectKind :=
  if token.kind = .word then ofKeyword? token.text else none

namespace Declaration

/-- The tokens that start after a line. -/
def afterLine (line : UInt32) (tokens : List Token) : List Token :=
  tokens.dropWhile (·.position.line == line)

theorem afterLine_suffix (line : UInt32) (tokens : List Token) :
    afterLine line tokens <:+ tokens :=
  List.dropWhile_suffix _

/-- The next declaration among tokens, and the tokens after it. -/
def next (tokens : List Token) : Option Declaration × List Token :=
  match tokens with
  | [] => (none, [])
  | token :: rest =>
      match ObjectKind.ofToken? token with
      | some kind =>
          let header := Header.read kind token rest
          if header.1.isComplete kind then (some header.1, header.2)
          else
            have := (Header.read_suffix kind token rest).length_le
            next header.2
      | none =>
          have := (afterLine_suffix token.position.line rest).length_le
          next (afterLine token.position.line rest)
termination_by tokens.length

/-- A declaration takes at least its keyword from the tokens. -/
theorem length_next_lt {tokens : List Token} {declaration : Declaration}
    (found : (next tokens).1 = some declaration) :
    (next tokens).2.length < tokens.length := by
  fun_induction next tokens with
  | case1 => simp at found
  | case2 token rest kind isKind header complete =>
      exact Nat.lt_succ_of_le (Header.read_suffix kind token rest).length_le
  | case3 token rest kind isKind header incomplete shorter ih =>
      exact Nat.lt_succ_of_lt (Nat.lt_of_lt_of_le (ih found) shorter)
  | case4 token rest noKind shorter ih =>
      exact Nat.lt_succ_of_lt (Nat.lt_of_lt_of_le (ih found) shorter)

/-- The declarations among tokens. -/
def listOfTokens (tokens : List Token) : List Declaration :=
  match isNext : next tokens with
  | (none, _) => []
  | (some declaration, rest) =>
      have : rest.length < tokens.length := by
        have shorter := length_next_lt (congrArg Prod.fst isNext)
        rwa [isNext] at shorter
      declaration :: listOfTokens rest
termination_by tokens.length

end Declaration

/-- What a scan finds in a source text: its declarations, the symbols at its end, and
what is wrong with it. -/
structure Scan where
  declarations : List Declaration
  symbols : SymbolTable
  issues : List Issue
deriving DecidableEq, Repr

namespace Preprocessed

/-- What is left to find in a preprocessed text. -/
def scan (text : Preprocessed) : Scan :=
  ⟨Declaration.listOfTokens text.tokens, text.symbols, text.issues⟩

end Preprocessed

namespace Scan

/-- Scans a source text, in which the given symbols are defined at the start. -/
def ofText (source : String) (symbols : SymbolTable) : Scan :=
  (Preprocessed.ofText source symbols).scan

/-- Scans source texts one after the other, each with the symbols that the one before
it leaves. -/
def sequence (symbols : SymbolTable) : List String → List Scan
  | [] => []
  | source :: sources =>
      let scan := ofText source symbols
      scan :: sequence scan.symbols sources

end Scan

end ObjectIds
