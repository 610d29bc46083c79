import ObjectIds.Piece

/-!
# Preprocessed source texts

Preprocessing goes once through the pieces of a text.  Directives change the
conditions, tokens count when the conditions allow it, and what is wrong is noted.
What remains are the visible tokens, the symbols at the end, and the issues in the
order in which they were met.
-/

namespace ObjectIds

namespace Conditions

/-- The conditions after a piece. -/
def after (conditions : Conditions) (piece : Piece) : Conditions :=
  match piece.directive? with
  | some directive => conditions.apply directive piece.span
  | none => conditions

/-- The token that a piece is, when it can be seen. -/
def visible? (conditions : Conditions) (piece : Piece) : Option Token :=
  if conditions.isVisible then piece.token? else none

/-- What is wrong with a piece at this point.  A token that is not closed is an issue
also where it cannot be seen. -/
def issue? (conditions : Conditions) (piece : Piece) : Option Issue :=
  let fault := match piece.directive? with
    | some directive => conditions.fault? directive
    | none => piece.fault?
  fault.map (⟨·, piece.span⟩)

end Conditions

/-- What preprocessing leaves of a source text. -/
structure Preprocessed where
  tokens : List Token
  symbols : SymbolTable
  issues : List Issue
deriving DecidableEq, Repr

namespace Preprocessed

/-- Goes through pieces under conditions.  The tokens and issues met before are given
latest first. -/
def ofPiecesAfter (tokens : List Token) (issues : List Issue)
    (conditions : Conditions) : List Piece → Preprocessed
  | [] =>
      ⟨tokens.reverse, conditions.symbols, issues.reverse ++ conditions.unclosed⟩
  | piece :: pieces =>
      ofPiecesAfter ((conditions.visible? piece).toList ++ tokens)
        ((conditions.issue? piece).toList ++ issues) (conditions.after piece) pieces

/-- Goes through pieces under conditions. -/
def ofPieces (conditions : Conditions) (pieces : List Piece) : Preprocessed :=
  ofPiecesAfter [] [] conditions pieces

/-- Preprocesses a source text. -/
def ofText (source : String) (symbols : SymbolTable) : Preprocessed :=
  ofPieces (Conditions.initial symbols) (Piece.listOfText source)

theorem toList_reverse {α : Type} (found : Option α) :
    found.toList.reverse = found.toList := by
  cases found <;> rfl

/-- Tokens and issues met before come first. -/
theorem ofPiecesAfter_eq (tokens : List Token) (issues : List Issue)
    (conditions : Conditions) (pieces : List Piece) :
    ofPiecesAfter tokens issues conditions pieces =
      ⟨tokens.reverse ++ (ofPieces conditions pieces).tokens,
        (ofPieces conditions pieces).symbols,
        issues.reverse ++ (ofPieces conditions pieces).issues⟩ := by
  induction pieces generalizing tokens issues conditions with
  | nil => simp [ofPieces, ofPiecesAfter]
  | cons piece pieces ih =>
      rw [ofPieces, ofPiecesAfter, ofPiecesAfter,
        ih ((conditions.visible? piece).toList ++ tokens),
        ih ((conditions.visible? piece).toList ++ [])]
      simp [toList_reverse]

@[simp]
theorem ofPieces_nil (conditions : Conditions) :
    ofPieces conditions [] = ⟨[], conditions.symbols, conditions.unclosed⟩ := rfl

/-- Each piece adds its visible token and its issue to what the later pieces leave. -/
theorem ofPieces_cons (conditions : Conditions) (piece : Piece) (pieces : List Piece) :
    ofPieces conditions (piece :: pieces) =
      let later := ofPieces (conditions.after piece) pieces
      ⟨(conditions.visible? piece).toList ++ later.tokens, later.symbols,
        (conditions.issue? piece).toList ++ later.issues⟩ := by
  rw [ofPieces, ofPiecesAfter, ofPiecesAfter_eq]
  simp [toList_reverse]

end Preprocessed

/-- The tokens of a source text when no symbol is defined at its start. -/
def Token.listOfText (source : String) : List Token :=
  (Preprocessed.ofText source .empty).tokens

end ObjectIds
