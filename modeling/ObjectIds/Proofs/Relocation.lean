import ObjectIds.Proofs.ChangedTokens

/-!
# Moving tokens

Which declarations a scan finds does not depend on where in the source the tokens
stand, as long as it stays the same which of them start on one line.  Moving the tokens
moves the declarations and changes nothing else about them.
-/

namespace ObjectIds

/-- The change of tokens that stand elsewhere. -/
def Change.move (position : Position → Position) (span : Span → Span) : Change :=
  ⟨fun name => name, position, span⟩

/-- A token that stands elsewhere. -/
def Token.relocate (move : Position → Position) (mapSpan : Span → Span) (token : Token) :
    Token :=
  { token with position := move token.position, span := mapSpan token.span }

/-- A declaration that stands elsewhere. -/
def Declaration.relocate (move : Position → Position) (mapSpan : Span → Span)
    (declaration : Declaration) : Declaration :=
  { declaration with
    position := move declaration.position
    idSpan := declaration.idSpan.map mapSpan
    nameSpan := declaration.nameSpan.map mapSpan }

variable (move : Position → Position) (mapSpan : Span → Span)

namespace Token

/-- Moving a token is a change that leaves names alone. -/
theorem becomes_relocate (token : Token) :
    Becomes (.move move mapSpan) token (token.relocate move mapSpan) :=
  ⟨rfl, fun _ => rfl, fun _ => rfl, rfl, rfl⟩

end Token

namespace Declaration

theorem changed_eq_relocate (declaration : Declaration) :
    declaration.changed (.move move mapSpan) = declaration.relocate move mapSpan := by
  simp [changed, relocate, Change.move]

variable {move}

/-- The declarations among moved tokens are the moved declarations. -/
theorem listOfTokens_relocate
    (sameLine : ∀ first second, (move first).line = (move second).line ↔
      first.line = second.line) (tokens : List Token) :
    listOfTokens (tokens.map (Token.relocate move mapSpan)) =
      (listOfTokens tokens).map (relocate move mapSpan) := by
  have become : List.Forall₂ (Token.Becomes (.move move mapSpan)) tokens
      (tokens.map (Token.relocate move mapSpan)) :=
    List.forall₂_map_right_iff.2 <| List.forall₂_same.2 fun token _ =>
      token.becomes_relocate move mapSpan
  have keepsLines : (Change.move move mapSpan).KeepsLines := sameLine
  rw [listOfTokens_becomes keepsLines become]
  exact List.map_congr_left fun declaration _ => declaration.changed_eq_relocate move mapSpan

/-- Tokens that look alike where they are moved to declare objects that do. -/
theorem listOfTokens_relocate_congr
    (sameLine : ∀ first second, (move first).line = (move second).line ↔
      first.line = second.line) {tokens others : List Token}
    (same : others.map (Token.relocate move mapSpan) = tokens.map (Token.relocate move mapSpan)) :
    (listOfTokens others).map (relocate move mapSpan) =
      (listOfTokens tokens).map (relocate move mapSpan) := by
  rw [← listOfTokens_relocate mapSpan sameLine, ← listOfTokens_relocate mapSpan sameLine, same]

end Declaration

end ObjectIds
