import Mathlib.Data.List.Forall2
import ObjectIds.Scan

/-!
# Changes that a scan follows

A scan looks at the kinds of tokens, at the texts of those that are not quoted, and at which
of them start on one line.  When nothing of this changes, the same declarations are found, and
their names, positions and spans have become what those of the tokens have become.
-/

namespace ObjectIds

/-- What becomes of names, positions and spans. -/
structure Change where
  name : String → String
  position : Position → Position
  span : Span → Span

/-- The same positions are on one line after a change as before it. -/
def Change.KeepsLines (change : Change) : Prop :=
  ∀ first second, (change.position first).line = (change.position second).line ↔
    first.line = second.line

/-- A token that another one has become. -/
structure Token.Becomes (change : Change) (old new : Token) : Prop where
  kind_eq : new.kind = old.kind
  text_eq : old.kind.delimiter? = none → new.text = old.text
  value_eq : old.isIdentifier = true → new.value = change.name old.value
  position_eq : new.position = change.position old.position
  span_eq : new.span = change.span old.span

/-- A declaration of which everything but its kind and id may have changed. -/
def Declaration.changed (change : Change) (declaration : Declaration) : Declaration where
  kind := declaration.kind
  id := declaration.id
  name := declaration.name.map change.name
  interfaces := declaration.interfaces.map change.name
  target := declaration.target.map change.name
  position := change.position declaration.position
  idSpan := declaration.idSpan.map change.span
  nameSpan := declaration.nameSpan.map change.span

variable {change : Change}

namespace Token.Becomes

variable {old new : Token}

theorem isSymbol_eq (becomes : Becomes change old new) (mark : String) :
    new.isSymbol mark = old.isSymbol mark := by
  unfold isSymbol
  rw [becomes.kind_eq]
  cases isKind : old.kind with
  | symbol => rw [becomes.text_eq (by rw [isKind]; rfl)]
  | _ => rfl

theorem isKeyword_eq (becomes : Becomes change old new) (keyword : String) :
    new.isKeyword keyword = old.isKeyword keyword := by
  unfold isKeyword
  rw [becomes.kind_eq]
  cases isKind : old.kind with
  | word => rw [becomes.text_eq (by rw [isKind]; rfl)]
  | _ => rfl

theorem isIdentifier_eq (becomes : Becomes change old new) :
    new.isIdentifier = old.isIdentifier := by
  rw [isIdentifier, isIdentifier, becomes.kind_eq]

theorem objectId?_eq (becomes : Becomes change old new) :
    Header.objectId? new = Header.objectId? old := by
  unfold Header.objectId?
  rw [becomes.kind_eq]
  split
  · rename_i isNumber
    rw [becomes.text_eq (by rw [isNumber]; rfl)]
  · rfl

theorem ofToken?_eq (becomes : Becomes change old new) :
    ObjectKind.ofToken? new = ObjectKind.ofToken? old := by
  unfold ObjectKind.ofToken?
  rw [becomes.kind_eq]
  split
  · rename_i isWord
    rw [becomes.text_eq (by rw [isWord]; rfl)]
  · rfl

end Token.Becomes

namespace Header

variable {declaration : Declaration} {tokens others : List Token}

/-- A reading that another one has become. -/
structure Reading.Becomes (change : Change) (old new : Reading) : Prop where
  found_eq : new.found = old.found
  declaration_eq : new.declaration = old.declaration.changed change
  rest : List.Forall₂ (Token.Becomes change) old.rest new.rest

theorem readId_becomes (become : List.Forall₂ (Token.Becomes change) tokens others) :
    (readId declaration tokens).Becomes change (readId (declaration.changed change) others) := by
  cases become with
  | nil => exact ⟨rfl, rfl, .nil⟩
  | @cons old new rest left first later =>
      simp only [readId, first.objectId?_eq]
      cases objectId? old with
      | none => exact ⟨rfl, rfl, .cons first later⟩
      | some id => exact ⟨rfl, by simp [Declaration.changed, first.span_eq], later⟩

theorem readName_becomes (become : List.Forall₂ (Token.Becomes change) tokens others) :
    (readName declaration tokens).Becomes change
      (readName (declaration.changed change) others) := by
  cases become with
  | nil => exact ⟨rfl, rfl, .nil⟩
  | @cons old new rest left first later =>
      simp only [readName, first.isIdentifier_eq]
      split
      · rename_i isName
        exact ⟨rfl, by simp [Declaration.changed, first.span_eq, first.value_eq isName], later⟩
      · exact ⟨rfl, rfl, .cons first later⟩

theorem readNames_becomes (become : List.Forall₂ (Token.Becomes change) tokens others) :
    (readNames others).found = (readNames tokens).found ∧
      (readNames others).names = (readNames tokens).names.map change.name ∧
      List.Forall₂ (Token.Becomes change) (readNames tokens).rest (readNames others).rest := by
  fun_induction readNames tokens generalizing others with
  | case1 =>
      cases become
      exact ⟨rfl, rfl, .nil⟩
  | case2 token isName =>
      obtain ⟨new, _, first, later, rfl⟩ := List.forall₂_cons_left_iff.1 become
      cases later
      simp [readNames, first.isIdentifier_eq, isName, first.value_eq isName]
  | case3 token noName =>
      obtain ⟨new, _, first, later, rfl⟩ := List.forall₂_cons_left_iff.1 become
      cases later
      simpa [readNames, first.isIdentifier_eq, noName] using first
  | case4 token comma rest isName isComma =>
      rename_i ih
      obtain ⟨new, _, first, afterFirst, rfl⟩ := List.forall₂_cons_left_iff.1 become
      obtain ⟨mark, left, second, afterSecond, rfl⟩ := List.forall₂_cons_left_iff.1 afterFirst
      simpa [readNames, first.isIdentifier_eq, isName, second.isSymbol_eq, isComma,
        first.value_eq isName] using ih afterSecond
  | case5 token comma rest isName noComma =>
      obtain ⟨new, _, first, afterFirst, rfl⟩ := List.forall₂_cons_left_iff.1 become
      obtain ⟨mark, left, second, afterSecond, rfl⟩ := List.forall₂_cons_left_iff.1 afterFirst
      simp only [readNames, first.isIdentifier_eq, isName, second.isSymbol_eq, noComma]
      exact ⟨rfl, by simp [first.value_eq isName], .cons second afterSecond⟩
  | case6 token comma rest noName =>
      obtain ⟨new, _, first, afterFirst, rfl⟩ := List.forall₂_cons_left_iff.1 become
      obtain ⟨mark, left, second, afterSecond, rfl⟩ := List.forall₂_cons_left_iff.1 afterFirst
      simp only [readNames, first.isIdentifier_eq, noName]
      exact ⟨rfl, rfl, .cons first (.cons second afterSecond)⟩

theorem readInterfaces_becomes (become : List.Forall₂ (Token.Becomes change) tokens others) :
    (readInterfaces declaration tokens).Becomes change
      (readInterfaces (declaration.changed change) others) := by
  cases become with
  | nil => exact ⟨rfl, rfl, .nil⟩
  | @cons old new rest left first later =>
      simp only [readInterfaces, first.isKeyword_eq]
      split
      · obtain ⟨foundEq, namesEq, restBecomes⟩ := readNames_becomes later
        exact ⟨foundEq, by simp [Declaration.changed, namesEq], restBecomes⟩
      · exact ⟨rfl, rfl, .cons first later⟩

theorem readTarget_becomes (keyword : String)
    (become : List.Forall₂ (Token.Becomes change) tokens others) :
    (readTarget keyword declaration tokens).Becomes change
      (readTarget keyword (declaration.changed change) others) := by
  cases become with
  | nil => exact ⟨rfl, rfl, .nil⟩
  | @cons old new rest left first later =>
      simp only [readTarget, first.isKeyword_eq]
      split
      · cases later with
        | nil => exact ⟨rfl, rfl, .nil⟩
        | @cons name other names named second afterSecond =>
            simp only [second.isIdentifier_eq]
            split
            · rename_i isName
              exact ⟨rfl, by simp [Declaration.changed, second.value_eq isName], afterSecond⟩
            · exact ⟨rfl, rfl, .cons second afterSecond⟩
      · exact ⟨rfl, rfl, .cons first later⟩

theorem skipToClosing_becomes (depth : Nat)
    (become : List.Forall₂ (Token.Becomes change) tokens others) :
    (skipToClosing depth others).1 = (skipToClosing depth tokens).1 ∧
      List.Forall₂ (Token.Becomes change) (skipToClosing depth tokens).2
        (skipToClosing depth others).2 := by
  induction become generalizing depth with
  | nil => exact ⟨rfl, .nil⟩
  | cons first later ih =>
      unfold skipToClosing
      simp only [first.isSymbol_eq]
      split
      · exact ih (depth + 1)
      · split
        · cases depth with
          | zero => exact ⟨rfl, later⟩
          | succ depth => exact ih depth
        · exact ih depth

theorem skipBody_becomes (become : List.Forall₂ (Token.Becomes change) tokens others) :
    (skipBody others).1 = (skipBody tokens).1 ∧
      List.Forall₂ (Token.Becomes change) (skipBody tokens).2 (skipBody others).2 := by
  cases become with
  | nil => exact ⟨rfl, .nil⟩
  | cons first later =>
      simp only [skipBody, first.isSymbol_eq]
      split
      · exact skipToClosing_becomes 0 later
      · exact ⟨rfl, .cons first later⟩

theorem readPart_becomes (part : HeaderPart)
    (become : List.Forall₂ (Token.Becomes change) tokens others) :
    (readPart part declaration tokens).Becomes change
      (readPart part (declaration.changed change) others) := by
  cases part with
  | id => exact readId_becomes become
  | name => exact readName_becomes become
  | interfaces => exact readInterfaces_becomes become
  | target keyword => exact readTarget_becomes keyword become
  | body =>
      obtain ⟨foundEq, restBecomes⟩ := skipBody_becomes become
      exact ⟨foundEq, rfl, restBecomes⟩

theorem readParts_becomes (parts : List HeaderPart)
    (become : List.Forall₂ (Token.Becomes change) tokens others) :
    (readParts (declaration.changed change) others parts).1 =
        (readParts declaration tokens parts).1.changed change ∧
      List.Forall₂ (Token.Becomes change) (readParts declaration tokens parts).2
        (readParts (declaration.changed change) others parts).2 := by
  induction parts generalizing declaration tokens others with
  | nil => exact ⟨rfl, become⟩
  | cons part parts ih =>
      obtain ⟨foundEq, declarationEq, restBecomes⟩ :
          (readPart part declaration tokens).Becomes change
            (readPart part (declaration.changed change) others) :=
        readPart_becomes part become
      simp only [readParts, foundEq, declarationEq]
      split
      · exact ih restBecomes
      · exact ⟨rfl, restBecomes⟩

theorem read_becomes (kind : ObjectKind) {keyword newKeyword : Token}
    (isKeyword : keyword.Becomes change newKeyword)
    (become : List.Forall₂ (Token.Becomes change) tokens others) :
    (read kind newKeyword others).1 = (read kind keyword tokens).1.changed change ∧
      List.Forall₂ (Token.Becomes change) (read kind keyword tokens).2
        (read kind newKeyword others).2 := by
  have started : Declaration.started kind newKeyword.position =
      (Declaration.started kind keyword.position).changed change := by
    rw [isKeyword.position_eq]
    rfl
  rw [read, started]
  exact readParts_becomes kind.parts become

end Header

namespace Declaration

variable {tokens others : List Token}

theorem isComplete_changed (declaration : Declaration) (kind : ObjectKind) :
    (declaration.changed change).isComplete kind = declaration.isComplete kind := by
  simp [isComplete, changed]

theorem afterLine_becomes (keepsLines : change.KeepsLines) (position : Position)
    (become : List.Forall₂ (Token.Becomes change) tokens others) :
    List.Forall₂ (Token.Becomes change) (afterLine position.line tokens)
      (afterLine (change.position position).line others) := by
  induction become with
  | nil => exact .nil
  | @cons old new rest left first later ih =>
      have sameTest : (new.position.line == (change.position position).line) =
          (old.position.line == position.line) := by
        rw [first.position_eq, Bool.beq_eq_decide_eq, Bool.beq_eq_decide_eq]
        exact decide_eq_decide.2 (keepsLines _ _)
      unfold afterLine
      rw [List.dropWhile_cons, List.dropWhile_cons, sameTest]
      split
      · exact ih
      · exact .cons first later

theorem next_becomes (keepsLines : change.KeepsLines)
    (become : List.Forall₂ (Token.Becomes change) tokens others) :
    (next others).1 = (next tokens).1.map (changed change) ∧
      List.Forall₂ (Token.Becomes change) (next tokens).2 (next others).2 := by
  fun_induction next tokens generalizing others with
  | case1 =>
      cases become
      exact ⟨by simp [next], by simp [next]⟩
  | case2 token rest kind isKind header =>
      rename_i complete
      obtain ⟨new, left, first, later, rfl⟩ := List.forall₂_cons_left_iff.1 become
      obtain ⟨declarationEq, restBecomes⟩ := Header.read_becomes kind first later
      rw [next, first.ofToken?_eq, isKind]
      simp only [declarationEq, isComplete_changed, header, complete, if_true]
      exact ⟨rfl, restBecomes⟩
  | case3 token rest kind isKind header =>
      rename_i incomplete shorter ih
      obtain ⟨new, left, first, later, rfl⟩ := List.forall₂_cons_left_iff.1 become
      obtain ⟨declarationEq, restBecomes⟩ := Header.read_becomes kind first later
      rw [next, first.ofToken?_eq, isKind]
      simp only [declarationEq, isComplete_changed, header, incomplete]
      exact ih restBecomes
  | case4 token rest noKind shorter ih =>
      obtain ⟨new, left, first, later, rfl⟩ := List.forall₂_cons_left_iff.1 become
      have further := ih (afterLine_becomes keepsLines token.position later)
      rw [← first.position_eq] at further
      rw [next, first.ofToken?_eq, noKind]
      exact further

theorem listOfTokens_eq (tokens : List Token) :
    listOfTokens tokens =
      match next tokens with
      | (none, _) => []
      | (some declaration, rest) => declaration :: listOfTokens rest := by
  rw [listOfTokens]
  split
  · rename_i rest isNext
    simp only [isNext]
  · rename_i declaration rest isNext
    simp only [isNext]

/-- The declarations among changed tokens are the changed declarations. -/
theorem listOfTokens_becomes (keepsLines : change.KeepsLines)
    (become : List.Forall₂ (Token.Becomes change) tokens others) :
    listOfTokens others = (listOfTokens tokens).map (changed change) := by
  fun_induction listOfTokens tokens generalizing others with
  | case1 tokens rest isNext =>
      obtain ⟨nextEq, -⟩ := next_becomes keepsLines become
      rw [isNext] at nextEq
      rcases isOther : next others with ⟨found, left⟩
      rw [isOther] at nextEq
      obtain rfl : found = none := nextEq
      rw [listOfTokens_eq, isOther]
      rfl
  | case2 tokens declaration rest isNext shorter ih =>
      obtain ⟨nextEq, restBecomes⟩ := next_becomes keepsLines become
      rw [isNext] at nextEq restBecomes
      rcases isOther : next others with ⟨found, left⟩
      rw [isOther] at nextEq restBecomes
      obtain rfl : found = some (declaration.changed change) := nextEq
      rw [listOfTokens_eq, isOther, List.map_cons]
      exact congrArg _ (ih restBecomes)

end Declaration

end ObjectIds
