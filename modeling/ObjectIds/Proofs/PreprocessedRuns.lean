import ObjectIds.Proofs.PieceTiling
import ObjectIds.TokenStream

/-!
# Runs of preprocessing

A run goes through pieces one after the other.  What it shows, what it notes and the
conditions that it leaves are read off the pieces separately, so a run over two lists
is a run over the first followed by a run over the second.  Silent pieces can be left
out, and a token stream that is read to its end shows what the run shows.
-/

namespace ObjectIds

namespace Conditions

/-- The conditions after pieces. -/
def afterAll (conditions : Conditions) (pieces : List Piece) : Conditions :=
  pieces.foldl after conditions

/-- The tokens that can be seen among pieces. -/
def visibleTokens (conditions : Conditions) : List Piece → List Token
  | [] => []
  | piece :: pieces =>
      (conditions.visible? piece).toList ++ (conditions.after piece).visibleTokens pieces

/-- The issues met among pieces. -/
def metIssues (conditions : Conditions) : List Piece → List Issue
  | [] => []
  | piece :: pieces =>
      (conditions.issue? piece).toList ++ (conditions.after piece).metIssues pieces

@[simp]
theorem afterAll_nil (conditions : Conditions) : conditions.afterAll [] = conditions := rfl

@[simp]
theorem afterAll_cons (conditions : Conditions) (piece : Piece) (pieces : List Piece) :
    conditions.afterAll (piece :: pieces) = (conditions.after piece).afterAll pieces := rfl

@[simp]
theorem afterAll_append (conditions : Conditions) (first second : List Piece) :
    conditions.afterAll (first ++ second) = (conditions.afterAll first).afterAll second :=
  List.foldl_append

@[simp]
theorem visibleTokens_nil (conditions : Conditions) : conditions.visibleTokens [] = [] := rfl

@[simp]
theorem visibleTokens_cons (conditions : Conditions) (piece : Piece) (pieces : List Piece) :
    conditions.visibleTokens (piece :: pieces) =
      (conditions.visible? piece).toList ++
        (conditions.after piece).visibleTokens pieces := rfl

@[simp]
theorem metIssues_nil (conditions : Conditions) : conditions.metIssues [] = [] := rfl

@[simp]
theorem metIssues_cons (conditions : Conditions) (piece : Piece) (pieces : List Piece) :
    conditions.metIssues (piece :: pieces) =
      (conditions.issue? piece).toList ++ (conditions.after piece).metIssues pieces := rfl

theorem visibleTokens_append (conditions : Conditions) (first second : List Piece) :
    conditions.visibleTokens (first ++ second) =
      conditions.visibleTokens first ++ (conditions.afterAll first).visibleTokens second := by
  induction first generalizing conditions with
  | nil => rfl
  | cons piece pieces ih => simp [ih]

theorem metIssues_append (conditions : Conditions) (first second : List Piece) :
    conditions.metIssues (first ++ second) =
      conditions.metIssues first ++ (conditions.afterAll first).metIssues second := by
  induction first generalizing conditions with
  | nil => rfl
  | cons piece pieces ih => simp [ih]

theorem of_isSilent (conditions : Conditions) {piece : Piece} (silent : piece.isSilent = true) :
    conditions.after piece = conditions ∧ conditions.visible? piece = none ∧
      conditions.issue? piece = none := by
  obtain ⟨shape, text, start⟩ := piece
  cases shape with
  | blockComment closed =>
      cases closed with
      | false => contradiction
      | true =>
          simp [after, visible?, issue?, Piece.directive?, Piece.token?, Piece.fault?]
  | spacing => simp [after, visible?, issue?, Piece.directive?, Piece.token?, Piece.fault?]
  | lineComment =>
      simp [after, visible?, issue?, Piece.directive?, Piece.token?, Piece.fault?]
  | directive => contradiction
  | token kind closed => contradiction

theorem after_of_no_directive (conditions : Conditions) {piece : Piece}
    (noDirective : piece.directive? = none) : conditions.after piece = conditions := by
  simp [after, noDirective]

/-- Pieces without directives do not change the conditions. -/
theorem afterAll_of_no_directives (conditions : Conditions) {pieces : List Piece}
    (noDirectives : ∀ piece ∈ pieces, piece.directive? = none) :
    conditions.afterAll pieces = conditions := by
  induction pieces with
  | nil => rfl
  | cons piece pieces ih =>
      obtain ⟨noDirective, noneLater⟩ := List.forall_mem_cons.1 noDirectives
      rw [afterAll_cons, conditions.after_of_no_directive noDirective, ih noneLater]

/-- Where everything can be seen and no directive changes that, all tokens are shown. -/
theorem visibleTokens_of_no_directives {conditions : Conditions} {pieces : List Piece}
    (visible : conditions.isVisible = true)
    (noDirectives : ∀ piece ∈ pieces, piece.directive? = none) :
    conditions.visibleTokens pieces = pieces.filterMap Piece.token? := by
  induction pieces with
  | nil => rfl
  | cons piece pieces ih =>
      obtain ⟨noDirective, noneLater⟩ := List.forall_mem_cons.1 noDirectives
      rw [visibleTokens_cons, conditions.after_of_no_directive noDirective, ih noneLater,
        visible?, if_pos visible]
      cases isToken : piece.token? <;> simp [isToken]

end Conditions

namespace Preprocessed

/-- A run shows its visible tokens, keeps the symbols at its end, and notes the issues
that it meets and then the conditionals that are still open. -/
theorem ofPieces_eq (conditions : Conditions) (pieces : List Piece) :
    ofPieces conditions pieces =
      ⟨conditions.visibleTokens pieces, (conditions.afterAll pieces).symbols,
        conditions.metIssues pieces ++ (conditions.afterAll pieces).unclosed⟩ := by
  induction pieces generalizing conditions with
  | nil => simp
  | cons piece pieces ih => simp [ofPieces_cons, ih]

/-- Silent pieces do not matter. -/
theorem ofPieces_filter (conditions : Conditions) (pieces : List Piece) :
    ofPieces conditions (pieces.filter (!·.isSilent)) = ofPieces conditions pieces := by
  induction pieces generalizing conditions with
  | nil => rfl
  | cons piece pieces ih =>
      cases silent : piece.isSilent with
      | false => simp [silent, ofPieces_cons, ih]
      | true =>
          obtain ⟨sameAfter, notVisible, noIssue⟩ := conditions.of_isSilent silent
          simp [silent, ofPieces_cons, ih, sameAfter, notVisible, noIssue]

theorem ofText_eq_ofPieces_lexemesFrom (source : String) (symbols : SymbolTable) :
    ofText source symbols =
      ofPieces (Conditions.initial symbols)
        (Piece.lexemesFrom Place.start source.toList) := by
  rw [Piece.lexemesFrom, ofPieces_filter]
  rfl

end Preprocessed

namespace TokenStream

/-- The stream after pieces, with none still to come. -/
def passAll (stream : TokenStream) : List Piece → TokenStream
  | [] => { stream with pieces := [] }
  | piece :: pieces => (stream.pass piece pieces).passAll pieces

theorem passAll_conditions (stream : TokenStream) (pieces : List Piece) :
    (stream.passAll pieces).conditions = stream.conditions.afterAll pieces := by
  induction pieces generalizing stream with
  | nil => rfl
  | cons piece pieces ih => simp [passAll, ih, pass]

theorem passAll_issues (stream : TokenStream) (pieces : List Piece) :
    (stream.passAll pieces).issues = stream.issues ++ stream.conditions.metIssues pieces := by
  induction pieces generalizing stream with
  | nil => simp [passAll]
  | cons piece pieces ih => simp [passAll, ih, pass]

theorem passAll_finished (stream : TokenStream) (pieces : List Piece) :
    (stream.passAll pieces).finished = stream.finished := by
  induction pieces generalizing stream with
  | nil => rfl
  | cons piece pieces ih => simp [passAll, ih, pass]

@[simp]
theorem finish_conditions (stream : TokenStream) :
    stream.finish.conditions = stream.conditions := by
  unfold finish
  split <;> rfl

theorem finish_issues {stream : TokenStream} (unfinished : stream.finished = false) :
    stream.finish.issues = stream.issues ++ stream.conditions.unclosed := by
  simp [finish, unfinished]

/-- Draining a stream that has looked ahead at nothing takes the token that a search
finds and then the others. -/
theorem drain_eq_seek {stream : TokenStream} (found : List Token)
    (empty : stream.lookahead = none) :
    stream.drain found =
      match stream.seek stream.pieces with
      | (none, later) => (found.reverse, later)
      | (some token, later) => later.drain (token :: found) := by
  rw [drain]
  have isRead : stream.read = stream.seek stream.pieces := by simp [read, empty]
  split
  · rename_i later isNext
    rw [isRead.symm.trans isNext]
  · rename_i token later isNext
    rw [isRead.symm.trans isNext]

theorem drain_seek {stream : TokenStream} (found : List Token) (pieces : List Piece)
    (empty : stream.lookahead = none) :
    (match stream.seek pieces with
      | (none, later) => (found.reverse, later)
      | (some token, later) => later.drain (token :: found)) =
      (found.reverse ++ stream.conditions.visibleTokens pieces,
        (stream.passAll pieces).finish) := by
  induction pieces generalizing stream found with
  | nil =>
      rw [Conditions.visibleTokens_nil, List.append_nil]
      rfl
  | cons piece pieces ih =>
      have emptyAfter : (stream.pass piece pieces).lookahead = none := empty
      unfold seek
      cases visible : stream.conditions.visible? piece with
      | none =>
          simp only
          rw [ih found emptyAfter]
          simp [passAll, pass, visible]
      | some token =>
          simp only
          rw [drain_eq_seek _ emptyAfter]
          have later := ih (token :: found) emptyAfter
          simp only [pass] at later ⊢
          rw [later]
          simp [passAll, pass, visible]

/-- A stream that is read to its end shows the visible tokens of its pieces. -/
theorem drain_eq {stream : TokenStream} (found : List Token)
    (empty : stream.lookahead = none) :
    stream.drain found =
      (found.reverse ++ stream.conditions.visibleTokens stream.pieces,
        (stream.passAll stream.pieces).finish) := by
  rw [drain_eq_seek found empty, drain_seek found stream.pieces empty]

/-- Reading a text to its end shows its preprocessed tokens and leaves its symbols and
issues. -/
theorem drain_ofText (source : String) (symbols : SymbolTable) :
    ((ofText source symbols).drain []).1 = (Preprocessed.ofText source symbols).tokens ∧
      ((ofText source symbols).drain []).2.conditions =
        (Conditions.initial symbols).afterAll (Piece.listOfText source) ∧
      ((ofText source symbols).drain []).2.issues =
        (Preprocessed.ofText source symbols).issues := by
  rw [drain_eq [] (rfl : (ofText source symbols).lookahead = none), Preprocessed.ofText,
    Preprocessed.ofPieces_eq]
  have unfinished := passAll_finished (ofText source symbols) (Piece.listOfText source)
  refine ⟨rfl, ?_, ?_⟩
  · rw [finish_conditions, passAll_conditions]
    rfl
  · have issues := finish_issues unfinished
    rw [passAll_issues, passAll_conditions] at issues
    exact issues

end TokenStream

end ObjectIds
