import ObjectIds.Proofs.BlankedText
import ObjectIds.Proofs.OpaqueBodies
import ObjectIds.Proofs.QuotedTokens

/-!
# Tokens with spaces between them

The visible tokens of a source, written one after the other with a single space between them,
are a source of their own, without comments, directives and hidden branches.  Cutting it gives
the same tokens again.  Each of them ends before a space as well as where it stood, and one
that is not terminated runs to the end of its source, so that no token comes after it.
-/

namespace ObjectIds

namespace Token

/-- The texts of tokens with a single space between them. -/
def spaced (tokens : List Token) : String := " ".intercalate (tokens.map text)

/-- What a token is and means, wherever it stands. -/
def content (token : Token) : Kind × String × String := (token.kind, token.text, token.value)

/-- A quoted token without the delimiter at its end, and what is wrong with it. -/
def Unterminated (token : Token) (cause : Issue.Cause) : Prop :=
  ∃ delimiter value, token.kind.Quoted delimiter cause ∧
    token.text.toList = delimiter :: Text.quote delimiter value

/-- Issues that note the last token if it is not terminated, and nothing else. -/
def NotedAtEnd (tokens : List Token) (issues : List Issue) : Prop :=
  (∃ last cause, tokens.getLast? = some last ∧ last.Unterminated cause ∧
      issues.map Issue.cause = [cause]) ∨
    (∀ last ∈ tokens.getLast?, ∀ cause, ¬last.Unterminated cause) ∧ issues = []

/-- Tokens that can be told apart when they are written with spaces between them: only the
last may fail to be terminated. -/
inductive Separable : List Token → Prop
  | nil : Separable []
  | unterminated {token : Token}
      (fits : Piece.Fits (.token token.kind false) token.text.toList none) :
      Separable [token]
  | cons {token : Token} {others : List Token}
      (fits : Piece.Fits (.token token.kind true) token.text.toList none)
      (later : Separable others) : Separable (token :: others)

section Fits

variable {token : Token}

theorem not_unterminated_of_fits {next : Option Char} {cause : Issue.Cause}
    (fits : Piece.Fits (.token token.kind true) token.text.toList next) :
    ¬token.Unterminated cause := by
  rintro ⟨delimiter, value, quoted, isText⟩
  rw [isText] at fits
  have isOpen := Piece.closed_eq_false_of_quote quoted.delimits fits
  contradiction

theorem exists_unterminated_of_fits {next : Option Char}
    (fits : Piece.Fits (.token token.kind false) token.text.toList next) :
    ∃ cause, token.Unterminated cause ∧ Issue.Cause.ofUnterminated? token.kind = some cause := by
  obtain ⟨kind, text, position, span⟩ := token
  generalize isText : text.toList = characters at fits
  cases fits with
  | @openQuote _ delimiter value delimits =>
      cases kind with
      | string =>
          cases delimits
          exact ⟨.unterminatedString, ⟨'\'', value, .string, isText⟩, rfl⟩
      | quotedIdentifier =>
          cases delimits
          exact ⟨.unterminatedQuotedIdentifier, ⟨'"', value, .quotedIdentifier, isText⟩, rfl⟩
      | word | number | symbol => contradiction

end Fits

/-- A piece with the kind and text of a token is a token that says the same. -/
theorem content_filterMap_cons (token : Token) (closed : Bool) (place : Place)
    (pieces : List Piece) :
    ((⟨.token token.kind closed, token.text.toList, place⟩ :: pieces).filterMap
        Piece.token?).map content =
      token.content :: (pieces.filterMap Piece.token?).map content := by
  simp [Piece.token?, content, value]

theorem spaced_cons_cons (first second : Token) (others : List Token) :
    (spaced (first :: second :: others)).toList =
      first.text.toList ++ ([' '] ++ (spaced (second :: others)).toList) := by
  rw [spaced, List.map_cons, List.map_cons, String.intercalate_cons_cons,
    String.toList_append, String.toList_append, List.append_assoc]
  rfl

/-- A token by itself is cut as it is. -/
theorem lexemesFrom_spaced_singleton {token : Token} {closed : Bool} (place : Place)
    (fits : Piece.Fits (.token token.kind closed) token.text.toList none) :
    Piece.lexemesFrom place (spaced [token]).toList =
      [⟨.token token.kind closed, token.text.toList, place⟩] := by
  have cut : Piece.lexemesFrom place (token.text.toList ++ []) =
      ⟨.token token.kind closed, token.text.toList, place⟩ ::
        Piece.lexemesFrom (place.advance token.text.toList) [] :=
    Piece.lexemesFrom_token place fits
  rw [List.append_nil, Piece.lexemesFrom_nil] at cut
  rw [spaced, List.map_singleton, String.intercalate_singleton, cut]

namespace Separable

variable {tokens : List Token}

/-- Separable tokens with spaces between them are cut as they are, with a fault only where the
last of them is not terminated. -/
theorem lexemesFrom_spaced (separable : Separable tokens) (place : Place) :
    let pieces := Piece.lexemesFrom place (spaced tokens).toList
    (∀ piece ∈ pieces, piece.directive? = none) ∧
      (pieces.filterMap Piece.token?).map content = tokens.map content ∧
      NotedAtEnd tokens (pieces.filterMap Piece.faultNote?) := by
  induction separable generalizing place with
  | nil =>
      have noPieces : Piece.lexemesFrom place (spaced []).toList = [] :=
        Piece.lexemesFrom_nil place
      rw [noPieces]
      exact ⟨by simp, rfl, .inr ⟨by simp, rfl⟩⟩
  | @unterminated token fits =>
      obtain ⟨cause, unterminated, isCause⟩ := exists_unterminated_of_fits fits
      rw [lexemesFrom_spaced_singleton place fits]
      refine ⟨by simp [Piece.directive?], ?_, .inl ⟨token, cause, rfl, unterminated, ?_⟩⟩
      · exact content_filterMap_cons token false place []
      · simp [Piece.faultNote?, Piece.fault?, isCause]
  | @cons token others fits later ih =>
      cases others with
      | nil =>
          rw [lexemesFrom_spaced_singleton place fits]
          refine ⟨by simp [Piece.directive?], ?_, .inr ⟨?_, ?_⟩⟩
          · exact content_filterMap_cons token true place []
          · rintro last ⟨⟩ cause
            exact not_unterminated_of_fits fits
          · simp [Piece.faultNote?, Piece.fault?]
      | cons second others =>
          have space : ∀ character ∈ [' '], Text.isSpacing character = true :=
            List.forall_mem_singleton.2 (by decide)
          have fitsThere : Piece.Fits (.token token.kind true) token.text.toList
              ([' '] ++ (spaced (second :: others)).toList).head? :=
            fits.token_before_spacing (space ' ' List.mem_cons_self)
          rw [spaced_cons_cons, Piece.lexemesFrom_token place fitsThere,
            Piece.lexemesFrom_spacing _ _ space]
          obtain ⟨noDirectives, sameContents, noted⟩ :=
            ih ((place.advance token.text.toList).advance [' '])
          refine ⟨List.forall_mem_cons.2 ⟨rfl, noDirectives⟩, ?_, noted⟩
          rw [content_filterMap_cons, sameContents]
          rfl

/-- The visible tokens of a text are separable: a token that is not terminated is the last
piece of the text. -/
theorem visibleTokens (place : Place) (text : List Char) (conditions : Conditions) :
    Separable (conditions.visibleTokens (Piece.listFrom place text)) := by
  induction place, text using Piece.cutInduction generalizing conditions with
  | nil place =>
      rw [Piece.listFrom_nil]
      exact .nil
  | piece place shape text rest fits ih =>
      rw [Piece.listFrom_append place fits, Conditions.visibleTokens_cons]
      cases visible : conditions.visible? ⟨shape, text, place⟩ with
      | none => exact ih _
      | some token =>
          obtain ⟨kind, closed, rfl, rfl⟩ := conditions.shape_of_visible? visible
          cases closed with
          | true =>
              refine .cons ?_ (ih _)
              rw [String.toList_ofList]
              exact fits.at_end
          | false =>
              have atEnd : rest = [] := by
                generalize isNext : rest.head? = next at fits
                cases fits with
                | openQuote delimits => exact List.head?_eq_none_iff.1 isNext
              rw [atEnd, Piece.listFrom_nil]
              refine .unterminated ?_
              rw [String.toList_ofList]
              exact fits.at_end

end Separable

end Token

/-- The visible tokens of a source, written with a single space between them and read again
with no symbols defined, are the same tokens.  The only thing that can be noted about them is
that the last of them is not terminated, and this is noted exactly when it is so. -/
theorem spaced_tokens_read_again (source : String) (symbols : SymbolTable) :
    let shown := ((TokenStream.ofText source symbols).drain []).1
    let again := (TokenStream.ofText (Token.spaced shown) .empty).drain []
    again.1.map Token.content = shown.map Token.content ∧
      Token.NotedAtEnd shown again.2.issues := by
  intro shown again
  obtain ⟨isAgain, -, isIssues⟩ := TokenStream.drain_ofText (Token.spaced shown) .empty
  have isShown : shown = (Conditions.initial symbols).visibleTokens
      (Piece.listFrom Place.start source.toList) := by
    refine (TokenStream.drain_ofText source symbols).1.trans ?_
    rw [Preprocessed.ofText, Preprocessed.ofPieces_eq, Piece.listOfText_eq]
  have separable : Token.Separable shown :=
    isShown ▸ Token.Separable.visibleTokens Place.start source.toList _
  obtain ⟨noDirectives, sameContents, noted⟩ := separable.lexemesFrom_spaced Place.start
  rw [Preprocessed.ofText_eq_ofPieces_lexemesFrom, Preprocessed.ofPieces_eq] at isAgain isIssues
  rw [Conditions.visibleTokens_of_no_directives rfl noDirectives] at isAgain
  rw [Conditions.metIssues_of_no_directives noDirectives,
    Conditions.afterAll_of_no_directives _ noDirectives] at isIssues
  constructor
  · rw [isAgain]
    exact sameContents
  · rw [isIssues]
    exact (List.append_nil _).symm ▸ noted

-- The operators stay apart, the comment is gone, and the last name stays open.
example : Token.spaced (Token.listOfText "a/ /b//c\n:: =\"d\"\"") = "a / / b :: = \"d\"\"" := by
  decide +kernel

end ObjectIds
