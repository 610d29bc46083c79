import ObjectIds.Proofs.PreprocessedRuns
import ObjectIds.Proofs.Relocation

/-!
# Bodies that a scan skips

A scan skips the body of an object up to the brace that closes it.  When the braces in a
text are balanced, skipping passes over the text and stops at the brace after it.  What a
text is cut into does not depend on where it stands, so a body may be written anywhere.
-/

namespace ObjectIds

namespace Token

/-- The number of braces that tokens open. -/
def opened (tokens : List Token) : Nat := tokens.countP (·.isSymbol "\x7b")

def closed (tokens : List Token) : Nat := tokens.countP (·.isSymbol "\x7d")

/-- At every point at most as many braces have been closed as opened, and at the end as
many. -/
structure Balanced (tokens : List Token) : Prop where
  closed_le : ∀ count, closed (tokens.take count) ≤ opened (tokens.take count)
  closed_eq : closed tokens = opened tokens

/-- Balance has to be looked at only as far as there are tokens. -/
theorem balanced_iff {tokens : List Token} :
    Balanced tokens ↔
      (∀ count < tokens.length, closed (tokens.take count) ≤ opened (tokens.take count)) ∧
        closed tokens = opened tokens := by
  constructor
  · intro balanced
    exact ⟨fun count _ => balanced.closed_le count, balanced.closed_eq⟩
  · rintro ⟨inside, atEnd⟩
    refine ⟨fun count => ?_, atEnd⟩
    rcases Nat.lt_or_ge count tokens.length with isInside | isBeyond
    · exact inside count isInside
    · rw [List.take_of_length_le isBeyond]
      exact atEnd.le

instance (tokens : List Token) : Decidable (Balanced tokens) :=
  decidable_of_iff' _ balanced_iff

theorem not_closing_of_opening {token : Token} (opens : token.isSymbol "\x7b" = true) :
    token.isSymbol "\x7d" = false := by
  unfold isSymbol at *
  have isBrace : token.text = "\x7b" := by simpa using (Bool.and_eq_true_iff.1 opens).2
  simp [isBrace]

theorem opened_cons (token : Token) (tokens : List Token) :
    opened (token :: tokens) = opened tokens + if token.isSymbol "\x7b" then 1 else 0 :=
  List.countP_cons

theorem closed_cons (token : Token) (tokens : List Token) :
    closed (token :: tokens) = closed tokens + if token.isSymbol "\x7d" then 1 else 0 :=
  List.countP_cons

/-- Balance does not depend on where the tokens stand. -/
theorem Balanced.of_relocate_eq {tokens others : List Token} {move : Position → Position}
    {mapSpan : Span → Span} (balanced : Balanced tokens)
    (same : tokens.map (relocate move mapSpan) = others.map (relocate move mapSpan)) :
    Balanced others := by
  have openedEq (tokens : List Token) :
      opened (tokens.map (relocate move mapSpan)) = opened tokens := List.countP_map
  have closedEq (tokens : List Token) :
      closed (tokens.map (relocate move mapSpan)) = closed tokens := List.countP_map
  refine ⟨fun count => ?_, ?_⟩
  · have bound := balanced.closed_le count
    rwa [← openedEq, ← closedEq, List.map_take, same, ← List.map_take, openedEq,
      closedEq] at bound
  · have total := balanced.closed_eq
    rwa [← openedEq, ← closedEq, same, openedEq, closedEq] at total

end Token

namespace Header

theorem skipToClosing_of_opening {token : Token} (opens : token.isSymbol "\x7b" = true)
    (depth : Nat) (rest : List Token) :
    skipToClosing depth (token :: rest) = skipToClosing (depth + 1) rest := by
  simp [skipToClosing, opens]

theorem skipToClosing_of_closing {token : Token} (closes : token.isSymbol "\x7d" = true)
    (depth : Nat) (rest : List Token) :
    skipToClosing (depth + 1) (token :: rest) = skipToClosing depth rest ∧
      skipToClosing 0 (token :: rest) = (true, rest) := by
  have noOpening : token.isSymbol "\x7b" = false := by
    cases opens : token.isSymbol "\x7b" with
    | false => rfl
    | true => simp [Token.not_closing_of_opening opens] at closes
  constructor
  · simp [skipToClosing, noOpening, closes]
  · simp [skipToClosing, noOpening, closes]

theorem skipToClosing_of_neither {token : Token} (noOpening : token.isSymbol "\x7b" = false)
    (noClosing : token.isSymbol "\x7d" = false) (depth : Nat) (rest : List Token) :
    skipToClosing depth (token :: rest) = skipToClosing depth rest := by
  simp [skipToClosing, noOpening, noClosing]

/-- Skipping passes over tokens that close at most the open braces at every point. -/
theorem skipToClosing_append {depth : Nat} {tokens : List Token} (rest : List Token)
    (enough : ∀ count,
      Token.closed (tokens.take count) ≤ depth + Token.opened (tokens.take count)) :
    skipToClosing depth (tokens ++ rest) =
      skipToClosing (depth + Token.opened tokens - Token.closed tokens) rest := by
  induction tokens generalizing depth with
  | nil => rfl
  | cons token tokens ih =>
      have later (count : Nat) := enough (count + 1)
      simp only [List.take_succ_cons, Token.closed_cons, Token.opened_cons] at later
      rw [List.cons_append, Token.opened_cons, Token.closed_cons]
      cases opens : token.isSymbol "\x7b" with
      | true =>
          have noClosing := Token.not_closing_of_opening opens
          simp only [opens, noClosing] at later ⊢
          have enoughLater (count : Nat) : Token.closed (tokens.take count) ≤
              depth + 1 + Token.opened (tokens.take count) := by
            have bound := later count
            simp only [if_pos, Bool.false_eq_true, if_false] at bound
            omega
          rw [skipToClosing_of_opening opens, ih enoughLater]
          congr 1
          simp only [if_pos, Bool.false_eq_true, if_false]
          omega
      | false =>
          cases closes : token.isSymbol "\x7d" with
          | true =>
              simp only [opens, closes, if_pos, Bool.false_eq_true, if_false] at later ⊢
              -- The brace itself is a prefix of the tokens, so some brace is open before it.
              have first := later 0
              simp only [List.take_zero] at first
              have isOpen : depth ≠ 0 := by
                rintro rfl
                simp [Token.closed, Token.opened] at first
              obtain ⟨outer, rfl⟩ := Nat.exists_eq_succ_of_ne_zero isOpen
              have enoughLater (count : Nat) : Token.closed (tokens.take count) ≤
                  outer + Token.opened (tokens.take count) := by
                have bound := later count
                omega
              rw [(skipToClosing_of_closing closes outer _).1, ih enoughLater]
              congr 1
              omega
          | false =>
              simp only [opens, closes, Bool.false_eq_true, if_false] at later ⊢
              rw [skipToClosing_of_neither opens closes, ih later]
              rfl

/-- Skipping passes over balanced tokens and the brace after them. -/
theorem skipToClosing_balanced {tokens : List Token} {brace : Token} (rest : List Token)
    (balanced : Token.Balanced tokens) (closes : brace.isSymbol "\x7d" = true) :
    skipToClosing 0 (tokens ++ brace :: rest) = (true, rest) := by
  have enough (count : Nat) :
      Token.closed (tokens.take count) ≤ 0 + Token.opened (tokens.take count) := by
    rw [Nat.zero_add]
    exact balanced.closed_le count
  rw [skipToClosing_append _ enough, balanced.closed_eq, Nat.zero_add, Nat.sub_self]
  exact (skipToClosing_of_closing closes 0 rest).2

end Header

namespace Piece

def moveToStart (piece : Piece) : Piece := { piece with start := .start }

/-- A text is cut into the same pieces wherever it stands. -/
theorem moveToStart_listFrom (place other : Place) (text : List Char) :
    (listFrom place text).map moveToStart = (listFrom other text).map moveToStart := by
  induction place, text using cutInduction generalizing other with
  | nil place => simp
  | piece place shape text rest fits ih =>
      rw [listFrom_append place fits, listFrom_append other fits, List.map_cons,
        List.map_cons, ih (other.advance text)]
      rfl

/-- What holds of the pieces of a text at one place holds of them at every other, as long
as it does not speak of places. -/
theorem forall_listFrom {holds : Piece → Prop} {place : Place} {text : List Char}
    (placeless : ∀ piece : Piece, holds piece ↔ holds piece.moveToStart)
    (everywhere : ∀ piece ∈ listFrom place text, holds piece) (other : Place) :
    ∀ piece ∈ listFrom other text, holds piece := by
  intro piece member
  have moved := List.mem_map_of_mem (f := moveToStart) member
  rw [moveToStart_listFrom other place text] at moved
  obtain ⟨same, isThere, samePiece⟩ := List.mem_map.1 moved
  rw [placeless, ← samePiece, ← placeless]
  exact everywhere same isThere

/-- The tokens of a text, without where they stand, are the same wherever it stands. -/
theorem tokens_listFrom (place other : Place) (text : List Char) :
    ((listFrom place text).filterMap token?).map
        (Token.relocate (fun _ => .origin) fun _ => .nowhere) =
      ((listFrom other text).filterMap token?).map
        (Token.relocate (fun _ => .origin) fun _ => .nowhere) := by
  have moved (piece : Piece) :
      piece.token?.map (Token.relocate (fun _ => .origin) fun _ => .nowhere) =
        piece.moveToStart.token?.map
          (Token.relocate (fun _ => .origin) fun _ => .nowhere) := by
    obtain ⟨shape, text, start⟩ := piece
    cases shape <;> rfl
  have asMoved (pieces : List Piece) :
      (pieces.filterMap token?).map (Token.relocate (fun _ => .origin) fun _ => .nowhere) =
        (pieces.map moveToStart).filterMap fun piece =>
          piece.token?.map (Token.relocate (fun _ => .origin) fun _ => .nowhere) := by
    rw [List.map_filterMap, List.filterMap_map]
    exact congrArg (List.filterMap · pieces) (funext moved)
  rw [asMoved, asMoved, moveToStart_listFrom place other text]

theorem isClosed_of_fault? {place : Place} {text : List Char} {piece : Piece}
    (member : piece ∈ listFrom place text) (noFault : piece.fault? = none) :
    piece.shape.isClosed = true := by
  induction place, text using cutInduction with
  | nil place => simp at member
  | piece place shape text rest fits ih =>
      rw [listFrom_append place fits] at member
      rcases List.mem_cons.1 member with rfl | later
      · generalize rest.head? = next at fits
        cases fits with
        | openComment inside => contradiction
        | @openQuote kind delimiter value delimits =>
            cases kind <;> contradiction
        | _ => rfl
      · exact ih later

end Piece

namespace Conditions

/-- Pieces that are no directives are at fault where they are at fault by themselves. -/
theorem metIssues_of_no_directives {conditions : Conditions} {pieces : List Piece}
    (noDirectives : ∀ piece ∈ pieces, piece.directive? = none) :
    conditions.metIssues pieces =
      pieces.filterMap fun piece => piece.fault?.map (⟨·, piece.span⟩) := by
  induction pieces with
  | nil => rfl
  | cons piece pieces ih =>
      obtain ⟨noDirective, noneLater⟩ := List.forall_mem_cons.1 noDirectives
      rw [metIssues_cons, conditions.after_of_no_directive noDirective, ih noneLater, issue?,
        noDirective]
      cases isFault : piece.fault? <;> simp [isFault]

end Conditions

/-- A text that can be the body of an object: nothing in it is a directive or an issue,
and its braces are balanced. -/
structure IsBody (body : String) : Prop where
  noDirective : ∀ piece ∈ Piece.listOfText body, piece.directive? = none
  noIssue : (Preprocessed.ofText body .empty).issues = []
  balanced : Token.Balanced (Token.listOfText body)

instance (body : String) : Decidable (IsBody body) :=
  decidable_of_iff
    ((∀ piece ∈ Piece.listOfText body, piece.directive? = none) ∧
      (Preprocessed.ofText body .empty).issues = [] ∧
        Token.Balanced (Token.listOfText body))
    ⟨fun ⟨noDirective, noIssue, balanced⟩ => ⟨noDirective, noIssue, balanced⟩,
      fun isBody => ⟨isBody.noDirective, isBody.noIssue, isBody.balanced⟩⟩

namespace IsBody

variable {body : String} (isBody : IsBody body) (place : Place)

include isBody

theorem directive?_eq_none :
    ∀ piece ∈ Piece.listFrom place body.toList, piece.directive? = none :=
  Piece.forall_listFrom (fun _ => Iff.rfl) isBody.noDirective place

theorem fault?_eq_none :
    ∀ piece ∈ Piece.listFrom place body.toList, piece.fault? = none := by
  have noIssue := isBody.noIssue
  rw [Preprocessed.ofText, Preprocessed.ofPieces_eq,
    Conditions.metIssues_of_no_directives isBody.noDirective] at noIssue
  have noFault := List.filterMap_eq_nil_iff.1 (List.append_eq_nil_iff.1 noIssue).1
  have atStart : ∀ piece ∈ Piece.listFrom .start body.toList, piece.fault? = none :=
    fun piece member => by simpa using noFault piece member
  exact Piece.forall_listFrom (fun _ => Iff.rfl) atStart place

theorem isClosed :
    ∀ piece ∈ Piece.listFrom place body.toList, piece.shape.isClosed = true :=
  fun piece member => Piece.isClosed_of_fault? member (isBody.fault?_eq_none place piece member)

/-- The tokens of a body are balanced wherever the body stands. -/
theorem balanced_tokens :
    Token.Balanced ((Piece.listFrom place body.toList).filterMap Piece.token?) := by
  have visible : Token.listOfText body =
      (Piece.listFrom .start body.toList).filterMap Piece.token? := by
    rw [Token.listOfText, Preprocessed.ofText, Preprocessed.ofPieces_eq,
      Conditions.visibleTokens_of_no_directives rfl isBody.noDirective, Piece.listOfText_eq]
  have balanced := isBody.balanced
  rw [visible] at balanced
  exact balanced.of_relocate_eq (Piece.tokens_listFrom .start place body.toList)

end IsBody

end ObjectIds
