import ObjectIds.Proofs.PreprocessedRuns
import ObjectIds.Proofs.Relocation

/-!
# Texts further down

A text that comes after some lines and bytes is cut into the same pieces, each so many lines
and bytes further down.  Preprocessing looks at no place, so what it shows and what it notes
is shifted along and changes in nothing else.
-/

namespace ObjectIds

variable (lines bytes : Nat)

def Position.shift (position : Position) : Position :=
  ⟨position.line + UInt32.ofNat lines, position.column⟩

def Span.shift (span : Span) : Span :=
  ⟨span.start + UInt32.ofNat bytes, span.stop + UInt32.ofNat bytes⟩

def Place.shift (place : Place) : Place :=
  ⟨place.line + lines, place.column, place.offset + bytes⟩

def Token.shift (token : Token) : Token :=
  token.relocate (Position.shift lines) (Span.shift bytes)

def Declaration.shift (declaration : Declaration) : Declaration :=
  declaration.relocate (Position.shift lines) (Span.shift bytes)

def Issue.shift (issue : Issue) : Issue := { issue with span := issue.span.shift bytes }

def Piece.shift (piece : Piece) : Piece :=
  { piece with start := piece.start.shift lines bytes }

def Conditional.shift (conditional : Conditional) : Conditional :=
  { conditional with opening := conditional.opening.shift bytes }

def Conditions.shift (conditions : Conditions) : Conditions :=
  { conditions with conditionals := conditions.conditionals.map (Conditional.shift bytes) }

def Preprocessed.shift (text : Preprocessed) : Preprocessed :=
  ⟨text.tokens.map (Token.shift lines bytes), text.symbols, text.issues.map (Issue.shift bytes)⟩

theorem Position.shift_line_iff (first second : Position) :
    (first.shift lines).line = (second.shift lines).line ↔ first.line = second.line := by
  exact UInt32.add_left_inj _

namespace Place

theorem shift_step (place : Place) (character : Char) :
    (place.shift lines bytes).step character = (place.step character).shift lines bytes := by
  unfold step shift
  split <;> simp [Nat.add_right_comm]

theorem shift_advance (place : Place) (text : List Char) :
    (place.shift lines bytes).advance text = (place.advance text).shift lines bytes := by
  induction text generalizing place with
  | nil => rfl
  | cons character text ih => rw [advance_cons, shift_step, ih, advance_cons]

theorem shift_position (place : Place) :
    (place.shift lines bytes).position = place.position.shift lines := by
  simp [position, shift, Position.shift, UInt32.ofNat_add]

theorem shift_spanTo (first last : Place) :
    (first.shift lines bytes).spanTo (last.shift lines bytes) =
      (first.spanTo last).shift bytes := by
  simp [spanTo, shift, Span.shift, UInt32.ofNat_add]

end Place

namespace Piece

/-- A text further down is cut into pieces further down. -/
theorem listFrom_shift (place : Place) (text : List Char) :
    listFrom (place.shift lines bytes) text =
      (listFrom place text).map (Piece.shift lines bytes) := by
  induction place, text using cutInduction with
  | nil place => simp
  | piece place shape text rest fits ih =>
      rw [listFrom_append _ fits, listFrom_append _ fits, Place.shift_advance, ih]
      rfl

theorem lexemesFrom_shift (place : Place) (text : List Char) :
    lexemesFrom (place.shift lines bytes) text =
      (lexemesFrom place text).map (Piece.shift lines bytes) := by
  rw [lexemesFrom, lexemesFrom, listFrom_shift, List.filter_map]
  rfl

theorem span_shift (piece : Piece) :
    (piece.shift lines bytes).span = piece.span.shift bytes := by
  unfold span stop Piece.shift
  rw [Place.shift_advance, Place.shift_spanTo]

theorem directive?_shift (piece : Piece) :
    (piece.shift lines bytes).directive? = piece.directive? := rfl

theorem token?_shift (piece : Piece) :
    (piece.shift lines bytes).token? = piece.token?.map (Token.shift lines bytes) := by
  have span := span_shift lines bytes piece
  obtain ⟨shape, text, start⟩ := piece
  cases shape with
  | token kind closed =>
      simp only [token?, span]
      simp [Piece.shift, Token.shift, Token.relocate, Place.shift_position]
  | spacing | lineComment | blockComment _ | directive => rfl

end Piece

namespace Conditions

theorem branch_map_shift (holds : Bool) (conditionals : List Conditional) :
    branch holds (conditionals.map (Conditional.shift bytes)) =
      (branch holds conditionals).map (Conditional.shift bytes) := by
  cases conditionals <;> rfl

theorem after_shift (conditions : Conditions) (piece : Piece) :
    (conditions.shift bytes).after (piece.shift lines bytes) =
      (conditions.after piece).shift bytes := by
  unfold after
  rw [Piece.directive?_shift, Piece.span_shift]
  cases piece.directive? with
  | none => rfl
  | some directive =>
      cases directive with
      | elseIfDefined symbol => simp [apply, shift, branch_map_shift]
      | elseBranch => simp [apply, shift, branch_map_shift]
      | endIf => simp [apply, shift, List.map_tail]
      | _ => rfl

theorem visible?_shift (conditions : Conditions) (piece : Piece) :
    (conditions.shift bytes).visible? (piece.shift lines bytes) =
      (conditions.visible? piece).map (Token.shift lines bytes) := by
  have sameVisible : (conditions.shift bytes).isVisible = conditions.isVisible := by
    simp only [isVisible, shift, List.all_map]
    rfl
  rw [visible?, visible?, sameVisible, Piece.token?_shift]
  split <;> rfl

theorem issue?_shift (conditions : Conditions) (piece : Piece) :
    (conditions.shift bytes).issue? (piece.shift lines bytes) =
      (conditions.issue? piece).map (Issue.shift bytes) := by
  have sameEmpty : (conditions.shift bytes).conditionals.isEmpty =
      conditions.conditionals.isEmpty := List.isEmpty_map
  have sameFault : (piece.shift lines bytes).fault? = piece.fault? := rfl
  unfold issue? fault?
  rw [sameEmpty, sameFault, Piece.directive?_shift, Piece.span_shift, Option.map_map]
  rfl

theorem unclosed_shift (conditions : Conditions) :
    (conditions.shift bytes).unclosed = conditions.unclosed.map (Issue.shift bytes) := by
  simp [unclosed, shift, Conditional.shift, Issue.shift, ← List.map_reverse]

end Conditions

namespace Preprocessed

/-- What is left of pieces further down is further down. -/
theorem ofPieces_shift (conditions : Conditions) (pieces : List Piece) :
    ofPieces (conditions.shift bytes) (pieces.map (Piece.shift lines bytes)) =
      (ofPieces conditions pieces).shift lines bytes := by
  induction pieces generalizing conditions with
  | nil =>
      rw [List.map_nil, ofPieces_nil, ofPieces_nil, Conditions.unclosed_shift]
      rfl
  | cons piece pieces ih =>
      rw [List.map_cons, ofPieces_cons, ofPieces_cons, Conditions.after_shift, ih,
        Conditions.visible?_shift, Conditions.issue?_shift]
      simp [shift, Option.toList_map]

end Preprocessed

end ObjectIds
