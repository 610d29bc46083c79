import ObjectIds.Proofs.PreprocessedRuns

/-!
# Which conditionals are open

The lines that opened the conditionals around a point depend on the directives before it,
and never on symbols.  They are the `#if` lines that no `#endif` line before that point
closes, where lines close each other in the way of brackets.
-/

namespace ObjectIds

namespace Piece

/-- Whether a piece is an `#if` line. -/
def opens (piece : Piece) : Bool :=
  match piece.directive? with
  | some (.ifDefined _) => true
  | _ => false

/-- Whether a piece is an `#endif` line. -/
def closes (piece : Piece) : Bool :=
  match piece.directive? with
  | some .endIf => true
  | _ => false

theorem closes_eq_false_of_opens {piece : Piece} (isIf : piece.opens = true) :
    piece.closes = false := by
  unfold opens at isIf
  unfold closes
  split at isIf
  · rename_i symbol isDirective
    rw [isDirective]
  · contradiction

end Piece

/-- Pieces whose `#if` and `#endif` lines close each other in pairs. -/
inductive Paired : List Piece → Prop
  | nil : Paired []
  | other {piece : Piece} {rest : List Piece} (noIf : piece.opens = false)
      (noEndIf : piece.closes = false) (later : Paired rest) : Paired (piece :: rest)
  | pair {opening closing : Piece} {body rest : List Piece} (isIf : opening.opens = true)
      (inside : Paired body) (isEndIf : closing.closes = true) (later : Paired rest) :
      Paired (opening :: (body ++ closing :: rest))

/-- An `#if` line is closed in what comes after it by the first `#endif` line that is not
needed to close another `#if` line in between. -/
def ClosedIn (later : List Piece) : Prop :=
  ∃ body closing rest, later = body ++ closing :: rest ∧ Paired body ∧ closing.closes = true

/-- The number of `#endif` lines that close nothing among pieces. -/
def surplus : List Piece → Nat
  | [] => 0
  | piece :: rest =>
      if piece.opens then surplus rest - 1
      else if piece.closes then surplus rest + 1
      else surplus rest

theorem surplus_of_opens {piece : Piece} (isIf : piece.opens = true) (rest : List Piece) :
    surplus (piece :: rest) = surplus rest - 1 := by
  rw [surplus, if_pos isIf]

theorem surplus_of_closes {piece : Piece} (isEndIf : piece.closes = true)
    (rest : List Piece) : surplus (piece :: rest) = surplus rest + 1 := by
  have noIf : piece.opens ≠ true := by
    intro isIf
    simp [Piece.closes_eq_false_of_opens isIf] at isEndIf
  rw [surplus, if_neg noIf, if_pos isEndIf]

theorem surplus_of_other {piece : Piece} (noIf : piece.opens = false)
    (noEndIf : piece.closes = false) (rest : List Piece) :
    surplus (piece :: rest) = surplus rest := by
  simp [surplus, noIf, noEndIf]

/-- Paired lines close nothing else. -/
theorem Paired.surplus_append {pieces : List Piece} (paired : Paired pieces)
    (rest : List Piece) : surplus (pieces ++ rest) = surplus rest := by
  induction paired generalizing rest with
  | nil => rfl
  | other noIf noEndIf later ih => rw [List.cons_append, surplus_of_other noIf noEndIf, ih]
  | pair isIf inside isEndIf later insideIH laterIH =>
      rw [List.cons_append, surplus_of_opens isIf, List.append_assoc, insideIH,
        List.cons_append, surplus_of_closes isEndIf, laterIH, Nat.add_sub_cancel]

/-- The first `#endif` line in surplus comes after paired lines, and one less is in surplus
after it. -/
theorem exists_paired_of_surplus {pieces : List Piece} {count : Nat}
    (more : surplus pieces = count + 1) :
    ∃ body closing rest, pieces = body ++ closing :: rest ∧ Paired body ∧
      closing.closes = true ∧ surplus rest = count := by
  -- Two stretches are cut off one after the other, so the induction is on the length.
  induction size : pieces.length using Nat.strong_induction_on generalizing pieces count with
  | _ bound ih =>
      cases pieces with
      | nil => simp [surplus] at more
      | cons piece rest =>
          have shorter : rest.length < bound := by
            rw [← size, List.length_cons]
            exact Nat.lt_succ_self _
          cases isIf : piece.opens with
          | true =>
              rw [surplus_of_opens isIf] at more
              obtain ⟨inside, closing, between, rfl, insidePaired, isEndIf, left⟩ :=
                ih _ shorter (show surplus rest = count + 1 + 1 by omega) rfl
              rw [List.length_append, List.length_cons] at shorter
              obtain ⟨body, last, later, rfl, paired, isLast, remain⟩ :=
                ih between.length (by omega) left rfl
              exact ⟨piece :: (inside ++ closing :: body), last, later, by simp,
                .pair isIf insidePaired isEndIf paired, isLast, remain⟩
          | false =>
              cases isEndIf : piece.closes with
              | true =>
                  rw [surplus_of_closes isEndIf] at more
                  exact ⟨[], piece, rest, rfl, .nil, isEndIf, Nat.succ.inj more⟩
              | false =>
                  rw [surplus_of_other isIf isEndIf] at more
                  obtain ⟨body, closing, later, rfl, paired, closes, remain⟩ :=
                    ih _ shorter more rfl
                  exact ⟨piece :: body, closing, later, rfl, .other isIf isEndIf paired, closes,
                    remain⟩

theorem closedIn_iff {later : List Piece} : ClosedIn later ↔ 0 < surplus later := by
  constructor
  · rintro ⟨body, closing, rest, rfl, paired, isEndIf⟩
    rw [paired.surplus_append, surplus_of_closes isEndIf]
    omega
  · intro positive
    obtain ⟨count, more⟩ := Nat.exists_eq_succ_of_ne_zero (Nat.ne_of_gt positive)
    obtain ⟨body, closing, rest, isLater, paired, isEndIf, -⟩ := exists_paired_of_surplus more
    exact ⟨body, closing, rest, isLater, paired, isEndIf⟩

instance (later : List Piece) : Decidable (ClosedIn later) :=
  decidable_of_iff' _ closedIn_iff

/-- The `#if` lines among pieces that no later `#endif` line closes. -/
def unclosedLines : List Piece → List Piece
  | [] => []
  | piece :: rest =>
      if piece.opens = true ∧ ¬ClosedIn rest then piece :: unclosedLines rest
      else unclosedLines rest

theorem unclosedLines_of_not_opens {piece : Piece} (noIf : piece.opens = false)
    (rest : List Piece) : unclosedLines (piece :: rest) = unclosedLines rest := by
  simp [unclosedLines, noIf]

namespace Conditions

/-- The lines of the open conditionals, innermost first. -/
def openings (conditions : Conditions) : List Span :=
  conditions.conditionals.map Conditional.opening

theorem unclosed_eq (conditions : Conditions) :
    conditions.unclosed =
      conditions.openings.reverse.map fun line => ⟨.unclosedConditional, line⟩ := by
  simp [unclosed, openings, List.map_reverse]

theorem openings_branch (holds : Bool) (conditionals : List Conditional) :
    (branch holds conditionals).map Conditional.opening =
      conditionals.map Conditional.opening := by
  cases conditionals <;> rfl

/-- A piece opens or closes a conditional whatever symbols are defined. -/
theorem openings_after (conditions : Conditions) (piece : Piece) :
    (conditions.after piece).openings =
      if piece.opens then piece.span :: conditions.openings
      else if piece.closes then conditions.openings.tail
      else conditions.openings := by
  unfold after openings Piece.opens Piece.closes
  cases piece.directive? with
  | none => rfl
  | some directive =>
      cases directive with
      | ifDefined symbol => rfl
      | elseIfDefined symbol => exact openings_branch _ _
      | elseBranch => exact openings_branch _ _
      | endIf => exact List.map_tail
      | define symbol => rfl
      | undefine symbol => rfl
      | other name => rfl

/-- What is noted at a piece does not depend on symbols either. -/
theorem issue?_congr {first second : Conditions} (same : first.openings = second.openings)
    (piece : Piece) : first.issue? piece = second.issue? piece := by
  have sameEmpty : first.conditionals.isEmpty = second.conditionals.isEmpty := by
    have empty := congrArg List.isEmpty same
    rwa [openings, openings, List.isEmpty_map, List.isEmpty_map] at empty
  unfold issue? fault?
  rw [sameEmpty]

theorem metIssues_congr {first second : Conditions}
    (same : first.openings = second.openings) (pieces : List Piece) :
    first.metIssues pieces = second.metIssues pieces ∧
      (first.afterAll pieces).openings = (second.afterAll pieces).openings := by
  induction pieces generalizing first second with
  | nil => exact ⟨rfl, same⟩
  | cons piece pieces ih =>
      have sameAfter : (first.after piece).openings = (second.after piece).openings := by
        rw [openings_after, openings_after, same]
      obtain ⟨sameIssues, sameEnd⟩ := ih sameAfter
      rw [metIssues_cons, metIssues_cons, issue?_congr same, sameIssues]
      exact ⟨rfl, sameEnd⟩

/-- After pieces the open conditionals are those of the pieces that are not closed, around
them those from before that no `#endif` line in surplus closes. -/
theorem openings_afterAll (conditions : Conditions) (pieces : List Piece) :
    (conditions.afterAll pieces).openings =
      ((unclosedLines pieces).map Piece.span).reverse ++
        conditions.openings.drop (surplus pieces) := by
  induction pieces generalizing conditions with
  | nil => rfl
  | cons piece rest ih =>
      rw [afterAll_cons, ih, openings_after]
      cases isIf : piece.opens with
      | true =>
          rw [if_pos rfl, surplus_of_opens isIf, unclosedLines]
          by_cases closed : ClosedIn rest
          · have positive := closedIn_iff.1 closed
            obtain ⟨count, more⟩ := Nat.exists_eq_succ_of_ne_zero (Nat.ne_of_gt positive)
            simp [isIf, closed, more]
          · have noSurplus : surplus rest = 0 := by
              rw [closedIn_iff] at closed
              omega
            simp [isIf, closed, noSurplus]
      | false =>
          rw [if_neg Bool.false_ne_true, unclosedLines_of_not_opens isIf]
          cases isEndIf : piece.closes with
          | true => rw [if_pos rfl, surplus_of_closes isEndIf, List.drop_tail]
          | false => rw [if_neg Bool.false_ne_true, surplus_of_other isIf isEndIf]

theorem openings_afterAll_initial (symbols : SymbolTable) (pieces : List Piece) :
    ((initial symbols).afterAll pieces).openings =
      ((unclosedLines pieces).map Piece.span).reverse := by
  rw [openings_afterAll]
  simp [initial, openings]

end Conditions

end ObjectIds
