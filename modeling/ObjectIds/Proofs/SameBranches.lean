import Mathlib.Data.List.Forall2
import ObjectIds.Proofs.PreprocessedRuns

/-!
# Pieces that act alike

A run sees of a piece whether it is a directive, whether it is a token and what is wrong with
it.  Where two lists of pieces agree in this, a run over one and a run over the other go
through the same branches.  The lines on which conditionals were opened may differ, so the
issues agree in their causes only.
-/

namespace ObjectIds

/-- A piece that is the same directive as another one, or an alike token, or neither, and with
which the same is wrong. -/
structure Piece.ActsLike (alike : Token → Token → Prop) (old new : Piece) : Prop where
  directive?_eq : new.directive? = old.directive?
  fault?_eq : new.fault? = old.fault?
  tokens : List.Forall₂ alike old.token?.toList new.token?.toList

theorem Token.map_eq_of_forall₂ {View : Type} {view : Token → View} {tokens others : List Token}
    (same : List.Forall₂ (fun old new => view old = view new) tokens others) :
    others.map view = tokens.map view := by
  induction same with
  | nil => rfl
  | cons sameToken later ih => rw [List.map_cons, List.map_cons, sameToken, ih]

/-- Conditionals that are at the same branch, perhaps opened on different lines. -/
structure Conditional.SameBranch (old new : Conditional) : Prop where
  satisfied_eq : new.satisfied = old.satisfied
  chosen_eq : new.chosen = old.chosen

namespace Conditions

theorem sameBranch_branch {conditionals others : List Conditional}
    (same : List.Forall₂ Conditional.SameBranch conditionals others) (holds : Bool) :
    List.Forall₂ Conditional.SameBranch (branch holds conditionals) (branch holds others) := by
  cases same with
  | nil => exact .nil
  | cons sameBranch sameOthers =>
      obtain ⟨satisfiedEq, chosenEq⟩ := sameBranch
      exact .cons ⟨by simp [Conditional.branch, chosenEq],
        by simp [Conditional.branch, chosenEq]⟩ sameOthers

/-- Conditions with the same symbols, in conditionals that are at the same branches. -/
structure SameBranches (first second : Conditions) : Prop where
  symbols_eq : second.symbols = first.symbols
  conditionals : List.Forall₂ Conditional.SameBranch first.conditionals second.conditionals

namespace SameBranches

variable {alike : Token → Token → Prop} {first second : Conditions} {old new : Piece}

theorem initial (symbols : SymbolTable) :
    SameBranches (Conditions.initial symbols) (Conditions.initial symbols) := ⟨rfl, .nil⟩

theorem isVisible_eq (same : SameBranches first second) :
    second.isVisible = first.isVisible := by
  have sameAll {conditionals others : List Conditional}
      (same : List.Forall₂ Conditional.SameBranch conditionals others) :
      others.all Conditional.satisfied = conditionals.all Conditional.satisfied := by
    induction same with
    | nil => rfl
    | cons sameBranch sameOthers ih =>
        rw [List.all_cons, List.all_cons, sameBranch.satisfied_eq, ih]
  exact sameAll same.conditionals

theorem isEmpty_eq (same : SameBranches first second) :
    second.conditionals.isEmpty = first.conditionals.isEmpty := by
  rw [Bool.eq_iff_iff, List.isEmpty_iff_length_eq_zero, List.isEmpty_iff_length_eq_zero,
    same.conditionals.length_eq]

theorem after (same : SameBranches first second)
    (sameDirective : new.directive? = old.directive?) :
    SameBranches (first.after old) (second.after new) := by
  obtain ⟨symbols, conditionals⟩ := first
  obtain ⟨newSymbols, others⟩ := second
  obtain ⟨symbolsEq, sameAll⟩ := same
  obtain rfl : newSymbols = symbols := symbolsEq
  unfold Conditions.after
  rw [sameDirective]
  cases old.directive? with
  | none => exact ⟨rfl, sameAll⟩
  | some directive =>
      cases directive with
      | ifDefined symbol => exact ⟨rfl, .cons ⟨rfl, rfl⟩ sameAll⟩
      | elseIfDefined symbol => exact ⟨rfl, sameBranch_branch sameAll _⟩
      | elseBranch => exact ⟨rfl, sameBranch_branch sameAll true⟩
      | endIf =>
          refine ⟨rfl, ?_⟩
          cases sameAll with
          | nil => exact .nil
          | cons sameBranch sameOthers => exact sameOthers
      | define symbol => exact ⟨rfl, sameAll⟩
      | undefine symbol => exact ⟨rfl, sameAll⟩
      | other name => exact ⟨rfl, sameAll⟩

theorem cause_issue?_eq (same : SameBranches first second) (acts : old.ActsLike alike new) :
    (second.issue? new).map Issue.cause = (first.issue? old).map Issue.cause := by
  unfold issue? fault?
  rw [acts.directive?_eq, acts.fault?_eq, same.isEmpty_eq, Option.map_map, Option.map_map]
  rfl

theorem visible?_alike (same : SameBranches first second) (acts : old.ActsLike alike new) :
    List.Forall₂ alike (first.visible? old).toList (second.visible? new).toList := by
  rw [visible?, visible?, same.isVisible_eq]
  split
  · exact acts.tokens
  · exact .nil

theorem cause_unclosed_eq (same : SameBranches first second) :
    second.unclosed.map Issue.cause = first.unclosed.map Issue.cause := by
  have lengthEq := same.conditionals.length_eq
  simp [unclosed, List.map_const', Function.comp_def, lengthEq]

/-- Pieces that act alike show alike tokens, note the same issues and leave the same
symbols. -/
theorem run_actsLike {pieces others : List Piece} (same : SameBranches first second)
    (act : List.Forall₂ (Piece.ActsLike alike) pieces others) :
    List.Forall₂ alike (first.visibleTokens pieces) (second.visibleTokens others) ∧
      (second.metIssues others).map Issue.cause = (first.metIssues pieces).map Issue.cause ∧
      SameBranches (first.afterAll pieces) (second.afterAll others) := by
  induction act generalizing first second with
  | nil => exact ⟨.nil, rfl, same⟩
  | cons acts later ih =>
      obtain ⟨tokensAlike, causesEq, sameEnd⟩ := ih (same.after acts.directive?_eq)
      refine ⟨List.rel_append (same.visible?_alike acts) tokensAlike, ?_, sameEnd⟩
      rw [metIssues_cons, metIssues_cons, List.map_append, List.map_append, causesEq,
        ← Option.toList_map, ← Option.toList_map, same.cause_issue?_eq acts]

end SameBranches

end Conditions

theorem Preprocessed.ofPieces_actsLike {alike : Token → Token → Prop}
    {first second : Conditions} (same : first.SameBranches second) {pieces others : List Piece}
    (act : List.Forall₂ (Piece.ActsLike alike) pieces others) :
    let old := ofPieces first pieces
    let new := ofPieces second others
    List.Forall₂ alike old.tokens new.tokens ∧ new.symbols = old.symbols ∧
      new.issues.map Issue.cause = old.issues.map Issue.cause := by
  obtain ⟨tokensAlike, causesEq, sameEnd⟩ := same.run_actsLike act
  rw [ofPieces_eq, ofPieces_eq]
  refine ⟨tokensAlike, sameEnd.symbols_eq, ?_⟩
  rw [List.map_append, List.map_append, causesEq, sameEnd.cause_unclosed_eq]

end ObjectIds
