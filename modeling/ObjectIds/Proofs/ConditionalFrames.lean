import ObjectIds.Proofs.OpenConditionals

/-!
# Frames of conditionals, and the lines that opened them

The branches of the open conditionals and the lines that opened them can be kept on two parallel.
Directives act on the branches alone, and the lines follow: one is added with each `#if`, and one
is taken away with each `#endif` that had a conditional to close.  The stacks keep the same
height, so that a text is preprocessed as if each conditional was kept with its line.
-/

namespace ObjectIds

/-- An open conditional without its line: whether its current branch is the chosen one, and
whether a branch up to the current one has been chosen. -/
structure Frame where
  satisfied : Bool
  chosen : Bool
deriving DecidableEq, Repr

namespace Frame

/-- A frame at a branch before which none was chosen. -/
def opened (satisfied : Bool) : Frame := ⟨satisfied, satisfied⟩

/-- A frame at its next branch. -/
def branch (frame : Frame) (holds : Bool) : Frame :=
  if frame.chosen then { frame with satisfied := false } else opened holds

/-- The frames after a directive that acts on the innermost of them, unless there is none. -/
def actOn (frames : List Frame) (cause : Issue.Cause) (act : Frame → List Frame) :
    Except Issue.Cause (List Frame) :=
  match frames with
  | [] => .error cause
  | innermost :: outer => .ok (act innermost ++ outer)

/-- The symbols after a directive, and the frames unless it has none to act on. -/
def apply (symbols : SymbolTable) (frames : List Frame) :
    Directive → SymbolTable × Except Issue.Cause (List Frame)
  | .define symbol => (Conditions.define symbols symbol, .ok frames)
  | .undefine symbol => (symbols.undefine symbol, .ok frames)
  | .ifDefined symbol =>
      (Conditions.check symbols symbol, .ok (opened (symbols.isDefined symbol) :: frames))
  | .elseIfDefined symbol =>
      let checked := Conditions.check symbols symbol
      (checked, actOn frames .unmatchedElseIf fun innermost =>
        [innermost.branch (checked.isDefined symbol)])
  | .elseBranch =>
      (symbols, actOn frames .unmatchedElse fun innermost => [innermost.branch true])
  | .endIf => (symbols, actOn frames .unmatchedEndIf fun _ => [])
  | .other _ => (symbols, .ok frames)

end Frame

/-- The symbols at one point of a text, the frames of the open conditionals, and the lines that
opened them, both innermost first. -/
structure ParallelStacks where
  symbols : SymbolTable
  frames : List Frame
  openings : List Span
deriving DecidableEq, Repr

namespace ParallelStacks

/-- The stacks at the start of a text. -/
def initial (symbols : SymbolTable) : ParallelStacks := ⟨symbols, [], []⟩

/-- Whether what stands at this point can be seen. -/
def isVisible (parallel : ParallelStacks) : Bool := parallel.frames.all Frame.satisfied

/-- The open lines after a directive that took effect. -/
def openingsAfter (openings : List Span) (line : Span) : Directive → List Span
  | .ifDefined _ => line :: openings
  | .endIf => openings.tail
  | .define _ | .undefine _ | .elseIfDefined _ | .elseBranch | .other _ => openings

/-- The stacks after a directive on a line, and what is wrong with it. -/
def apply (parallel : ParallelStacks) (directive : Directive) (line : Span) :
    ParallelStacks × Option Issue :=
  match Frame.apply parallel.symbols parallel.frames directive with
  | (symbols, .ok frames) =>
      (⟨symbols, frames, openingsAfter parallel.openings line directive⟩, none)
  | (symbols, .error cause) => ({ parallel with symbols := symbols }, some ⟨cause, line⟩)

/-- The stacks after a piece, and what is wrong with it. -/
def step (parallel : ParallelStacks) (piece : Piece) : ParallelStacks × Option Issue :=
  match piece.directive? with
  | some directive => parallel.apply directive piece.span
  | none => (parallel, piece.fault?.map (⟨·, piece.span⟩))

/-- Goes through pieces.  The lines that are open at the end are noted outermost first. -/
def preprocess (parallel : ParallelStacks) : List Piece → Preprocessed
  | [] =>
      ⟨[], parallel.symbols, parallel.openings.reverse.map (⟨.unclosedConditional, ·⟩)⟩
  | piece :: pieces =>
      let (next, issue?) := parallel.step piece
      let later := next.preprocess pieces
      ⟨(if parallel.isVisible then piece.token? else none).toList ++ later.tokens,
        later.symbols, issue?.toList ++ later.issues⟩

/-- Whether each frame has a line. -/
def InStep (parallel : ParallelStacks) : Prop :=
  parallel.frames.length = parallel.openings.length

end ParallelStacks

/-- The frame of a conditional. -/
def Conditional.frame (conditional : Conditional) : Frame :=
  ⟨conditional.satisfied, conditional.chosen⟩

namespace Conditions

/-- The conditionals with their lines taken apart. -/
def takenApart (conditions : Conditions) : ParallelStacks :=
  ⟨conditions.symbols, conditions.conditionals.map Conditional.frame, conditions.openings⟩

theorem frame_branch (conditional : Conditional) (holds : Bool) :
    (conditional.branch holds).frame = conditional.frame.branch holds := by
  obtain ⟨satisfied, chosen, opening⟩ := conditional
  cases chosen <;> rfl

theorem opening_branch (conditional : Conditional) (holds : Bool) :
    (conditional.branch holds).opening = conditional.opening := rfl

/-- To check a symbol does not define it. -/
theorem isDefined_check (symbols : SymbolTable) (symbol other : String) :
    (check symbols symbol).isDefined other = symbols.isDefined other := by
  unfold check
  split <;> rfl

theorem isVisible_takenApart (conditions : Conditions) :
    conditions.takenApart.isVisible = conditions.isVisible :=
  List.all_map

/-- The lines that are apart from their frames change as they do with them. -/
theorem apply_takenApart (conditions : Conditions) (directive : Directive) (line : Span) :
    conditions.takenApart.apply directive line =
      ((conditions.apply directive line).takenApart,
        (conditions.fault? directive).map (⟨·, line⟩)) := by
  obtain ⟨symbols, conditionals⟩ := conditions
  cases conditionals with
  | nil => cases directive <;> rfl
  | cons innermost outer =>
      cases directive with
      | elseIfDefined symbol =>
          simp [ParallelStacks.apply, Frame.apply, Frame.actOn, ParallelStacks.openingsAfter,
            takenApart, openings, apply, branch, fault?, frame_branch, opening_branch,
            isDefined_check]
      | elseBranch =>
          simp [ParallelStacks.apply, Frame.apply, Frame.actOn, ParallelStacks.openingsAfter,
            takenApart, openings, apply, branch, fault?, frame_branch, opening_branch]
      | define | undefine | ifDefined | endIf | other => rfl

theorem step_takenApart (conditions : Conditions) (piece : Piece) :
    conditions.takenApart.step piece =
      ((conditions.after piece).takenApart, conditions.issue? piece) := by
  unfold ParallelStacks.step after issue?
  cases piece.directive? with
  | none => rfl
  | some directive => exact conditions.apply_takenApart directive piece.span

/-- Going through pieces with two stacks leaves what it leaves with one. -/
theorem preprocess_takenApart (conditions : Conditions) (pieces : List Piece) :
    conditions.takenApart.preprocess pieces = Preprocessed.ofPieces conditions pieces := by
  induction pieces generalizing conditions with
  | nil =>
      rw [ParallelStacks.preprocess, Preprocessed.ofPieces_nil, unclosed_eq]
      rfl
  | cons piece pieces ih =>
      rw [ParallelStacks.preprocess, step_takenApart, Preprocessed.ofPieces_cons]
      dsimp only
      rw [ih, isVisible_takenApart]
      rfl

end Conditions

namespace ParallelStacks

/-- ParallelStacks of the same height are those of conditionals with their lines. -/
theorem InStep.exists_takenApart_eq {parallel : ParallelStacks} (inStep : parallel.InStep) :
    ∃ conditions : Conditions, conditions.takenApart = parallel := by
  obtain ⟨symbols, frames, openings⟩ := parallel
  let together (pair : Frame × Span) : Conditional :=
    ⟨pair.1.satisfied, pair.1.chosen, pair.2⟩
  refine ⟨⟨symbols, (frames.zip openings).map together⟩, ?_⟩
  have isFrames : ((frames.zip openings).map together).map Conditional.frame = frames := by
    rw [List.map_map]
    exact List.map_fst_zip (Nat.le_of_eq inStep)
  have isOpenings : ((frames.zip openings).map together).map Conditional.opening = openings := by
    rw [List.map_map]
    exact List.map_snd_zip (Nat.le_of_eq inStep.symm)
  rw [Conditions.takenApart, Conditions.openings, isFrames, isOpenings]

theorem inStep_takenApart (conditions : Conditions) : conditions.takenApart.InStep := by
  rw [InStep, Conditions.takenApart, Conditions.openings, List.length_map, List.length_map]

/-- A piece adds or takes away a frame and its line together. -/
theorem InStep.step {parallel : ParallelStacks} (inStep : parallel.InStep) (piece : Piece) :
    (parallel.step piece).1.InStep := by
  obtain ⟨conditions, rfl⟩ := inStep.exists_takenApart_eq
  rw [Conditions.step_takenApart]
  exact inStep_takenApart _

/-- Along a whole text the stacks keep the same height. -/
theorem InStep.afterAll {parallel : ParallelStacks} (inStep : parallel.InStep)
    (pieces : List Piece) :
    (pieces.foldl (fun parallel piece => (parallel.step piece).1) parallel).InStep := by
  induction pieces generalizing parallel with
  | nil => exact inStep
  | cons piece pieces ih => exact ih (inStep.step piece)

/-- A source text is preprocessed as with two stacks that are empty at its start. -/
theorem preprocess_listOfText (source : String) (symbols : SymbolTable) :
    (initial symbols).preprocess (Piece.listOfText source) =
      Preprocessed.ofText source symbols :=
  (Conditions.initial symbols).preprocess_takenApart _

end ParallelStacks

end ObjectIds
