import ObjectIds.Proofs.PreprocessedRuns

/-!
# The order of places

Reading a text moves a place forward, so each piece starts after the start of every piece
before it.  A place has at least one byte before it for each line and for each column, so
the 32-bit positions of the tokens of a text shorter than 2³² bytes keep that order.
-/

namespace ObjectIds

/-- Whether a position stands on an earlier line, or further left on the same line. -/
def Position.Before (first second : Position) : Prop :=
  first.line < second.line ∨ first.line = second.line ∧ first.column < second.column

namespace Place

/-- Whether a place stands on an earlier line, or further left on the same line. -/
def Before (first second : Place) : Prop :=
  first.line < second.line ∨ first.line = second.line ∧ first.column < second.column

/-- A place that has at least as many bytes before it as lines, and as columns. -/
structure Covered (place : Place) : Prop where
  line : place.line ≤ place.offset
  column : place.column ≤ place.offset

theorem Before.trans {first second third : Place} (earlier : first.Before second)
    (later : second.Before third) : first.Before third := by
  unfold Before at *
  omega

theorem before_step (place : Place) (character : Char) :
    place.Before (place.step character) := by
  unfold Before step
  split
  · exact Or.inl (Nat.lt_succ_self _)
  · exact Or.inr ⟨rfl, Nat.lt_succ_self _⟩

theorem before_advance (place : Place) {text : List Char} (notEmpty : text ≠ []) :
    place.Before (place.advance text) := by
  induction text generalizing place with
  | nil => contradiction
  | cons character text ih =>
      rw [advance_cons]
      cases text with
      | nil => exact place.before_step character
      | cons next text => exact (place.before_step character).trans (ih _ (by simp))

theorem Covered.step {place : Place} (covered : place.Covered) (character : Char) :
    (place.step character).Covered := by
  have size := character.utf8Size_pos
  obtain ⟨line, column⟩ := covered
  unfold Place.step
  split
  · exact ⟨by simp only; omega, by simp⟩
  · exact ⟨by simp only; omega, by simp only; omega⟩

theorem Covered.advance {place : Place} (covered : place.Covered) (text : List Char) :
    (place.advance text).Covered := by
  induction text generalizing place with
  | nil => exact covered
  | cons character text ih => exact ih (covered.step character)

theorem offset_advance (place : Place) (text : List Char) :
    (place.advance text).offset = place.offset + (String.ofList text).utf8ByteSize := by
  induction text generalizing place with
  | nil => simp
  | cons character text ih =>
      have offset : (place.step character).offset = place.offset + character.utf8Size := by
        unfold step
        split <;> rfl
      have bytes : (String.ofList (character :: text)).utf8ByteSize =
          character.utf8Size + (String.ofList text).utf8ByteSize := by
        rw [← List.singleton_append, String.ofList_append, String.utf8ByteSize_append,
          ← String.singleton_eq_ofList, String.utf8ByteSize_singleton]
      rw [advance_cons, ih, offset, bytes, Nat.add_assoc]

/-- Positions keep the order of places that 32 bits can count. -/
theorem Before.position {first second : Place} (earlier : first.Before second)
    (firstCovered : first.Covered) (secondCovered : second.Covered)
    (firstShort : first.offset < UInt32.size) (secondShort : second.offset < UInt32.size) :
    first.position.Before second.position := by
  obtain ⟨firstLine, firstColumn⟩ := firstCovered
  obtain ⟨secondLine, secondColumn⟩ := secondCovered
  have exactly {number : Nat} (small : number < UInt32.size) :
      (UInt32.ofNat number).toNat = number := UInt32.toNat_ofNat_of_lt' small
  unfold Position.Before Place.position
  simp only [UInt32.lt_iff_toNat_lt, ← UInt32.toNat_inj]
  rw [exactly (by omega), exactly (by omega), exactly (by omega), exactly (by omega)]
  exact earlier

end Place

namespace Piece

theorem start_of_mem_listFrom {place : Place} {text : List Char} {piece : Piece}
    (member : piece ∈ listFrom place text) :
    ∃ before, before <+: text ∧ piece.start = place.advance before := by
  induction place, text using cutInduction with
  | nil place => simp at member
  | piece place shape text rest fits ih =>
      rw [listFrom_append place fits] at member
      rcases List.mem_cons.1 member with rfl | later
      · exact ⟨[], List.nil_prefix, rfl⟩
      · obtain ⟨before, isPrefix, starts⟩ := ih later
        refine ⟨text ++ before, (List.prefix_append_right_inj text).2 isPrefix, ?_⟩
        rw [starts, Place.advance_append]

/-- Pieces start one after the other. -/
theorem pairwise_start_listFrom (place : Place) (text : List Char) :
    (listFrom place text).Pairwise fun first second => first.start.Before second.start := by
  induction place, text using cutInduction with
  | nil place => simp
  | piece place shape text rest fits ih =>
      rw [listFrom_append place fits, List.pairwise_cons]
      refine ⟨fun later member => ?_, ih⟩
      obtain ⟨before, isPrefix, starts⟩ := start_of_mem_listFrom member
      rw [starts, ← Place.advance_append]
      exact Place.before_advance place (by simp [fits.ne_nil])

theorem position_of_token? {piece : Piece} {token : Token}
    (isToken : piece.token? = some token) : token.position = piece.start.position := by
  unfold token? at isToken
  split at isToken
  · rw [← Option.some.inj isToken]
  · contradiction

end Piece

/-- What can be seen is part of what is there. -/
theorem Conditions.visibleTokens_sublist (conditions : Conditions) (pieces : List Piece) :
    (conditions.visibleTokens pieces).Sublist (pieces.filterMap Piece.token?) := by
  induction pieces generalizing conditions with
  | nil => exact .slnil
  | cons piece pieces ih =>
      rw [visibleTokens_cons, visible?]
      have later := ih (conditions.after piece)
      split
      · cases isToken : piece.token? with
        | none => simpa [isToken] using later
        | some token => simpa [isToken] using later
      · cases isToken : piece.token? with
        | none => simpa [isToken] using later
        | some token => simpa [isToken] using later.cons token

/-- The visible tokens of a text stand one after the other. -/
theorem Preprocessed.pairwise_position_tokens (source : String) (symbols : SymbolTable)
    (short : source.utf8ByteSize < UInt32.size) :
    (Preprocessed.ofText source symbols).tokens.Pairwise fun first second =>
      first.position.Before second.position := by
  rw [Preprocessed.ofText, Preprocessed.ofPieces_eq]
  -- Hidden tokens are in order too, so it is enough to look at all pieces.
  refine List.Pairwise.sublist (Conditions.visibleTokens_sublist _ _) ?_
  rw [List.pairwise_filterMap, Piece.listOfText_eq]
  have startCovered : Place.start.Covered := ⟨Nat.le_refl _, Nat.le_refl _⟩
  have counted {piece : Piece} (member : piece ∈ Piece.listFrom .start source.toList) :
      piece.start.Covered ∧ piece.start.offset < UInt32.size := by
    obtain ⟨before, ⟨after, whole⟩, starts⟩ := Piece.start_of_mem_listFrom member
    have bytes : source.utf8ByteSize =
        (String.ofList before).utf8ByteSize + (String.ofList after).utf8ByteSize := by
      rw [← String.utf8ByteSize_append, ← String.ofList_append, whole, String.ofList_toList]
    rw [starts]
    refine ⟨startCovered.advance before, ?_⟩
    have fromZero : Place.start.offset = 0 := rfl
    rw [Place.offset_advance]
    omega
  refine (Piece.pairwise_start_listFrom _ _).imp_of_mem ?_
  intro first second firstMember secondMember earlier token isToken later isLater
  obtain ⟨firstCovered, firstShort⟩ := counted firstMember
  obtain ⟨secondCovered, secondShort⟩ := counted secondMember
  rw [Piece.position_of_token? isToken, Piece.position_of_token? isLater]
  exact earlier.position firstCovered secondCovered firstShort secondShort

end ObjectIds
