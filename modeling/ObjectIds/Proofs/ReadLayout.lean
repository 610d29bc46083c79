import ObjectIds.Json.Layout
import ObjectIds.Proofs.JsonValues

/-!
# Reading back what is laid out

A value whose strings are texts and whose numbers are natural numbers is read back from its
layout, at any depth of nesting.  The layout is one way to write a value: every line of an
array or an object starts with a gap, and the line of the closing bracket is a gap after the
last of the items.
-/

namespace ObjectIds

namespace Json

/-- Values in which all strings are texts and all numbers are natural numbers. -/
inductive Plain : Json → Prop
  | null : Plain .null
  | bool (value : Bool) : Plain (.bool value)
  | ofNat (number : Nat) : Plain (Json.ofNat number)
  | ofText (text : String) : Plain (Json.ofText text)
  | array {elements : List Json} (all : ∀ element ∈ elements, Plain element) :
      Plain (.array elements)
  | object {members : List (List Character × Json)}
      (keys : ∀ member ∈ members, ∃ text, member.1 = characters text)
      (values : ∀ member ∈ members, Plain member.2) : Plain (.object members)

/-! ## Strings -/

theorem hexDigit_digitChar (number : Nat) : HexDigit (number % 16).digitChar (number % 16) :=
  ⟨Nat.mod_lt number (by decide), .inl rfl⟩

theorem hexUnit_hexDigits {unit : Nat} (small : unit < 0x10000) :
    HexUnit (hexDigits unit) unit := by
  have isUnit : HexUnit (hexDigits unit) (unit / 4096 % 16 * 4096 + unit / 256 % 16 * 256 +
      unit / 16 % 16 * 16 + unit % 16) :=
    .digits (hexDigit_digitChar _) (hexDigit_digitChar _) (hexDigit_digitChar _)
      (hexDigit_digitChar _)
  rwa [show unit / 4096 % 16 * 4096 + unit / 256 % 16 * 256 + unit / 16 % 16 * 16 +
    unit % 16 = unit by omega] at isUnit

theorem spelling_layout (character : Char) :
    Spelling (Character.scalar character).layout character := by
  rw [Character.layout]
  split_ifs with quote backslash backspace tab lineFeed formFeed carriageReturn control
  · subst quote
    exact .escape (by decide)
  · subst backslash
    exact .escape (by decide)
  · subst backspace
    exact .escape (by decide)
  · subst tab
    exact .escape (by decide)
  · subst lineFeed
    exact .escape (by decide)
  · subst formFeed
    exact .escape (by decide)
  · subst carriageReturn
    exact .escape (by decide)
  · have spelled := Spelling.unit (hexUnit_hexDigits (Nat.lt_trans control (by decide)))
      (.inl (Nat.lt_trans control (by decide)))
    rwa [Char.ofNat_toNat] at spelled
  · exact .plain quote backslash (Nat.not_lt.1 control)

theorem literal_layoutString (text : String) :
    Literal text (layoutString (characters text)) := by
  refine ⟨text.toList.map fun character => (Character.scalar character).layout, ?_, ?_⟩
  · rw [List.forall₂_map_left_iff, List.forall₂_same]
    exact fun character _ => spelling_layout character
  · rw [layoutString, characters, List.flatMap_map, List.flatMap_def]

/-! ## Numbers -/

theorem head_toDigits_ne_zero {number : Nat} (positive : 0 < number) :
    ∀ character ∈ (Nat.toDigits 10 number).head?, character ≠ '0' := by
  induction number using Nat.strongRecOn with
  | ind number ih =>
      rcases Nat.lt_or_ge number 10 with small | large
      · rw [Nat.toDigits_of_lt_base small]
        have all : ∀ digit : Fin 10, 0 < digit.val → digit.val.digitChar ≠ '0' := by decide
        simpa using all ⟨number, small⟩ positive
      · rw [Nat.toDigits_of_base_le (by decide) large]
        have fewer := ih (number / 10) (by omega) (by omega)
        rwa [List.head?_append, Option.or_of_isSome]
        exact List.isSome_head?.2 Nat.toDigits_ne_nil

/-- A natural number is written with digits only, the first of them zero only if it stands
alone. -/
theorem numberText_repr (number : Nat) : NumberText (Nat.repr number).toList := by
  rw [Nat.toList_repr]
  refine ⟨[], Nat.toDigits 10 number, [], [], .inl rfl, ⟨Nat.toDigits_ne_nil, ?_⟩, ?_,
    .inl rfl, .inl rfl, ?_⟩
  · exact fun _ => Nat.isDigit_of_mem_toDigits (by decide) (by decide)
  · rcases Nat.eq_zero_or_pos number with rfl | positive
    · exact fun _ => rfl
    · exact fun isZero => absurd rfl (head_toDigits_ne_zero positive '0' isZero)
  · rw [List.append_nil, List.append_nil, List.nil_append]

/-! ## Values -/

theorem gap_newLine (depth : Nat) : Gap (newLine depth) := by
  intro character inLine
  rcases List.mem_cons.1 inLine with rfl | later
  · decide
  · rw [List.eq_of_mem_replicate later]
    decide

theorem padded_newLine (depth : Nat) (text : List Char) {after : List Char}
    (isAfter : Gap after) : Padded text (newLine depth ++ text ++ after) :=
  ⟨newLine depth, after, gap_newLine depth, isAfter, rfl⟩

/-- The later elements of an array, after the gap that follows the one before them. -/
theorem exists_continued_layoutElements (depth : Nat) (elements : List Json) :
    ∃ after rest, Gap after ∧ Continued (elements.map (layout (depth + 1))) rest ∧
      layoutElements depth elements = after ++ (rest ++ [']']) := by
  induction elements with
  | nil => exact ⟨newLine depth, [], gap_newLine depth, .nil, rfl⟩
  | cons element elements ih =>
      obtain ⟨after, rest, isAfter, continued, isLayout⟩ := ih
      refine ⟨[], _, gap_nil, .cons (padded_newLine (depth + 1) _ isAfter) continued, ?_⟩
      simp [layoutElements, isLayout]

/-- A member of an object as it is written. -/
def layoutMember (depth : Nat) (member : List Character × Json) : List Char :=
  layoutString member.1 ++ ':' :: ' ' :: layout depth member.2

/-- The later members of an object, after the gap that follows the one before them. -/
theorem exists_continued_layoutMembers (depth : Nat) (members : List (List Character × Json)) :
    ∃ after rest, Gap after ∧ Continued (members.map (layoutMember (depth + 1))) rest ∧
      layoutMembers depth members = after ++ (rest ++ ['}']) := by
  induction members with
  | nil => exact ⟨newLine depth, [], gap_newLine depth, .nil, rfl⟩
  | cons member members ih =>
      obtain ⟨after, rest, isAfter, continued, isLayout⟩ := ih
      refine ⟨[], _, gap_nil, .cons (padded_newLine (depth + 1) _ isAfter) continued, ?_⟩
      simp [layoutMembers, isLayout, layoutMember]

theorem enclosed_layout_array (depth : Nat) (elements : List Json) :
    Enclosed '[' ']' (elements.map (layout (depth + 1))) (layout depth (.array elements)) := by
  cases elements with
  | nil => exact .empty gap_nil
  | cons element elements =>
      obtain ⟨after, rest, isAfter, continued, isLayout⟩ :=
        exists_continued_layoutElements depth elements
      have enclosed : Enclosed '[' ']' _ _ :=
        .cons (padded_newLine (depth + 1) (layout (depth + 1) element) isAfter) continued
      simpa [layout, isLayout] using enclosed

theorem enclosed_layout_object (depth : Nat) (members : List (List Character × Json)) :
    Enclosed '{' '}' (members.map (layoutMember (depth + 1))) (layout depth (.object members)) := by
  cases members with
  | nil => exact .empty gap_nil
  | cons member members =>
      obtain ⟨after, rest, isAfter, continued, isLayout⟩ :=
        exists_continued_layoutMembers depth members
      have enclosed : Enclosed '{' '}' _ _ :=
        .cons (padded_newLine (depth + 1) (layoutMember (depth + 1) member) isAfter) continued
      simpa [layout, isLayout, layoutMember] using enclosed

open Token

/-- A value is read back from its layout at any depth. -/
theorem Plain.isWritten {value : Json} (plain : Plain value) (depth : Nat) :
    IsWritten (layout depth value) value := by
  induction plain generalizing depth with
  | null => exact ⟨_, spells_null, fun _ => rfl⟩
  | bool value =>
      cases value with
      | true => exact ⟨_, spells_true, fun _ => rfl⟩
      | false => exact ⟨_, spells_false, fun _ => rfl⟩
  | ofNat number =>
      have spells := spells_numberText (numberText_repr number)
      rw [String.ofList_toList] at spells
      exact ⟨_, spells, fun _ => rfl⟩
  | ofText text => exact ⟨_, spells_literal (literal_layoutString text), fun _ => rfl⟩
  | @array elements _ ih =>
      apply Sequence.elements.isWritten (enclosed_layout_array depth elements)
      rw [List.forall₂_map_left_iff, List.forall₂_same]
      exact fun element isElement => Sequence.reads_element (ih element isElement (depth + 1))
  | @object members keys _ ih =>
      apply Sequence.members.isWritten (enclosed_layout_object depth members)
      rw [List.forall₂_map_left_iff, List.forall₂_same]
      intro member isMember
      obtain ⟨text, isText⟩ := keys member isMember
      have isKey : Spells (layoutString member.1) [.string member.1] := by
        rw [isText]
        exact spells_literal (literal_layoutString text)
      exact Sequence.reads_member isKey (ih member isMember (depth + 1))
        ⟨[], [' '], gap_nil, gap_singleton (by decide), rfl⟩

/-- A document is read back from its text, also with an empty line after it. -/
theorem Plain.read?_pretty {value : Json} (plain : Plain value) :
    read? value.pretty = some value ∧ read? (value.pretty ++ "\n") = some value := by
  have written := plain.isWritten 0
  have isPadded : Padded (layout 0 value) (layout 0 value ++ ['\n']) :=
    ⟨[], ['\n'], gap_nil, gap_singleton (by decide), rfl⟩
  have withLine : value.pretty ++ "\n" = String.ofList (layout 0 value ++ ['\n']) :=
    String.ofList_append.symm
  exact ⟨written.read?, withLine ▸ (written.padded isPadded).read?⟩

end Json

end ObjectIds
