import ObjectIds.Json.Document
import ObjectIds.Proofs.JsonGrammar

/-!
# Values read from JSON texts

The tokens of a value take the reading from the place where a value must start to the place
where it has been read, whatever is still open there.  So the items of an array or an object
are read one by one, and every text of the grammar is read as one value and no other.
-/

namespace ObjectIds

namespace Json

namespace Progress

theorem steps_append (progress : Progress) (first second : List Token) :
    steps progress (first ++ second) = (steps progress first).bind (steps · second) := by
  simp [steps, List.foldlM_append, Option.bind_eq_bind]

theorem steps_cons (progress : Progress) (token : Token) (tokens : List Token) :
    steps progress (token :: tokens) = (step progress token).bind (steps · tokens) :=
  List.foldlM_cons

/-- Where an array has just been opened, a value is read as its first element. -/
theorem steps_element {tokens : List Token} {value : Json}
    (complete : ∀ containers, steps (.value containers) tokens = some (.done containers value))
    (containers : List Container) :
    steps (.element containers) tokens = some (.done (.array [] :: containers) value) := by
  rw [← complete]
  cases tokens with
  | nil => simp [steps] at complete
  | cons token tokens =>
      -- Only the bracket that closes an array is read in another way here, and it starts no value.
      have started := complete containers
      cases token with
      | closeBracket => simp [steps_cons, step, start] at started
      | _ => rfl

end Progress

open Progress Token

/-- Some text is one value, with or without more text after it. -/
def IsWritten (text : List Char) (value : Json) : Prop :=
  ∃ tokens, Spells text tokens ∧
    ∀ containers, steps (.value containers) tokens = some (.done containers value)

/-- A document of one value is read as that value. -/
theorem IsWritten.read? {text : List Char} {value : Json} (written : IsWritten text value) :
    Json.read? (String.ofList text) = some value := by
  obtain ⟨tokens, spells, completes⟩ := written
  have isDocument : Token.list? (String.ofList text) = some tokens := by
    have atEnd := spells [] [] endsNumber_nil
    rw [List.append_nil, List.append_nil, listAfter, List.reverse_reverse] at atEnd
    rw [Token.list?, String.toList_ofList, atEnd]
  rw [Json.read?, isDocument, Option.bind_some, ofTokens?, completes]
  rfl

/-- No text is two values. -/
theorem IsWritten.unique {text : List Char} {first second : Json}
    (isFirst : IsWritten text first) (isSecond : IsWritten text second) : first = second :=
  Option.some.inj (isFirst.read?.symm.trans isSecond.read?)

theorem IsWritten.padded {text padded : List Char} {value : Json}
    (written : IsWritten text value) (isPadded : Padded text padded) :
    IsWritten padded value := by
  obtain ⟨tokens, spells, completes⟩ := written
  exact ⟨tokens, spells.padded isPadded, completes⟩

/-- A kind of container: how its brackets are read, and how its items are put together.  Those
before the last are given latest first. -/
structure Sequence (α : Type) where
  opening : Char
  closing : Char
  opener : Token
  closer : Token
  opened : List Container → Progress
  after : List Container → List α → α → Progress
  whole : List α → Json
  isOpener : isSpace opening = false ∧ ofMark? opening = some opener
  isCloser : isSpace closing = false ∧ ofMark? closing = some closer
  endsNumber : EndsNumber [closing]
  opens : ∀ containers, step (.value containers) opener = some (opened containers)
  closesEmpty : ∀ containers, step (opened containers) closer = some (.done containers (whole []))
  closes : ∀ containers earlier item,
    step (after containers earlier item) closer =
      some (.done containers (whole (item :: earlier).reverse))

namespace Sequence

/-- Arrays. -/
def elements : Sequence Json where
  opening := '['
  closing := ']'
  opener := .openBracket
  closer := .closeBracket
  opened := .element
  after containers earlier item := .done (.array earlier :: containers) item
  whole := .array
  isOpener := by decide
  isCloser := by decide
  endsNumber := endsNumber_cons (by decide)
  opens _ := rfl
  closesEmpty _ := rfl
  closes _ _ _ := rfl

/-- Objects. -/
def members : Sequence (List Character × Json) where
  opening := '{'
  closing := '}'
  opener := .openBrace
  closer := .closeBrace
  opened := .member
  after containers earlier item := .done (.object earlier item.1 :: containers) item.2
  whole := .object
  isOpener := by decide
  isCloser := by decide
  endsNumber := endsNumber_cons (by decide)
  opens _ := rfl
  closesEmpty _ := rfl
  closes _ _ _ := rfl

variable {α : Type} {sequence : Sequence α}

/-- Some text is read as an item, as the first of a sequence or after a comma. -/
def Reads (sequence : Sequence α) (text : List Char) (item : α) : Prop :=
  ∃ tokens, Spells text tokens ∧
    (∀ containers, steps (sequence.opened containers) tokens =
      some (sequence.after containers [] item)) ∧
    ∀ containers earlier last,
      steps (sequence.after containers earlier last) (.comma :: tokens) =
        some (sequence.after containers (last :: earlier) item)

theorem endsNumber_continued {texts : List (List Char)} {rest : List Char}
    (continued : Continued texts rest) (later : List Char) :
    EndsNumber (rest ++ [sequence.closing] ++ later) := by
  cases continued with
  | nil => exact fun first isFirst => sequence.endsNumber first isFirst
  | cons => exact endsNumber_cons (by decide)

/-- The items after the first, and the closing bracket. -/
theorem exists_tokens_continued {texts : List (List Char)} {rest : List Char}
    (continued : Continued texts rest) {items : List α}
    (each : List.Forall₂ sequence.Reads texts items) :
    ∃ tokens, Spells (rest ++ [sequence.closing]) tokens ∧
      ∀ containers earlier item, steps (sequence.after containers earlier item) tokens =
        some (.done containers (sequence.whole (earlier.reverse ++ item :: items))) := by
  induction continued generalizing items with
  | nil =>
      cases each
      refine ⟨[sequence.closer], spells_nil.cons sequence.isCloser.1 sequence.isCloser.2, ?_⟩
      intro containers earlier item
      rw [steps_cons, sequence.closes, Option.bind_some, List.reverse_cons]
      rfl
  | cons isPadded continued ih =>
      obtain _ | @⟨_, item, _, items, reads, each⟩ := each
      obtain ⟨tokens, spells, -, continues⟩ := reads
      obtain ⟨laterTokens, spellsLater, completes⟩ := ih each
      refine ⟨.comma :: (tokens ++ laterTokens), ?_, ?_⟩
      · rw [List.cons_append, List.append_assoc]
        apply Spells.cons (by decide) rfl
        exact (spells.padded isPadded).append spellsLater
          fun later _ => endsNumber_continued continued later
      · intro containers earlier last
        rw [← List.cons_append, steps_append, continues, Option.bind_some, completes]
        simp

/-- A sequence is read as what its items are together. -/
theorem isWritten {texts : List (List Char)} {text : List Char}
    (enclosed : Enclosed sequence.opening sequence.closing texts text) {items : List α}
    (each : List.Forall₂ sequence.Reads texts items) :
    IsWritten text (sequence.whole items) := by
  cases enclosed with
  | @empty gap isGap =>
      cases each
      refine ⟨[sequence.opener, sequence.closer], ?_, fun containers => ?_⟩
      · apply Spells.cons sequence.isOpener.1 sequence.isOpener.2
        exact isGap.spells (spells_nil.cons sequence.isCloser.1 sequence.isCloser.2)
      · rw [steps_cons, sequence.opens, Option.bind_some, steps_cons, sequence.closesEmpty]
        rfl
  | cons isPadded continued =>
      obtain _ | @⟨_, item, _, items, reads, each⟩ := each
      obtain ⟨tokens, spells, starts, -⟩ := reads
      obtain ⟨laterTokens, spellsLater, completes⟩ := exists_tokens_continued continued each
      refine ⟨sequence.opener :: (tokens ++ laterTokens), ?_, fun containers => ?_⟩
      · apply Spells.cons sequence.isOpener.1 sequence.isOpener.2
        exact (spells.padded isPadded).append spellsLater
          fun later _ => endsNumber_continued continued later
      · rw [steps_cons, sequence.opens, Option.bind_some, steps_append, starts,
          Option.bind_some, completes]
        rfl

theorem reads_element {text : List Char} {value : Json} (written : IsWritten text value) :
    elements.Reads text value := by
  obtain ⟨tokens, spells, completes⟩ := written
  exact ⟨tokens, spells, steps_element completes, fun _ _ _ => completes _⟩

theorem reads_member {key written text : List Char} {name : List Character} {value : Json}
    (isKey : Spells key [.string name]) (isValue : IsWritten written value)
    (isMember : MemberText key written text) : members.Reads text (name, value) := by
  obtain ⟨before, after, isBefore, isAfter, rfl⟩ := isMember
  obtain ⟨tokens, spells, completes⟩ := isValue
  refine ⟨.string name :: .colon :: tokens, ?_, fun _ => completes _, fun _ _ _ => completes _⟩
  have spellsColon : Spells (before ++ ':' :: (after ++ written)) (.colon :: tokens) :=
    isBefore.spells ((isAfter.spells spells).cons (by decide) rfl)
  refine isKey.append spellsColon fun rest _ => ?_
  rw [List.append_assoc]
  exact isBefore.endsNumber (endsNumber_cons (by decide))

end Sequence

/-- What is written for the parts of a whole is read part by part. -/
theorem exists_items {α β γ : Type} {writes : α → β → Prop} {means : α → γ → Prop}
    {reads : β → γ → Prop} {parts : List α} {texts : List β}
    (written : List.Forall₂ writes parts texts)
    (each : ∀ part ∈ parts, ∀ text, writes part text → ∃ item, means part item ∧ reads text item) :
    ∃ items, List.Forall₂ means parts items ∧ List.Forall₂ reads texts items := by
  induction written with
  | nil => exact ⟨[], .nil, .nil⟩
  | @cons part text parts texts isWritten _ ih =>
      obtain ⟨item, isMeant, isRead⟩ := each part (.head parts) text isWritten
      obtain ⟨items, areMeant, areRead⟩ := ih fun other later => each other (.tail part later)
      exact ⟨item :: items, .cons isMeant areMeant, .cons isRead areRead⟩

/-- Every text of the grammar is one value. -/
theorem ValueText.exists_isWritten {text : List Char} (isValue : ValueText text) :
    ∃ value, IsWritten text value := by
  induction isValue with
  | null => exact ⟨.null, _, spells_null, fun _ => rfl⟩
  | true => exact ⟨.bool _, _, spells_true, fun _ => rfl⟩
  | false => exact ⟨.bool _, _, spells_false, fun _ => rfl⟩
  | number isNumber => exact ⟨.number _, _, spells_numberText isNumber, fun _ => rfl⟩
  | string isString =>
      obtain ⟨characters, spells⟩ := exists_spells_stringText isString
      exact ⟨.string characters, _, spells, fun _ => rfl⟩
  | @array items text _ enclosed ih =>
      obtain ⟨values, -, read⟩ : ∃ values, List.Forall₂ IsWritten items values ∧
          List.Forall₂ Sequence.elements.Reads items values := by
        refine exists_items (List.forall₂_same.2 fun item _ => rfl) fun item isItem _ same => ?_
        obtain ⟨value, written⟩ := ih item isItem
        exact ⟨value, written, same ▸ Sequence.reads_element written⟩
      exact ⟨.array values, Sequence.isWritten enclosed read⟩
  | @object members texts text keys _ written enclosed ih =>
      obtain ⟨items, -, read⟩ : ∃ items : List (List Character × Json),
          List.Forall₂ (fun member item => IsWritten member.2 item.2) members items ∧
            List.Forall₂ Sequence.members.Reads texts items := by
        refine exists_items written fun member isMember text isText => ?_
        obtain ⟨name, isKey⟩ := exists_spells_stringText (keys member isMember)
        obtain ⟨value, isValue⟩ := ih member isMember
        exact ⟨(name, value), isValue, Sequence.reads_member isKey isValue isText⟩
      exact ⟨.object items, Sequence.isWritten enclosed read⟩

end Json

end ObjectIds
