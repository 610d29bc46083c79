import ObjectIds.Manifest.Discovery
import ObjectIds.Proofs.ListedFiles

/-!
# Texts of manifests

A manifest is read from every text of an object that writes its members in any order, each at
most once, among any number of members with other names.  Whatever is written for those, and
wherever spacing stands, the manifest is the same, so that the ranges, the name and the symbols
of an app do not depend on it.
-/

namespace ObjectIds

namespace Json

/-! ## Ways to write values -/

/-- Whatever is written for an item is one value, which is decoded as the item. -/
def ReadBy {α : Type} (writes : α → List Char → Prop) (decode : Json → Option α) : Prop :=
  ∀ item text, writes item text → ∃ value, IsWritten text value ∧ decode value = some item

/-- A 32-bit number. -/
def WordText (number : UInt32) (text : List Char) : Prop :=
  text = (Nat.repr number.toNat).toList

/-- Something that may be null. -/
def NullableText {α : Type} (writes : α → List Char → Prop) : Option α → List Char → Prop
  | none, text => text = ['n', 'u', 'l', 'l']
  | some item, text => writes item text

/-- The array of several items. -/
def ListText {α : Type} (writes : α → List Char → Prop) (items : List α) (text : List Char) :
    Prop :=
  ∃ texts, List.Forall₂ writes items texts ∧ Enclosed '[' ']' texts text

/-- The object with given keys and what is written for their values. -/
def ObjectText (members : List (String × List Char)) (text : List Char) : Prop :=
  ∃ texts, List.Forall₂
    (fun member text => ∃ key, Literal member.1 key ∧ MemberText key member.2 text)
    members texts ∧ Enclosed '{' '}' texts text

section Members

variable {α : Type} (members : List (String × List Char)) (key : String)
  (writes : α → List Char → Prop)

/-- A member that is there once. -/
def Once (item : α) : Prop :=
  ∃ text, members.filter (·.1 == key) = [(key, text)] ∧ writes item text

/-- A member that is there once, or is left out because it has its default value. -/
def AtMostOnce (default item : α) : Prop :=
  Once members key writes item ∨ (∀ member ∈ members, member.1 ≠ key) ∧ item = default

/-- Members with other keys have any values, and may be there more than once. -/
def Others (keys : List String) : Prop :=
  ∀ member ∈ members, member.1 ∉ keys → ValueText member.2

end Members

/-! ## Reading items -/

section Items

variable {α : Type} {writes : α → List Char → Prop} {decode : Json → Option α}

theorem literal_readBy : ReadBy Literal text? := fun text _ isLiteral =>
  ⟨.string (characters text), ⟨_, Token.spells_literal isLiteral, fun _ => rfl⟩,
    textOf?_characters text⟩

theorem wordText_readBy : ReadBy WordText word? := by
  rintro number _ rfl
  have spells := Token.spells_numberText (numberText_repr number.toNat)
  rw [String.ofList_toList] at spells
  exact ⟨.number (Nat.repr number.toNat), ⟨_, spells, fun _ => rfl⟩, word?_word number⟩

theorem ReadBy.nullable (reads : ReadBy writes decode) (notNull : decode .null = none) :
    ReadBy (NullableText writes) (nullable? decode) := by
  intro item text written
  cases item with
  | none =>
      obtain rfl : text = ['n', 'u', 'l', 'l'] := written
      exact ⟨.null, ⟨_, Token.spells_null, fun _ => rfl⟩, rfl⟩
  | some item =>
      obtain ⟨value, isValue, decodes⟩ := reads item text written
      refine ⟨value, isValue, ?_⟩
      cases value with
      | null =>
          rw [notNull] at decodes
          contradiction
      | _ =>
          rw [nullable?, decodes, Option.map_some]
          simp

theorem mapM_eq_some_of_forall₂ {items : List α} {values : List Json}
    (decoded : List.Forall₂ (fun item value => decode value = some item) items values) :
    values.mapM decode = some items := by
  induction decoded with
  | nil => rfl
  | cons decodes _ ih =>
      rw [List.mapM_cons, decodes, ih]
      rfl

theorem ReadBy.list (reads : ReadBy writes decode) :
    ReadBy (ListText writes) (listOf? decode) := by
  rintro items text ⟨texts, written, enclosed⟩
  obtain ⟨values, decoded, read⟩ : ∃ values,
      List.Forall₂ (fun item value => decode value = some item) items values ∧
        List.Forall₂ Sequence.elements.Reads texts values := by
    refine exists_items written fun item _ text isText => ?_
    obtain ⟨value, isValue, decodes⟩ := reads item text isText
    exact ⟨value, decodes, Sequence.reads_element isValue⟩
  exact ⟨.array values, Sequence.isWritten enclosed read, mapM_eq_some_of_forall₂ decoded⟩

end Items

/-! ## Reading members -/

/-- A member, and the same member with the value that its text is. -/
def SameMember (written : String × List Char) (read : String × Json) : Prop :=
  written.1 = read.1 ∧ IsWritten written.2 read.2

theorem exists_members {members : List (String × List Char)} {text : List Char}
    (isObject : ObjectText members text)
    (each : ∀ member ∈ members, ∃ value, IsWritten member.2 value) :
    ∃ named, List.Forall₂ SameMember members named ∧
      IsWritten text (.object (named.map fun (key, value) => (characters key, value))) := by
  obtain ⟨texts, written, enclosed⟩ := isObject
  obtain ⟨named, same, read⟩ : ∃ named, List.Forall₂ SameMember members named ∧
      List.Forall₂ (fun text item => Sequence.members.Reads text (characters item.1, item.2))
        texts named := by
    refine exists_items written fun member isMember text isText => ?_
    obtain ⟨key, isKey, isText⟩ := isText
    obtain ⟨value, isValue⟩ := each member isMember
    exact ⟨(member.1, value), ⟨rfl, isValue⟩,
      Sequence.reads_member (Token.spells_literal isKey) isValue isText⟩
  exact ⟨named, same, Sequence.isWritten enclosed (List.forall₂_map_right_iff.2 read)⟩

section Decoding

variable {α : Type} {writes : α → List Char → Prop} {decode : Json → Option α} {item default : α}
  {members : List (String × List Char)} {named : List (String × Json)} {key : String}

theorem filter_sameMember (same : List.Forall₂ SameMember members named) (key : String) :
    List.Forall₂ SameMember (members.filter (·.1 == key)) (named.filter (·.1 == key)) := by
  refine List.rel_filter (fun member read isSame => ?_) same
  show (member.1 == key) = true ↔ (read.1 == key) = true
  rw [isSame.1]

theorem Once.exists_isWritten (once : Once members key writes item)
    (reads : ReadBy writes decode) {member : String × List Char} (isMember : member ∈ members)
    (isKey : member.1 = key) : ∃ value, IsWritten member.2 value := by
  obtain ⟨text, only, written⟩ := once
  have isOnly : member ∈ members.filter (·.1 == key) := by simp [isMember, isKey]
  rw [only, List.mem_singleton] at isOnly
  obtain ⟨value, isValue, -⟩ := reads item text written
  exact ⟨value, isOnly ▸ isValue⟩

theorem Once.exists_member? (once : Once members key writes item)
    (reads : ReadBy writes decode) (same : List.Forall₂ SameMember members named) :
    ∃ value, member? named key = some (some value) ∧ decode value = some item := by
  obtain ⟨text, only, written⟩ := once
  obtain ⟨value, isValue, decodes⟩ := reads item text written
  have filtered := filter_sameMember same key
  rw [only] at filtered
  cases isFiltered : named.filter (·.1 == key) with
  | nil =>
      rw [isFiltered] at filtered
      nomatch filtered
  | cons read others =>
      rw [isFiltered] at filtered
      -- The text of the member is no other value than the one that it was decoded from.
      obtain _ | ⟨⟨rfl, isRead⟩, _ | _⟩ := filtered
      refine ⟨read.2, ?_, isRead.unique isValue ▸ decodes⟩
      rw [member?, isFiltered]

theorem AtMostOnce.exists_isWritten (atMost : AtMostOnce members key writes default item)
    (reads : ReadBy writes decode) {member : String × List Char} (isMember : member ∈ members)
    (isKey : member.1 = key) : ∃ value, IsWritten member.2 value := by
  obtain once | ⟨missing, -⟩ := atMost
  · exact once.exists_isWritten reads isMember isKey
  · exact absurd isKey (missing member isMember)

theorem AtMostOnce.exists_member? (atMost : AtMostOnce members key writes default item)
    (reads : ReadBy writes decode) (same : List.Forall₂ SameMember members named) :
    ∃ field, member? named key = some field ∧ orDefault? default decode field = some item := by
  obtain once | ⟨missing, rfl⟩ := atMost
  · obtain ⟨value, isThere, decodes⟩ := once.exists_member? reads same
    exact ⟨some value, isThere, decodes⟩
  · have filtered := filter_sameMember same key
    rw [List.filter_eq_nil_iff.2 fun member isMember => by simpa using missing member isMember]
      at filtered
    refine ⟨none, ?_, rfl⟩
    rw [member?, List.forall₂_nil_left_iff.1 filtered]

end Decoding

end Json

open Json

/-! ## Ranges -/

namespace IdRange

/-- The members of an object for a range. -/
structure HasMembers (range : IdRange) (members : List (String × List Char)) : Prop where
  first : Once members "from" WordText range.first
  last : Once members "to" WordText range.last
  description : AtMostOnce members "description" (NullableText Literal) none range.description
  others : Others members ["from", "to", "description"]

/-- What may be written for a range. -/
def WrittenAs (range : IdRange) (text : List Char) : Prop :=
  ∃ members, range.HasMembers members ∧ ObjectText members text

theorem HasMembers.exists_isWritten {range : IdRange} {members : List (String × List Char)}
    (fields : range.HasMembers members) :
    ∀ member ∈ members, ∃ value, IsWritten member.2 value := by
  intro member isMember
  by_cases known : member.1 ∈ ["from", "to", "description"]
  · simp only [List.mem_cons, List.not_mem_nil, or_false] at known
    obtain isKey | isKey | isKey := known
    · exact fields.first.exists_isWritten wordText_readBy isMember isKey
    · exact fields.last.exists_isWritten wordText_readBy isMember isKey
    · exact fields.description.exists_isWritten (literal_readBy.nullable rfl) isMember isKey
  · exact (fields.others member isMember known).exists_isWritten

theorem writtenAs_readBy : ReadBy WrittenAs ofJson? := by
  rintro range text ⟨members, fields, isObject⟩
  obtain ⟨named, same, written⟩ := exists_members isObject fields.exists_isWritten
  obtain ⟨first, isFirst, firstDecodes⟩ := fields.first.exists_member? wordText_readBy same
  obtain ⟨last, isLast, lastDecodes⟩ := fields.last.exists_member? wordText_readBy same
  obtain ⟨description, isDescription, descriptionDecodes⟩ :=
    fields.description.exists_member? (literal_readBy.nullable rfl) same
  refine ⟨_, written, ?_⟩
  simp [ofJson?, fields?, named?_map, isFirst, isLast, isDescription, firstDecodes, lastDecodes,
    descriptionDecodes]

end IdRange

namespace Manifest

/-! ## Manifests -/

/-- The members of an object for a manifest. -/
structure HasMembers (manifest : Manifest) (members : List (String × List Char)) : Prop where
  id : AtMostOnce members "id" (NullableText Literal) none manifest.id
  name : AtMostOnce members "name" (NullableText Literal) none manifest.name
  idRanges : AtMostOnce members "idRanges" (ListText IdRange.WrittenAs) [] manifest.idRanges
  idRange : AtMostOnce members "idRange" (NullableText IdRange.WrittenAs) none manifest.idRange
  symbols : AtMostOnce members "preprocessorSymbols" (ListText Literal) [] manifest.symbols
  others : Others members ["id", "name", "idRanges", "idRange", "preprocessorSymbols"]

/-- What may be written for a manifest: an object with spacing around it, and maybe a
byte-order mark before it all. -/
def WrittenAs (manifest : Manifest) (text : List Char) : Prop :=
  ∃ members object padded, manifest.HasMembers members ∧ ObjectText members object ∧
    Padded object padded ∧ (text = padded ∨ text = '\uFEFF' :: padded)

theorem HasMembers.exists_isWritten {manifest : Manifest} {members : List (String × List Char)}
    (fields : manifest.HasMembers members) :
    ∀ member ∈ members, ∃ value, IsWritten member.2 value := by
  intro member isMember
  by_cases known : member.1 ∈ ["id", "name", "idRanges", "idRange", "preprocessorSymbols"]
  · simp only [List.mem_cons, List.not_mem_nil, or_false] at known
    obtain isKey | isKey | isKey | isKey | isKey := known
    · exact fields.id.exists_isWritten (literal_readBy.nullable rfl) isMember isKey
    · exact fields.name.exists_isWritten (literal_readBy.nullable rfl) isMember isKey
    · exact fields.idRanges.exists_isWritten IdRange.writtenAs_readBy.list isMember isKey
    · exact fields.idRange.exists_isWritten (IdRange.writtenAs_readBy.nullable rfl) isMember isKey
    · exact fields.symbols.exists_isWritten literal_readBy.list isMember isKey
  · exact (fields.others member isMember known).exists_isWritten

/-- The members of a manifest are read in any order, among others. -/
theorem exists_ofJson? {manifest : Manifest} {members : List (String × List Char)}
    {text : List Char} (fields : manifest.HasMembers members) (isObject : ObjectText members text) :
    ∃ value, IsWritten text value ∧ ofJson? value = some manifest := by
  obtain ⟨named, same, written⟩ := exists_members isObject fields.exists_isWritten
  obtain ⟨id, isId, idDecodes⟩ := fields.id.exists_member? (literal_readBy.nullable rfl) same
  obtain ⟨name, isName, nameDecodes⟩ :=
    fields.name.exists_member? (literal_readBy.nullable rfl) same
  obtain ⟨idRanges, isRanges, rangesDecode⟩ :=
    fields.idRanges.exists_member? IdRange.writtenAs_readBy.list same
  obtain ⟨idRange, isRange, rangeDecodes⟩ :=
    fields.idRange.exists_member? (IdRange.writtenAs_readBy.nullable rfl) same
  obtain ⟨symbols, areSymbols, symbolsDecode⟩ :=
    fields.symbols.exists_member? literal_readBy.list same
  refine ⟨_, written, ?_⟩
  simp [ofJson?, fields?, named?_map, isId, isName, isRanges, isRange, areSymbols, idDecodes,
    nameDecodes, rangesDecode, rangeDecodes, symbolsDecode]

theorem head_ne_mark {members : List (String × List Char)} {object padded : List Char}
    (isObject : ObjectText members object) (isPadded : Padded object padded) :
    ∀ first ∈ padded.head?, first ≠ Text.byteOrderMark := by
  obtain ⟨texts, -, enclosed⟩ := isObject
  obtain ⟨before, after, isBefore, -, rfl⟩ := isPadded
  rintro first isFirst rfl
  cases before with
  | nil => cases enclosed <;> simp [Text.byteOrderMark] at isFirst
  | cons character before =>
      obtain rfl : character = _ := by simpa using isFirst
      exact absurd (isBefore _ (.head before)) (by decide)

theorem withoutMark_of_head {padded : List Char}
    (unmarked : ∀ first ∈ padded.head?, first ≠ Text.byteOrderMark) {text : String}
    (isText : text.toList = padded ∨ text.toList = Text.byteOrderMark :: padded) :
    withoutMark text = String.ofList padded := by
  obtain isText | isText := isText
  · rw [← isText, String.ofList_toList]
    unfold withoutMark
    split
    · rename_i first rest isCons
      rw [if_neg (unmarked first (by rw [← isText, isCons]; rfl))]
    · rfl
  · unfold withoutMark
    rw [isText]
    exact if_pos rfl

/-- Whatever other members a manifest has, in whatever order its own are, and whether or not a
byte-order mark comes first, the manifest is read, wherever its text is found.  So its ranges,
its name and the symbols that it defines depend on nothing else. -/
theorem read_among_other_members {manifest : Manifest} {text : String}
    (isText : manifest.WrittenAs text.toList) :
    ofText? text = some manifest ∧
      ∀ files path, (files path).text? = some text →
        read files path = .ok manifest ∧
          ∀ loaded, read files path = .ok loaded →
            loaded.ranges = manifest.ranges ∧ loaded.displayName = manifest.displayName ∧
              ∀ defines, loaded.initialSymbols defines = manifest.initialSymbols defines := by
  obtain ⟨members, object, padded, fields, isObject, isPadded, isText⟩ := isText
  obtain ⟨value, written, decodes⟩ := exists_ofJson? fields isObject
  have isManifest : ofText? text = some manifest := by
    rw [ofText?, withoutMark_of_head (head_ne_mark isObject isPadded) isText,
      (written.padded isPadded).read?, Option.bind_some, decodes]
  refine ⟨isManifest, fun files path isThere => ?_⟩
  have isRead : read files path = .ok manifest := by
    rw [read, isThere]
    simp only [isManifest]
  refine ⟨isRead, fun loaded isLoaded => ?_⟩
  obtain rfl : manifest = loaded := Except.ok.inj (isRead.symm.trans isLoaded)
  exact ⟨rfl, rfl, fun _ => rfl⟩

/-- A marked text with a repeated member that is unknown and holds half of a surrogate pair, and
with a range out of order that has an unknown member. -/
theorem read_among_repeated_members :
    let manifest : Manifest := ⟨none, none, [⟨1, 2, none⟩], none, []⟩
    let text := "\uFEFF\x7b\"x\":[\"\\uD83d\"],\t" ++
      "\"idRanges\":[\x7b\"to\":2,\"x\":null,\"from\":1\x7d],\"x\" :true\x7d\n"
    manifest.WrittenAs text.toList ∧ ofText? text = some manifest := by
  intro manifest text
  have tight (text : List Char) : Padded text text :=
    ⟨[], [], gap_nil, gap_nil, (List.append_nil text).symm⟩
  have unknown : ValueText "[\"\\uD83d\"]".toList := by
    have isUnit : HexUnit "D83d".toList _ := .digits (⟨by decide, .inr rfl⟩ : HexDigit _ 13)
      (⟨by decide, .inl rfl⟩ : HexDigit _ 8) (⟨by decide, .inl rfl⟩ : HexDigit _ 3)
      (⟨by decide, .inl rfl⟩ : HexDigit _ 13)
    have isHalf : StringText "\"\\uD83d\"".toList :=
      ⟨["\\uD83d".toList], List.forall_mem_singleton.2 (.unit isUnit), rfl⟩
    have enclosed : Enclosed '[' ']' _ _ := .cons (tight "\"\\uD83d\"".toList) .nil
    exact .array (List.forall_mem_singleton.2 (.string isHalf)) enclosed
  have isRange : IdRange.WrittenAs ⟨1, 2, none⟩
      "\x7b\"to\":2,\"x\":null,\"from\":1\x7d".toList := by
    have enclosed : Enclosed '{' '}' _ _ := .cons (tight "\"to\":2".toList)
      (.cons (tight "\"x\":null".toList) (.cons (tight "\"from\":1".toList) .nil))
    refine ⟨[("to", ['2']), ("x", "null".toList), ("from", ['1'])],
      ⟨⟨['1'], rfl, rfl⟩, ⟨['2'], rfl, rfl⟩, .inr ⟨by decide, rfl⟩, ?_⟩, _, ?_, enclosed⟩
    · intro member isMember apart
      simp only [List.mem_cons, List.not_mem_nil, or_false] at isMember
      obtain rfl | rfl | rfl := isMember
      · exact absurd (by decide) apart
      · exact .null
      · exact absurd (by decide) apart
    · exact .cons ⟨_, literal_of_plain _ (by simp), [], [], gap_nil, gap_nil, rfl⟩
        (.cons ⟨_, literal_of_plain _ (by simp), [], [], gap_nil, gap_nil, rfl⟩
          (.cons ⟨_, literal_of_plain _ (by simp), [], [], gap_nil, gap_nil, rfl⟩ .nil))
  have fields : manifest.HasMembers [("x", "[\"\\uD83d\"]".toList),
      ("idRanges", "[\x7b\"to\":2,\"x\":null,\"from\":1\x7d]".toList), ("x", "true".toList)] := by
    refine ⟨.inr ⟨by decide, rfl⟩, .inr ⟨by decide, rfl⟩, .inl ⟨_, rfl, ?_⟩,
      .inr ⟨by decide, rfl⟩, .inr ⟨by decide, rfl⟩, ?_⟩
    · exact ⟨_, .cons isRange .nil, .cons (tight _) .nil⟩
    · intro member isMember apart
      simp only [List.mem_cons, List.not_mem_nil, or_false] at isMember
      obtain rfl | rfl | rfl := isMember
      · exact unknown
      · exact absurd (by decide) apart
      · exact .true
  have isText : manifest.WrittenAs text.toList := by
    have afterTab (text : List Char) : Padded text ('\t' :: text) :=
      ⟨['\t'], [], gap_singleton (by decide), gap_nil, by simp⟩
    have enclosed : Enclosed '{' '}' _ _ := .cons (tight "\"x\":[\"\\uD83d\"]".toList)
      (.cons (afterTab "\"idRanges\":[\x7b\"to\":2,\"x\":null,\"from\":1\x7d]".toList)
        (.cons (tight "\"x\" :true".toList) .nil))
    subst text
    refine ⟨_, _, _, fields, ⟨_, ?_, enclosed⟩,
      ⟨[], ['\n'], gap_nil, gap_singleton (by decide), rfl⟩, .inr (by decide)⟩
    exact .cons ⟨_, literal_of_plain _ (by simp), [], [], gap_nil, gap_nil, rfl⟩
      (.cons ⟨_, literal_of_plain _ (by simp), [], [], gap_nil, gap_nil, rfl⟩
        (.cons ⟨_, literal_of_plain _ (by simp), [' '], [], gap_singleton (by decide), gap_nil, rfl⟩
          .nil))
  exact ⟨isText, (read_among_other_members isText).1⟩

end Manifest

end ObjectIds
