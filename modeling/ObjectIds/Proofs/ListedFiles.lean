import ObjectIds.Json.Decode
import ObjectIds.Listing
import ObjectIds.Proofs.ReadLayout

/-!
# What a document lists

A document lists, for each file, its path, its declarations and the symbols that it checks.
Reading the document as JSON and decoding the value gives all of this back, so that documents
are equal only if they list the same.
-/

namespace ObjectIds

namespace Json

/-! ## Fields and lists -/

/-- The fields that are present, with their keys. -/
def present (fields : List (String × Option Json)) : List (String × Json) :=
  fields.filterMap fun (key, value) => value.map (key, ·)

/-- The object with those fields that are present. -/
def ofFields (fields : List (String × Option Json)) : Json :=
  .object ((present fields).map fun (key, value) => (characters key, value))

/-- The members of an object that have given keys. -/
def objectFields? (keys : List String) : Json → Option (List (Option Json))
  | .object members => (named? members).bind fun named => keys.mapM (member? named)
  | _ => none

theorem mapM_eq_some_map {α β : Type} {decode : α → Option β} {result : α → β}
    {items : List α} (each : ∀ item ∈ items, decode item = some (result item)) :
    items.mapM decode = some (items.map result) := by
  induction items with
  | nil => rfl
  | cons item items ih =>
      have later := ih fun other member => each other (.tail item member)
      rw [List.mapM_cons, each item (.head items), later]
      rfl

/-- What is encoded element by element is decoded element by element. -/
theorem mapM_map_eq_some {α β : Type} {decode : β → Option α} {encode : α → β}
    (each : ∀ item, decode (encode item) = some item) (items : List α) :
    (items.map encode).mapM decode = some items := by
  have whole : items.mapM (decode ∘ encode) = some (items.map id) :=
    mapM_eq_some_map fun item _ => each item
  rwa [List.map_id, ← List.mapM_map] at whole

theorem textOf?_characters (text : String) : textOf? (characters text) = some text := by
  have scalars : (text.toList.map Character.scalar).mapM Character.scalar? = some text.toList :=
    mapM_map_eq_some (fun character => (rfl : Character.scalar? (.scalar character) = _)) _
  rw [textOf?, characters, scalars, Option.map_some, String.ofList_toList]

theorem text?_ofText (text : String) : text? (ofText text) = some text :=
  textOf?_characters text

theorem word?_word (number : UInt32) : word? (Listing.word number) = some number := by
  rw [Listing.word, ofNat, word?, Nat.toList_repr]
  refine Text.decimal?_eq_some_iff.2 ⟨Nat.toDigits_ne_nil, ?_, Nat.ofDigitChars_ten_toDigits⟩
  exact fun _ => Nat.isDigit_of_mem_toDigits (by decide) (by decide)

theorem listOf?_text?_texts (texts : List String) :
    listOf? text? (Listing.texts texts) = some texts :=
  mapM_map_eq_some text?_ofText texts

theorem named?_map (members : List (String × Json)) :
    named? (members.map fun (key, value) => (characters key, value)) = some members :=
  mapM_map_eq_some (fun (key, value) => by simp [textOf?_characters]) members

theorem present_cons (field : String × Option Json) (fields : List (String × Option Json)) :
    present (field :: fields) = (field.2.map (field.1, ·)).toList ++ present fields := by
  obtain ⟨key, value⟩ := field
  cases value <;> rfl

theorem filter_present_of_not_mem {fields : List (String × Option Json)} {key : String}
    (missing : key ∉ fields.map Prod.fst) : (present fields).filter (·.1 == key) = [] := by
  rw [List.filter_eq_nil_iff]
  intro member isPresent isKey
  simp only [present, List.mem_filterMap, Option.map_eq_some_iff] at isPresent
  obtain ⟨field, inFields, value, -, rfl⟩ := isPresent
  exact missing (List.mem_map.2 ⟨field, inFields, eq_of_beq isKey⟩)

theorem member?_present {fields : List (String × Option Json)}
    (distinct : (fields.map Prod.fst).Nodup) {field : String × Option Json}
    (isField : field ∈ fields) : member? (present fields) field.1 = some field.2 := by
  have only : (present fields).filter (·.1 == field.1) =
      (field.2.map (field.1, ·)).toList := by
    induction fields with
    | nil => contradiction
    | cons first fields ih =>
        rw [List.map_cons, List.nodup_cons] at distinct
        rw [present_cons, List.filter_append]
        rcases List.mem_cons.1 isField with rfl | later
        · rw [filter_present_of_not_mem distinct.1, List.append_nil, List.filter_eq_self]
          intro member isMember
          simp only [Option.mem_toList, Option.map_eq_some_iff] at isMember
          obtain ⟨value, -, rfl⟩ := isMember
          exact beq_self_eq_true _
        · rw [ih distinct.2 later, List.append_left_eq_self, List.filter_eq_nil_iff]
          intro member isMember isKey
          simp only [Option.mem_toList, Option.map_eq_some_iff] at isMember
          obtain ⟨value, -, rfl⟩ := isMember
          rw [eq_of_beq isKey] at distinct
          exact distinct.1 (List.mem_map_of_mem later)
  rw [member?, only]
  cases field.2 <;> rfl

/-- The fields of an object are read back if no two of them have the same key. -/
theorem objectFields?_ofFields {fields : List (String × Option Json)}
    (distinct : (fields.map Prod.fst).Nodup) :
    objectFields? (fields.map Prod.fst) (ofFields fields) = some (fields.map Prod.snd) := by
  rw [ofFields, objectFields?, named?_map, Option.bind_some, List.mapM_map]
  exact mapM_eq_some_map fun _ isField => member?_present distinct isField

theorem plain_ofFields {fields : List (String × Option Json)}
    (values : ∀ field ∈ fields, ∀ value ∈ field.2, Plain value) : Plain (ofFields fields) := by
  apply Plain.object
  · intro member isMember
    obtain ⟨field, -, rfl⟩ := List.mem_map.1 isMember
    exact ⟨field.1, rfl⟩
  · intro member isMember
    simp only [present, List.map_filterMap, List.mem_filterMap, Option.map_map,
      Option.map_eq_some_iff] at isMember
    obtain ⟨field, isField, value, isValue, rfl⟩ := isMember
    exact values field isField value isValue

end Json

namespace Listing

open Json

theorem plain_word (number : UInt32) : Plain (word number) := .ofNat number.toNat

theorem plain_texts (values : List String) : Plain (texts values) := by
  apply Plain.array
  intro element isElement
  obtain ⟨text, -, rfl⟩ := List.mem_map.1 isElement
  exact .ofText text

/-! ## Declarations -/

/-- What a document says about a declaration. -/
structure DeclarationEntry where
  kind : String
  id : Option UInt32
  name : Option String
  interfaces : List String
  target : Option String
  position : Position
deriving DecidableEq

namespace DeclarationEntry

/-- What is listed of a declaration. -/
def ofDeclaration (declaration : Declaration) : DeclarationEntry :=
  ⟨declaration.kind, declaration.id, declaration.name, declaration.interfaces,
    declaration.target, declaration.position⟩

/-- The fields for a declaration. -/
def fields (entry : DeclarationEntry) : List (String × Option Json) :=
  [("kind", some (ofText entry.kind)), ("id", entry.id.map word),
    ("name", entry.name.map ofText),
    ("implements", if entry.interfaces.isEmpty then none else some (texts entry.interfaces)),
    ("extends", entry.target.map ofText), ("position", some (Listing.position entry.position))]

/-- The fields for a position. -/
def positionFields (place : Position) : List (String × Option Json) :=
  [("line", some (word place.line)), ("column", some (word place.column))]

/-- Decodes a position. -/
def position? (value : Json) : Option Position :=
  match objectFields? ["line", "column"] value with
  | some [some line, some column] => do
      let line ← word? line
      let column ← word? column
      return ⟨line, column⟩
  | _ => none

/-- Decodes a declaration.  An id, a name or a target that is missing is absent, and
interfaces that are missing are none. -/
def ofJson? (value : Json) : Option DeclarationEntry :=
  match objectFields? ["kind", "id", "name", "implements", "extends", "position"] value with
  | some [some kind, id, name, interfaces, target, some position] => do
      let kind ← text? kind
      let id ← orDefault? none (fun value => (word? value).map some) id
      let name ← orDefault? none (fun value => (text? value).map some) name
      let interfaces ← orDefault? [] (listOf? text?) interfaces
      let target ← orDefault? none (fun value => (text? value).map some) target
      let position ← position? position
      return ⟨kind, id, name, interfaces, target, position⟩
  | _ => none

theorem memberIfAny_eq {α : Type} (key : String) (encode : α → Json) (value : Option α) :
    memberIfAny key encode value = ((value.map encode).map (key, ·)).toList.map
      fun (key, value) => (characters key, value) := by
  cases value <;> rfl

theorem declaration_eq (declaration : Declaration) :
    Listing.declaration declaration = ofFields (ofDeclaration declaration).fields := by
  have interfaces : (if declaration.interfaces.isEmpty then []
      else member "implements" (texts declaration.interfaces)) =
        memberIfAny "implements" (fun value => value) (if declaration.interfaces.isEmpty then none
          else some (texts declaration.interfaces)) := by
    cases declaration.interfaces <;> rfl
  rw [Listing.declaration, interfaces]
  simp only [ofFields, fields, ofDeclaration, present_cons, List.map_append, memberIfAny_eq,
    Option.map_id', List.append_assoc]
  rfl

theorem position_eq (place : Position) :
    Listing.position place = ofFields (positionFields place) := rfl

theorem position?_position (place : Position) :
    position? (Listing.position place) = some place := by
  have asFields : objectFields? ["line", "column"] (ofFields (positionFields place)) =
      some ((positionFields place).map Prod.snd) :=
    objectFields?_ofFields (by simp [positionFields])
  rw [position?, position_eq, asFields]
  simp [positionFields, word?_word]

theorem orDefault?_map {α : Type} {encode : α → Json} {decode : Json → Option α}
    (each : ∀ item, decode (encode item) = some item) (item : Option α) :
    orDefault? none (fun value => (decode value).map some) (item.map encode) = some item := by
  cases item with
  | none => rfl
  | some item =>
      rw [Option.map_some, orDefault?, each]
      rfl

theorem ofJson?_fields (entry : DeclarationEntry) :
    ofJson? (ofFields entry.fields) = some entry := by
  have interfaces : orDefault? [] (listOf? text?)
      (if entry.interfaces.isEmpty then none else some (texts entry.interfaces)) =
        some entry.interfaces := by
    cases entry.interfaces with
    | nil => rfl
    | cons name names => exact listOf?_text?_texts (name :: names)
  have asFields : objectFields? ["kind", "id", "name", "implements", "extends", "position"]
      (ofFields entry.fields) = some (entry.fields.map Prod.snd) :=
    objectFields?_ofFields (by simp [fields])
  rw [ofJson?, asFields]
  simp only [fields, List.map_cons, List.map_nil]
  rw [text?_ofText, orDefault?_map word?_word, orDefault?_map text?_ofText, interfaces,
    orDefault?_map text?_ofText, position?_position]
  rfl

theorem plain_position (place : Position) : Plain (Listing.position place) := by
  rw [position_eq]
  apply plain_ofFields
  simp [positionFields, plain_word]

theorem plain_of_mem_map {α : Type} {encode : α → Json} {item : Option α} {value : Json}
    (each : ∀ item, Plain (encode item)) (isValue : value ∈ item.map encode) : Plain value := by
  obtain ⟨item, -, rfl⟩ := Option.map_eq_some_iff.1 isValue
  exact each item

theorem plain_fields (entry : DeclarationEntry) : Plain (ofFields entry.fields) := by
  apply plain_ofFields
  simp only [fields, List.forall_mem_cons]
  refine ⟨?kind, ?id, ?name, ?interfaces, ?target, ?position, by simp⟩
  case kind => exact fun value isValue => Option.some.inj isValue ▸ .ofText entry.kind
  case id => exact fun value isValue => plain_of_mem_map plain_word isValue
  case name => exact fun value isValue => plain_of_mem_map .ofText isValue
  case interfaces =>
    intro value isValue
    split at isValue
    · contradiction
    · exact Option.some.inj isValue ▸ plain_texts entry.interfaces
  case target => exact fun value isValue => plain_of_mem_map .ofText isValue
  case position =>
    exact fun value isValue => Option.some.inj isValue ▸ plain_position entry.position

end DeclarationEntry

/-! ## Files -/

/-- What a document says about a file. -/
structure FileEntry where
  file : String
  declarations : List DeclarationEntry
  checkedSymbols : List String
deriving DecidableEq

namespace FileEntry

/-- What is listed of a file. -/
def ofScan (scan : FileScan) : FileEntry :=
  ⟨scan.file.text, scan.scan.declarations.map .ofDeclaration, scan.scan.symbols.checked.toList⟩

/-- The fields for a file. -/
def fields (entry : FileEntry) : List (String × Option Json) :=
  [("file", some (ofText entry.file)),
    ("declarations",
      some (.array (entry.declarations.map fun declaration => ofFields declaration.fields))),
    ("checkedSymbols", some (texts entry.checkedSymbols))]

/-- Decodes a file. -/
def ofJson? (value : Json) : Option FileEntry :=
  match objectFields? ["file", "declarations", "checkedSymbols"] value with
  | some [some file, some declarations, some symbols] => do
      let file ← text? file
      let declarations ← listOf? DeclarationEntry.ofJson? declarations
      let symbols ← listOf? text? symbols
      return ⟨file, declarations, symbols⟩
  | _ => none

theorem file_eq (scan : FileScan) : Listing.file scan = ofFields (ofScan scan).fields := by
  have declarations : scan.scan.declarations.map declaration =
      (scan.scan.declarations.map DeclarationEntry.ofDeclaration).map
        fun declaration => ofFields declaration.fields := by
    rw [List.map_map]
    exact List.map_congr_left fun declaration _ => DeclarationEntry.declaration_eq declaration
  rw [Listing.file, declarations]
  rfl

theorem ofJson?_fields (entry : FileEntry) : ofJson? (ofFields entry.fields) = some entry := by
  have asFields : objectFields? ["file", "declarations", "checkedSymbols"]
      (ofFields entry.fields) = some (entry.fields.map Prod.snd) :=
    objectFields?_ofFields (by simp [fields])
  have declarations : listOf? DeclarationEntry.ofJson?
      (.array (entry.declarations.map fun declaration => ofFields declaration.fields)) =
        some entry.declarations :=
    mapM_map_eq_some DeclarationEntry.ofJson?_fields entry.declarations
  rw [ofJson?, asFields]
  simp only [fields, List.map_cons, List.map_nil]
  rw [text?_ofText, declarations, listOf?_text?_texts]
  rfl

theorem plain_fields (entry : FileEntry) : Plain (ofFields entry.fields) := by
  have declarations : Plain
      (.array (entry.declarations.map fun declaration => ofFields declaration.fields)) := by
    apply Plain.array
    intro element isElement
    obtain ⟨declaration, -, rfl⟩ := List.mem_map.1 isElement
    exact declaration.plain_fields
  apply plain_ofFields
  simp only [fields, List.forall_mem_cons]
  refine ⟨?file, ?declarations, ?symbols, by simp⟩
  case file => exact fun value isValue => Option.some.inj isValue ▸ .ofText entry.file
  case declarations => exact fun value isValue => Option.some.inj isValue ▸ declarations
  case symbols =>
    exact fun value isValue => Option.some.inj isValue ▸ plain_texts entry.checkedSymbols

end FileEntry

theorem document_eq (scans : List FileScan) : document scans =
    .array ((scans.map FileEntry.ofScan).map fun entry => ofFields entry.fields) := by
  rw [document, List.map_map]
  exact congrArg Json.array (List.map_congr_left fun scan _ => FileEntry.file_eq scan)

theorem plain_document (scans : List FileScan) : Plain (document scans) := by
  rw [document_eq]
  apply Plain.array
  intro element isElement
  obtain ⟨entry, -, rfl⟩ := List.mem_map.1 isElement
  exact entry.plain_fields

/-- A document is read back as an array with what is listed of each file, and two documents
are equal only if the same is listed in both. -/
theorem json_read_back (scans : List FileScan) :
    (∃ text elements, json scans = text ++ "\n" ∧ read? text = some (.array elements) ∧
      read? (json scans) = some (.array elements) ∧
      elements.mapM FileEntry.ofJson? = some (scans.map FileEntry.ofScan)) ∧
    ∀ others, json scans = json others ↔
      scans.map FileEntry.ofScan = others.map FileEntry.ofScan := by
  have decoded (scans : List FileScan) :
      ((scans.map FileEntry.ofScan).map fun entry => ofFields entry.fields).mapM
        FileEntry.ofJson? = some (scans.map FileEntry.ofScan) :=
    mapM_map_eq_some FileEntry.ofJson?_fields _
  have isRead (scans : List FileScan) := (plain_document scans).read?_pretty
  constructor
  · refine ⟨(document scans).pretty, _, rfl, ?_, ?_, decoded scans⟩
    · rw [(isRead scans).1, document_eq]
    · rw [json, (isRead scans).2, document_eq]
  · intro others
    constructor
    · intro same
      have sameDocument : document scans = document others := by
        apply Option.some.inj
        rw [← (isRead scans).2, ← (isRead others).2]
        exact congrArg read? same
      rw [document_eq, document_eq, array.injEq] at sameDocument
      apply Option.some.inj
      rw [← decoded scans, ← decoded others, sameDocument]
    · intro same
      rw [json, json, document_eq, document_eq, same]

end Listing

end ObjectIds
