/-!
# Symbols of conditional compilation

A symbol is defined or not, and has been checked or not.  Both are finite sets of
case-sensitive names, listed in the order of their code points without repetition, so
that two sets with the same members are equal.
-/

namespace ObjectIds

/-- A finite set of names, listed in ascending order. -/
structure SymbolSet where
  toList : List String
  ascending : toList.Pairwise (· < ·)
deriving DecidableEq, Repr

namespace SymbolSet

/-- Adds a name to an ascending list. -/
def insertInto (name : String) : List String → List String
  | [] => [name]
  | first :: names =>
      if name < first then name :: first :: names
      else if name = first then first :: names
      else first :: insertInto name names

theorem mem_insertInto {name other : String} {names : List String} :
    other ∈ insertInto name names ↔ other = name ∨ other ∈ names := by
  induction names with
  | nil => simp [insertInto]
  | cons first names ih =>
      unfold insertInto
      split
      · simp
      · split
        · simp_all
        · simp only [List.mem_cons, ih]
          constructor
          · rintro (isFirst | isName | isLater)
            · exact Or.inr (Or.inl isFirst)
            · exact Or.inl isName
            · exact Or.inr (Or.inr isLater)
          · rintro (isName | isFirst | isLater)
            · exact Or.inr (Or.inl isName)
            · exact Or.inl isFirst
            · exact Or.inr (Or.inr isLater)

theorem insertInto_ascending {name : String} {names : List String}
    (ascending : names.Pairwise (· < ·)) :
    (insertInto name names).Pairwise (· < ·) := by
  induction names with
  | nil => simp [insertInto]
  | cons first names ih =>
      obtain ⟨firstLeast, namesAscending⟩ := List.pairwise_cons.1 ascending
      unfold insertInto
      split
      · rename_i before
        refine List.pairwise_cons.2 ⟨?_, ascending⟩
        intro other member
        rcases List.mem_cons.1 member with rfl | later
        · exact before
        · exact String.lt_trans before (firstLeast other later)
      · split
        · exact ascending
        · rename_i notBefore notEqual
          refine List.pairwise_cons.2 ⟨?_, ih namesAscending⟩
          intro other member
          rcases mem_insertInto.1 member with rfl | later
          · exact String.not_le.1 fun atMost =>
              notEqual (String.le_antisymm atMost (String.not_lt.1 notBefore))
          · exact firstLeast other later

/-- The set without members. -/
def empty : SymbolSet := ⟨[], List.Pairwise.nil⟩

instance : Inhabited SymbolSet := ⟨empty⟩

instance : Membership String SymbolSet where
  mem set name := name ∈ set.toList

instance (name : String) (set : SymbolSet) : Decidable (name ∈ set) :=
  inferInstanceAs (Decidable (name ∈ set.toList))

/-- The set with one more member. -/
def insert (set : SymbolSet) (name : String) : SymbolSet :=
  ⟨insertInto name set.toList, insertInto_ascending set.ascending⟩

/-- The set without a member. -/
def erase (set : SymbolSet) (name : String) : SymbolSet :=
  ⟨set.toList.filter (· != name), set.ascending.filter _⟩

/-- The set of the names in a list. -/
def ofList (names : List String) : SymbolSet :=
  names.foldl insert empty

@[simp]
theorem not_mem_empty (name : String) : name ∉ empty := List.not_mem_nil

@[simp]
theorem mem_insert {set : SymbolSet} {name other : String} :
    other ∈ set.insert name ↔ other = name ∨ other ∈ set :=
  mem_insertInto

@[simp]
theorem mem_erase {set : SymbolSet} {name other : String} :
    other ∈ set.erase name ↔ other ∈ set ∧ other ≠ name := by
  show other ∈ set.toList.filter (· != name) ↔ other ∈ set.toList ∧ other ≠ name
  simp

end SymbolSet

/-- The symbols defined at one point of a source, and those checked before it. -/
structure SymbolTable where
  defined : SymbolSet
  checked : SymbolSet
deriving DecidableEq, Repr, Inhabited

namespace SymbolTable

/-- The table in which no symbol is defined or checked. -/
def empty : SymbolTable := ⟨.empty, .empty⟩

/-- A table in which the given symbols are defined and none is checked. -/
def ofDefined (symbols : List String) : SymbolTable := ⟨.ofList symbols, .empty⟩

/-- Whether a symbol is defined. -/
def isDefined (table : SymbolTable) (symbol : String) : Bool :=
  decide (symbol ∈ table.defined)

/-- The table after a symbol is defined. -/
def define (table : SymbolTable) (symbol : String) : SymbolTable :=
  { table with defined := table.defined.insert symbol }

/-- The table after a symbol is made undefined. -/
def undefine (table : SymbolTable) (symbol : String) : SymbolTable :=
  { table with defined := table.defined.erase symbol }

/-- The table after a symbol is checked. -/
def markChecked (table : SymbolTable) (symbol : String) : SymbolTable :=
  { table with checked := table.checked.insert symbol }

end SymbolTable

end ObjectIds
