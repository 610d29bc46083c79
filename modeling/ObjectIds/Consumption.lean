import ObjectIds.Text.Letters

/-!
# Consumed ids

The back end records, for each kind of object, the ids that it has handed out.  The
records are listed in the order of their keys, each key once.  A key is the name of a
kind in some letter case, so that several records can concern one kind; the first of
them is then the one that counts.
-/

namespace ObjectIds

/-- The recorded ids for each key, listed in ascending order of the keys. -/
structure Consumption where
  entries : List (String × List UInt32)
  ascending : (entries.map Prod.fst).Pairwise (· < ·)
deriving DecidableEq, Repr

namespace Consumption

/-- Puts a record into a list in ascending order of keys, in place of one with the
same key. -/
def insertInto (key : String) (ids : List UInt32) :
    List (String × List UInt32) → List (String × List UInt32)
  | [] => [(key, ids)]
  | (first, firstIds) :: entries =>
      if key < first then (key, ids) :: (first, firstIds) :: entries
      else if key = first then (key, ids) :: entries
      else (first, firstIds) :: insertInto key ids entries

theorem mem_keys_insertInto {key other : String} {ids : List UInt32}
    {entries : List (String × List UInt32)}
    (member : other ∈ (insertInto key ids entries).map Prod.fst) :
    other = key ∨ other ∈ entries.map Prod.fst := by
  induction entries with
  | nil => simpa [insertInto] using member
  | cons entry entries ih =>
      obtain ⟨first, firstIds⟩ := entry
      unfold insertInto at member
      split at member
      · simpa using member
      · split at member
        · rename_i same
          rcases List.mem_cons.1 member with isKey | later
          · exact Or.inl isKey
          · exact Or.inr (List.mem_cons_of_mem _ later)
        · rcases List.mem_cons.1 member with isFirst | later
          · exact Or.inr (List.mem_cons.2 (Or.inl isFirst))
          · exact (ih later).imp id (List.mem_cons_of_mem _)

theorem insertInto_ascending {key : String} {ids : List UInt32}
    {entries : List (String × List UInt32)}
    (ascending : (entries.map Prod.fst).Pairwise (· < ·)) :
    ((insertInto key ids entries).map Prod.fst).Pairwise (· < ·) := by
  induction entries with
  | nil => simp [insertInto]
  | cons entry entries ih =>
      obtain ⟨first, firstIds⟩ := entry
      obtain ⟨firstLeast, entriesAscending⟩ := List.pairwise_cons.1 ascending
      unfold insertInto
      split
      · rename_i before
        refine List.pairwise_cons.2 ⟨?_, ascending⟩
        intro other member
        rcases List.mem_cons.1 member with rfl | later
        · exact before
        · exact String.lt_trans before (firstLeast other later)
      · split
        · rename_i same
          exact same ▸ ascending
        · rename_i notBefore notEqual
          refine List.pairwise_cons.2 ⟨?_, ih entriesAscending⟩
          intro other member
          rcases mem_keys_insertInto member with rfl | later
          · exact String.not_le.1 fun atMost =>
              notEqual (String.le_antisymm atMost (String.not_lt.1 notBefore))
          · exact firstLeast other later

theorem ascending_nil :
    (([] : List (String × List UInt32)).map Prod.fst).Pairwise (· < ·) :=
  List.Pairwise.nil

/-- No records. -/
def empty : Consumption := ⟨[], ascending_nil⟩

/-- The records with one more, in place of an earlier one with the same key. -/
def insert (consumption : Consumption) (key : String) (ids : List UInt32) :
    Consumption :=
  ⟨insertInto key ids consumption.entries, insertInto_ascending consumption.ascending⟩

/-- The records in a list, of which a later one replaces an earlier one with the same
key. -/
def ofList (entries : List (String × List UInt32)) : Consumption :=
  entries.foldl (fun consumption entry => consumption.insert entry.1 entry.2) empty

/-- The recorded ids of a kind: those of the first key that is the name of the kind in
some letter case. -/
def idsOf? (consumption : Consumption) (kind : String) : Option (List UInt32) :=
  (consumption.entries.find? fun entry => Text.equalIgnoringCase entry.1 kind).map
    Prod.snd

end Consumption

end ObjectIds
