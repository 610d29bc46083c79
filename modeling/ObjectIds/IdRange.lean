/-!
# Ranges of object ids

An app may use the ids in its ranges.  A range runs from its first to its last id,
both included.  One whose last id comes before its first contains no id, but still
counts as one available id; ids in several ranges count once for each of them.
-/

namespace ObjectIds

/-- A range of object ids. -/
structure IdRange where
  first : UInt32
  last : UInt32
  description : Option String
deriving DecidableEq, Repr

namespace IdRange

/-- Whether an id lies in a range. -/
def contains (range : IdRange) (id : UInt32) : Bool :=
  decide (range.first ≤ id) && decide (id ≤ range.last)

/-- The number of ids that a range counts for. -/
def size (range : IdRange) : Nat :=
  range.last.toNat - range.first.toNat + 1

/-- Whether an id lies in one of several ranges. -/
def anyContains (ranges : List IdRange) (id : UInt32) : Bool :=
  ranges.any (·.contains id)

/-- The number of ids that several ranges count for. -/
def available (ranges : List IdRange) : Nat :=
  ranges.foldr (fun range total => range.size + total) 0

@[simp]
theorem available_nil : available [] = 0 := rfl

@[simp]
theorem available_cons (range : IdRange) (ranges : List IdRange) :
    available (range :: ranges) = range.size + available ranges := rfl

end IdRange

end ObjectIds
