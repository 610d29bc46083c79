import Mathlib.Data.List.Infix
import ObjectIds.Files.Path

/-!
# The segments of a path

The segments of a path are what its spelling is made of, after the slash that may make it
absolute: put together again, they are the path, and the first segments of a path are the
segments of a path themselves.
-/

namespace ObjectIds

namespace Path

section

variable {α : Type} [DecidableEq α] (separator : α)

theorem split_ne_nil (items : List α) : split separator items ≠ [] := by
  cases items with
  | nil => simp [split]
  | cons item items =>
      rw [split]
      split
      · exact List.cons_ne_nil _ _
      · split <;> exact List.cons_ne_nil _ _

theorem split_append_separator (first rest : List α) :
    split separator (first ++ separator :: rest) =
      split separator first ++ split separator rest := by
  induction first with
  | nil => simp [split]
  | cons item first ih =>
      obtain ⟨segment, segments, isSplit⟩ :=
        List.exists_cons_of_ne_nil (split_ne_nil separator first)
      rw [List.cons_append, split, split, ih, isSplit]
      split <;> rfl

variable {separator}

theorem split_of_not_mem {items : List α} (noSeparator : separator ∉ items) :
    split separator items = [items] := by
  induction items with
  | nil => rfl
  | cons item items ih =>
      simp only [List.mem_cons, not_or] at noSeparator
      rw [split, if_neg (Ne.symm noSeparator.1), ih noSeparator.2]

theorem split_intercalate {segments : List (List α)} (notEmpty : segments ≠ [])
    (noSeparator : ∀ segment ∈ segments, separator ∉ segment) :
    split separator ([separator].intercalate segments) = segments := by
  induction segments with
  | nil => contradiction
  | cons segment segments ih =>
      obtain ⟨notFirst, notLater⟩ := List.forall_mem_cons.1 noSeparator
      cases segments with
      | nil => simpa using split_of_not_mem notFirst
      | cons next others =>
          rw [List.intercalate_cons_cons, List.append_assoc, List.singleton_append,
            split_append_separator, split_of_not_mem notFirst,
            ih (List.cons_ne_nil _ _) notLater]
          rfl

/-- A list is its segments with separators between them. -/
theorem exists_eq_intercalate (separator : α) (items : List α) :
    ∃ segments, segments ≠ [] ∧ (∀ segment ∈ segments, separator ∉ segment) ∧
      items = [separator].intercalate segments := by
  induction items with
  | nil => exact ⟨[[]], by simp, by simp, rfl⟩
  | cons item items ih =>
      obtain ⟨segments, notEmpty, noSeparator, rfl⟩ := ih
      obtain ⟨first, others, rfl⟩ := List.exists_cons_of_ne_nil notEmpty
      by_cases isSeparator : item = separator
      · refine ⟨[] :: first :: others, List.cons_ne_nil _ _, ?_, ?_⟩
        · exact List.forall_mem_cons.2 ⟨List.not_mem_nil, noSeparator⟩
        · rw [List.intercalate_cons_cons, isSeparator]
          rfl
      · obtain ⟨notFirst, notLater⟩ := List.forall_mem_cons.1 noSeparator
        refine ⟨(item :: first) :: others, List.cons_ne_nil _ _, ?_, ?_⟩
        · refine List.forall_mem_cons.2 ⟨?_, notLater⟩
          simp [notFirst, Ne.symm isSeparator]
        · cases others <;> simp [List.intercalate_cons_cons]

end

/-- Segments that a path may have: they hold no slash, and none comes first in a relative
path. -/
structure Spelled (absolute : Bool) (segments : List String) : Prop where
  noSlash : ∀ segment ∈ segments, '/' ∉ segment.toList
  relative : absolute = false → segments.head? = some "" → segments = [""]

variable {absolute : Bool}

theorem Spelled.of_prefix {first segments : List String} (spelled : Spelled absolute segments)
    (isPrefix : first <+: segments) : Spelled absolute first := by
  refine ⟨fun segment member => spelled.noSlash segment (isPrefix.subset member), ?_⟩
  intro isRelative isBlank
  obtain ⟨later, rfl⟩ := isPrefix
  obtain ⟨others, rfl⟩ := List.head?_eq_some_iff.1 isBlank
  have whole := spelled.relative isRelative rfl
  simp only [List.cons_append, List.cons.injEq, true_and, List.append_eq_nil_iff] at whole
  rw [whole.1]

/-- What stands before the segments of a path. -/
def lead (absolute : Bool) : List Char := if absolute then ['/'] else []

theorem toList_ofSegments (absolute : Bool) (segments : List String) :
    (ofSegments absolute segments).text.toList =
      lead absolute ++ ['/'].intercalate (segments.map String.toList) := by
  have slash : "/".toList = ['/'] := rfl
  cases absolute <;> simp [ofSegments, lead, String.toList_intercalate, slash]

theorem Spelled.isAbsolute_eq {segments : List String} (spelled : Spelled absolute segments) :
    (ofSegments absolute segments).isAbsolute = absolute := by
  rw [isAbsolute, String.front?_eq, toList_ofSegments]
  cases absolute with
  | true => rfl
  | false =>
      rw [lead, if_neg Bool.false_ne_true, List.nil_append, beq_eq_false_iff_ne]
      intro startsWithSlash
      match segments with
      | [] => simp at startsWithSlash
      | [segment] =>
          obtain ⟨others, isSegment⟩ := List.head?_eq_some_iff.1 startsWithSlash
          have member : '/' ∈ segment.toList := by
            rw [show segment.toList = '/' :: others by simpa using isSegment]
            exact List.mem_cons_self
          exact spelled.noSlash segment List.mem_cons_self member
      | segment :: next :: others =>
          rw [List.map_cons, List.map_cons, List.intercalate_cons_cons] at startsWithSlash
          cases isText : segment.toList with
          | nil =>
              have isEmpty : segment = "" := String.toList_eq_nil_iff.1 isText
              have whole := spelled.relative rfl (by rw [isEmpty]; rfl)
              simp at whole
          | cons character text =>
              rw [isText] at startsWithSlash
              obtain rfl : character = '/' := by simpa using startsWithSlash
              apply spelled.noSlash segment List.mem_cons_self
              rw [isText]
              exact List.mem_cons_self

theorem Spelled.segments_ofSegments {segments : List String}
    (spelled : Spelled absolute segments) (notEmpty : segments ≠ []) :
    (ofSegments absolute segments).segments = segments := by
  have noSlash : ∀ text ∈ segments.map String.toList, '/' ∉ text := by
    simpa using spelled.noSlash
  have isRest : (if absolute then (ofSegments absolute segments).text.toList.drop 1
      else (ofSegments absolute segments).text.toList) =
        ['/'].intercalate (segments.map String.toList) := by
    rw [toList_ofSegments]
    cases absolute <;> rfl
  rw [Path.segments, spelled.isAbsolute_eq, isRest,
    split_intercalate (by simpa using notEmpty) noSlash, List.map_map]
  exact (List.map_congr_left fun segment _ => String.ofList_toList).trans (List.map_id _)

/-- A path is what its segments spell. -/
theorem exists_spelled (path : Path) :
    path.segments ≠ [] ∧ Spelled path.isAbsolute path.segments ∧
      ofSegments path.isAbsolute path.segments = path := by
  obtain ⟨rest, isText, isRest⟩ : ∃ rest, path.text.toList = lead path.isAbsolute ++ rest ∧
      path.segments = (split '/' rest).map String.ofList := by
    unfold segments
    cases isAbsolute : path.isAbsolute with
    | false => exact ⟨path.text.toList, rfl, rfl⟩
    | true =>
        rw [Path.isAbsolute, String.front?_eq, beq_iff_eq] at isAbsolute
        obtain ⟨rest, isText⟩ := List.head?_eq_some_iff.1 isAbsolute
        exact ⟨rest, isText, by rw [isText]; rfl⟩
  obtain ⟨texts, notEmpty, noSlash, rfl⟩ := exists_eq_intercalate '/' rest
  rw [split_intercalate notEmpty noSlash] at isRest
  have isPath : ofSegments path.isAbsolute path.segments = path := by
    have sameText : (ofSegments path.isAbsolute path.segments).text = path.text := by
      apply String.toList_inj.1
      rw [toList_ofSegments, isRest, isText]
      simp
    cases path
    exact congrArg Path.mk sameText
  refine ⟨by simpa [isRest] using notEmpty, ⟨?_, ?_⟩, isPath⟩
  · rw [isRest]
    simpa using noSlash
  · intro relative isBlank
    rw [isAbsolute, String.front?_eq, isText, beq_eq_false_iff_ne] at relative
    rw [isRest] at isBlank ⊢
    obtain ⟨first, others, rfl⟩ := List.exists_cons_of_ne_nil notEmpty
    have isNil : first = [] := by simpa using isBlank
    -- A blank first segment with another one after it would be a slash at the start.
    cases others with
    | nil => simp [isNil]
    | cons next others =>
        cases isAbsolute : path.isAbsolute <;>
          simp [isNil, isAbsolute, lead, List.intercalate_cons_cons] at relative

theorem ofSegments_singleton (segment : String) : ofSegments false [segment] = ⟨segment⟩ := by
  simp [ofSegments]

theorem ofSegments_append {first second : List String} (firstNotEmpty : first ≠ [])
    (secondNotEmpty : second ≠ []) :
    ofSegments absolute (first ++ second) =
      ⟨(ofSegments absolute first).text ++ "/" ++ (ofSegments false second).text⟩ := by
  simp [ofSegments, String.intercalate_append_of_ne_nil firstNotEmpty secondNotEmpty,
    String.append_assoc]

theorem Spelled.concat {segments : List String} {name : String}
    (spelled : Spelled absolute segments) (others : absolute = false → segments ≠ [""])
    (noSlash : '/' ∉ name.toList) (notEmpty : name ≠ "") :
    Spelled absolute (segments ++ [name]) := by
  refine ⟨fun segment member => ?_, fun isRelative isBlank => ?_⟩
  · rcases List.mem_append.1 member with early | isLast
    · exact spelled.noSlash segment early
    · rwa [List.mem_singleton.1 isLast]
  · cases segments with
    | nil => exact absurd (by simpa using isBlank) notEmpty
    | cons first segments =>
        exact absurd (spelled.relative isRelative (by simpa using isBlank)) (others isRelative)

/-- A path whose last segment is a name does not end with a slash. -/
theorem exists_getLast?_text {segments : List String} {last : String}
    (noSlash : '/' ∉ last.toList) (notEmpty : last ≠ "") :
    ∃ character, character ≠ '/' ∧
      (ofSegments absolute (segments ++ [last])).text.toList.getLast? = some character := by
  have isNonempty : last.toList ≠ [] := fun isNil => notEmpty (String.toList_eq_nil_iff.1 isNil)
  refine ⟨last.toList.getLast isNonempty, ?_, ?_⟩
  · exact fun isSlash => noSlash (isSlash ▸ List.getLast_mem isNonempty)
  · obtain ⟨before, isText⟩ : ∃ before,
        (ofSegments absolute (segments ++ [last])).text.toList = before ++ last.toList := by
      cases segments with
      | nil => exact ⟨lead absolute, by simp [toList_ofSegments]⟩
      | cons first segments =>
          rw [ofSegments_append (List.cons_ne_nil _ _) (List.cons_ne_nil _ _),
            ofSegments_singleton, String.toList_append]
          exact ⟨_, rfl⟩
    rw [isText, List.getLast?_append_of_ne_nil _ isNonempty,
      List.getLast?_eq_some_getLast isNonempty]

/-- A name is joined to a path as one more segment, except that a blank last segment makes room
for it. -/
theorem Spelled.exists_join_eq {segments : List String} {name : String}
    (spelled : Spelled absolute segments) (noSlash : '/' ∉ name.toList) (notEmpty : name ≠ "") :
    ∃ kept, (segments = kept ∨ segments = kept ++ [""]) ∧ Spelled absolute (kept ++ [name]) ∧
      (ofSegments absolute segments).join name = ofSegments absolute (kept ++ [name]) := by
  have single : [name] ≠ [] := List.cons_ne_nil _ _
  rw [join, String.back?_eq]
  rcases List.eq_nil_or_concat' segments with rfl | ⟨kept, last, rfl⟩
  · refine ⟨[], .inl rfl, spelled.concat (by simp) noSlash notEmpty, ?_⟩
    cases absolute <;> simp [ofSegments]
  · by_cases isBlank : last = ""
    · subst isBlank
      have keptSpelled := spelled.of_prefix (List.prefix_append kept [""])
      refine ⟨kept, .inr rfl, keptSpelled.concat ?_ noSlash notEmpty, ?_⟩
      · rintro isRelative rfl
        simpa using spelled.relative isRelative rfl
      · cases kept with
        | nil => cases absolute <;> simp [ofSegments]
        | cons first kept =>
            rw [ofSegments_append (List.cons_ne_nil first kept) (List.cons_ne_nil "" []),
              ofSegments_append (List.cons_ne_nil first kept) single, ofSegments_singleton,
              ofSegments_singleton]
            simp [String.append_assoc]
    · have lastNoSlash := spelled.noSlash last (by simp)
      obtain ⟨character, notSlash, isLast⟩ : ∃ character, character ≠ '/' ∧
          (ofSegments absolute (kept ++ [last])).text.toList.getLast? = some character :=
        exists_getLast?_text lastNoSlash isBlank
      refine ⟨kept ++ [last], .inl rfl, spelled.concat ?_ noSlash notEmpty, ?_⟩
      · intro isRelative whole
        exact isBlank (by simpa using congrArg List.getLast? whole)
      · rw [isLast, ofSegments_append (by simp) single, ofSegments_singleton]
        simp only [if_neg notSlash]

end Path

end ObjectIds
