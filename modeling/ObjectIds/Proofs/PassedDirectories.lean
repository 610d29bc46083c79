import Mathlib.Data.List.Basic
import Mathlib.Data.List.Infix
import ObjectIds.Proofs.Places

/-!
# Directories on the way along a path

Where there are no links, each segment of a path keeps to a directory, goes back to the one
around it, or enters one in it.  So a path leads through all directories that are around the
place where it ends and in the one where it starts, the innermost of them last, and it may enter
others that it leaves again by `..`.
-/

namespace ObjectIds

namespace FileTree

/-- Whether there is no link among entries and below them. -/
def hasNoLinks : List (FileName × FileTree) → Bool
  | [] => true
  | (_, .file _) :: entries => hasNoLinks entries
  | (_, .directory inner) :: entries => hasNoLinks inner && hasNoLinks entries
  | (_, .link _) :: _ => false

/-- There is no link below the directory at a place. -/
def FreeOfLinks (root : List (FileName × FileTree)) (top : List FileName) : Prop :=
  ∃ entries, treeAt? root top = some (.directory entries) ∧ hasNoLinks entries = true

/-- Segments, given last first, that lead from the directory at one place to the directory at
another. -/
inductive Leads (root : List (FileName × FileTree)) (base : List FileName) :
    List FileName → List FileName → Prop
  | nil : Leads root base [] base
  | blank {segment : FileName} {earlier place : List FileName}
      (blank : segment = "" ∨ segment = ".") (leads : Leads root base earlier place) :
      Leads root base (segment :: earlier) place
  | parent {earlier place : List FileName} (leads : Leads root base earlier place) :
      Leads root base (".." :: earlier) place.tail
  | name {segment : FileName} {earlier place : List FileName}
      {entries : List (FileName × FileTree)} (leads : Leads root base earlier place)
      (isName : IsName segment)
      (isDirectory : treeAt? root (segment :: place) = some (.directory entries)) :
      Leads root base (segment :: earlier) (segment :: place)

/-- The directories through which segments lead from a place, the last one first.  The segments
are given last first. -/
def passed (root : List (FileName × FileTree)) (base segments : List FileName) :
    List (List FileName) :=
  segments.tails.filterMap fun earlier => locate root linkLimit base earlier.reverse

variable {root entries : List (FileName × FileTree)} {top base segments place : List FileName}

theorem hasNoLinks_lookup {name : FileName} {tree : FileTree}
    (noLinks : hasNoLinks entries = true) (isEntry : entries.lookup name = some tree) :
    (∃ content, tree = .file content) ∨
      ∃ inner, tree = .directory inner ∧ hasNoLinks inner = true := by
  fun_induction hasNoLinks entries with
  | case1 => contradiction
  | case2 other content entries ih =>
      rw [List.lookup_cons] at isEntry
      split at isEntry
      · exact .inl ⟨content, (Option.some.inj isEntry).symm⟩
      · exact ih noLinks isEntry
  | case3 other inner entries innerIH ih =>
      obtain ⟨innerFree, othersFree⟩ : _ ∧ _ := by simpa using noLinks
      rw [List.lookup_cons] at isEntry
      split at isEntry
      · exact .inr ⟨inner, (Option.some.inj isEntry).symm, innerFree⟩
      · exact ih othersFree isEntry
  | case4 => contradiction

/-- Below a directory without links there is a file or a directory where anything is. -/
theorem FreeOfLinks.file_or_directory {tree : FileTree} (noLinks : FreeOfLinks root top)
    (isBelow : top <:+ place) (isTree : treeAt? root place = some tree) :
    (∃ content, tree = .file content) ∨
      ∃ inner, tree = .directory inner ∧ hasNoLinks inner = true := by
  obtain ⟨entries, isTop, noLinks⟩ := noLinks
  obtain ⟨names, rfl⟩ := isBelow
  induction names generalizing tree with
  | nil =>
      obtain rfl := Option.some.inj (isTop.symm.trans isTree)
      exact .inr ⟨entries, rfl, noLinks⟩
  | cons name names ih =>
      obtain ⟨around, isOuter, isEntry⟩ := exists_directory_of_treeAt?_cons isTree
      rcases ih isOuter with ⟨content, isFile⟩ | ⟨inner, isInner, innerFree⟩
      · contradiction
      · obtain rfl := FileTree.directory.inj isInner
        exact hasNoLinks_lookup innerFree isEntry

theorem passed_subset {earlier : List FileName} (isSuffix : earlier <:+ segments) :
    passed root base earlier ⊆ passed root base segments := by
  intro outer isPassed
  obtain ⟨first, isTail, isPlace⟩ := List.mem_filterMap.1 isPassed
  exact List.mem_filterMap.2
    ⟨first, (List.mem_tails _ _).2 (((List.mem_tails _ _).1 isTail).trans isSuffix), isPlace⟩

@[simp]
theorem passed_nil : passed root base [] = [base] := by
  simp [passed]

theorem passed_of_locate {segment : FileName}
    (isPlace : locate root linkLimit base (segment :: segments).reverse = some place) :
    passed root base (segment :: segments) = place :: passed root base segments := by
  rw [passed, List.tails_cons, List.filterMap_cons, isPlace]
  rfl

namespace Leads

theorem directory (leads : Leads root base segments place)
    (isBase : ∃ entries, treeAt? root base = some (.directory entries)) :
    ∃ entries, treeAt? root place = some (.directory entries) := by
  induction leads with
  | nil => exact isBase
  | blank blank leads ih => exact ih
  | parent leads ih =>
      obtain ⟨entries, isDirectory⟩ := ih
      exact exists_directory_tail isDirectory
  | name leads isName isDirectory ih => exact ⟨_, isDirectory⟩

theorem locate_append (leads : Leads root base segments place) (links : Nat)
    (rest : List FileName) :
    locate root links base (segments.reverse ++ rest) = locate root links place rest := by
  induction leads generalizing rest with
  | nil => rfl
  | blank blank leads ih =>
      rw [List.reverse_cons, List.append_assoc, ih]
      exact locate_blank root links _ rest blank
  | parent leads ih =>
      rw [List.reverse_cons, List.append_assoc, ih]
      exact locate_parent root links _ rest
  | name leads isName isDirectory ih =>
      rw [List.reverse_cons, List.append_assoc, ih, List.singleton_append,
        locate_name root links _ rest isName, isDirectory]

theorem head?_eq {segment : FileName} (leads : Leads root base (segment :: segments) place)
    (isName : IsName segment) : place.head? = some segment := by
  cases leads with
  | blank blank _ => exact absurd blank isName.1
  | parent _ => exact absurd rfl isName.2.1
  | name _ _ _ => rfl

theorem of_blank {segment : FileName} (leads : Leads root base (segment :: segments) place)
    (blank : segment = "" ∨ segment = ".") : Leads root base segments place := by
  cases leads with
  | blank _ earlier => exact earlier
  | parent earlier => simp at blank
  | name earlier isName isDirectory => exact absurd blank isName.1

theorem of_suffix {earlier : List FileName} (leads : Leads root base segments place)
    (isSuffix : earlier <:+ segments) : ∃ outer, Leads root base earlier outer := by
  induction leads with
  | nil =>
      obtain rfl := List.suffix_nil.1 isSuffix
      exact ⟨base, .nil⟩
  | blank blank leads ih =>
      rcases List.suffix_cons_iff.1 isSuffix with rfl | isLater
      · exact ⟨_, leads.blank blank⟩
      · exact ih isLater
  | parent leads ih =>
      rcases List.suffix_cons_iff.1 isSuffix with rfl | isLater
      · exact ⟨_, leads.parent⟩
      · exact ih isLater
  | name leads isName isDirectory ih =>
      rcases List.suffix_cons_iff.1 isSuffix with rfl | isLater
      · exact ⟨_, leads.name isName isDirectory⟩
      · exact ih isLater

theorem locate_eq (leads : Leads root base segments place) (links : Nat) :
    locate root links base segments.reverse = some place := by
  have whole := leads.locate_append links []
  rwa [List.append_nil, locate_nil] at whole

/-- Where the first segments lead, the way passes. -/
theorem mem_passed_of_earlier {earlier : List FileName} (leads : Leads root base earlier place)
    (isSuffix : earlier <:+ segments) : place ∈ passed root base segments :=
  List.mem_filterMap.2 ⟨earlier, (List.mem_tails _ _).2 isSuffix, leads.locate_eq _⟩

theorem passed_cons {segment : FileName} (leads : Leads root base (segment :: segments) place) :
    passed root base (segment :: segments) = place :: passed root base segments :=
  passed_of_locate (leads.locate_eq linkLimit)

theorem exists_passed_eq (leads : Leads root base segments place) :
    ∃ others, passed root base segments = place :: others := by
  cases segments with
  | nil =>
      cases leads
      exact ⟨[], passed_nil⟩
  | cons segment earlier => exact ⟨_, leads.passed_cons⟩

theorem exists_earlier_of_passed {segment : FileName} {outer : List FileName}
    {before after : List (List FileName)} (leads : Leads root base (segment :: segments) place)
    (isPassed : passed root base (segment :: segments) = before ++ outer :: after)
    (notHere : outer ≠ place) :
    ∃ earlier, before = place :: earlier ∧
      passed root base segments = earlier ++ outer :: after := by
  rw [leads.passed_cons] at isPassed
  rcases List.cons_eq_append_iff.1 isPassed with ⟨-, isHere⟩ | ⟨earlier, rfl, isEarlier⟩
  · exact absurd (List.cons.inj isHere).1 notHere
  · exact ⟨earlier, rfl, isEarlier⟩

/-- Between a directory around its end and that end, the way passes every directory that lies
between them. -/
theorem mem_passed (leads : Leads root base segments place) {before after : List (List FileName)}
    {outer between : List FileName}
    (isPassed : passed root base segments = before ++ outer :: after)
    (isAround : between <:+ place) (isInside : outer <:+ between) (apart : outer ≠ between) :
    between ∈ before := by
  have notHere {place : List FileName} (isAround : between <:+ place) : outer ≠ place := by
    rintro rfl
    exact apart (isInside.eq_of_length_le isAround.length_le)
  induction leads generalizing before with
  | nil =>
      have isBase : [base] = before ++ outer :: after := by simpa using isPassed
      have isOuter : outer ∈ [base] := by simp [isBase]
      exact absurd (List.mem_singleton.1 isOuter) (notHere isAround)
  | blank blank leads ih =>
      obtain ⟨earlier, rfl, isEarlier⟩ :=
        (leads.blank blank).exists_earlier_of_passed isPassed (notHere isAround)
      exact List.mem_cons_of_mem _ (ih isEarlier isAround)
  | parent leads ih =>
      obtain ⟨earlier, rfl, isEarlier⟩ :=
        leads.parent.exists_earlier_of_passed isPassed (notHere isAround)
      exact List.mem_cons_of_mem _ (ih isEarlier (isAround.trans (List.tail_suffix _)))
  | name leads isName isDirectory ih =>
      obtain ⟨earlier, rfl, isEarlier⟩ :=
        (leads.name isName isDirectory).exists_earlier_of_passed isPassed (notHere isAround)
      rcases List.suffix_cons_iff.1 isAround with rfl | isOutside
      · exact List.mem_cons_self
      · exact List.mem_cons_of_mem _ (ih isEarlier isOutside)

/-- The way passes the directory where it starts first. -/
theorem exists_passed_concat (leads : Leads root base segments place) :
    ∃ later, passed root base segments = later ++ [base] := by
  induction segments generalizing place with
  | nil => exact ⟨[], passed_nil⟩
  | cons segment earlier ih =>
      obtain ⟨outer, leadsEarlier⟩ := leads.of_suffix (List.suffix_cons segment earlier)
      obtain ⟨later, isPassed⟩ := ih leadsEarlier
      exact ⟨place :: later, by rw [leads.passed_cons, isPassed, List.cons_append]⟩

/-- The way passes every directory around its end in the directory where it starts. -/
theorem mem_passed_of_suffix (leads : Leads root base segments place) {outer : List FileName}
    (isBelow : base <:+ outer) (isAround : outer <:+ place) :
    outer ∈ passed root base segments := by
  obtain ⟨later, isPassed⟩ := leads.exists_passed_concat
  rw [isPassed, List.mem_append, List.mem_singleton]
  by_cases isBase : outer = base
  · exact .inr isBase
  · exact .inl (leads.mem_passed isPassed isAround isBelow (Ne.symm isBase))

/-- Without `..` the way leads through nothing but the directories around its end. -/
theorem suffix_of_mem_passed (leads : Leads root base segments place)
    (noParent : FileName.text ".." ∉ segments) {outer : List FileName}
    (isPassed : outer ∈ passed root base segments) : outer <:+ place := by
  induction leads with
  | nil =>
      obtain rfl : outer = base := by simpa using isPassed
      exact List.suffix_refl _
  | blank blank leads ih =>
      rw [(leads.blank blank).passed_cons] at isPassed
      rcases List.mem_cons.1 isPassed with rfl | isEarlier
      · exact List.suffix_refl _
      · exact ih (by simp_all) isEarlier
  | parent leads ih => simp at noParent
  | name leads isName isDirectory ih =>
      rw [(leads.name isName isDirectory).passed_cons] at isPassed
      rcases List.mem_cons.1 isPassed with rfl | isEarlier
      · exact List.suffix_refl _
      · exact (ih (by simp_all) isEarlier).trans (List.suffix_cons _ _)

end Leads

/-- As long as they stay in a directory without links, segments lead to a directory by steps, or
to a file by a last step from a directory. -/
theorem leads_of_locate {start earlier rest target : List FileName}
    (noLinks : FreeOfLinks root top)
    (inside : ∀ outer ∈ passed root base (rest.reverse ++ earlier), top <:+ outer)
    (leads : Leads root base earlier start)
    (isPlace : locate root linkLimit start rest = some target) :
    Leads root base (rest.reverse ++ earlier) target ∨
      ∃ name before outer content, rest.reverse ++ earlier = name :: before ∧
        Leads root base before outer ∧ IsName name ∧ target = name :: outer ∧
          treeAt? root target = some (.file content) := by
  induction rest generalizing start earlier with
  | nil =>
      obtain rfl : start = target := by simpa using isPlace
      exact .inl leads
  | cons segment rest ih =>
      have startInside := inside start (leads.mem_passed_of_earlier (List.suffix_append _ _))
      rw [List.reverse_cons, List.append_assoc, List.singleton_append] at inside ⊢
      by_cases blank : segment = "" ∨ segment = "."
      · rw [locate_blank root linkLimit start rest blank] at isPlace
        exact ih inside (leads.blank blank) isPlace
      · by_cases isParent : segment = ".."
        · subst isParent
          rw [locate_parent] at isPlace
          exact ih inside leads.parent isPlace
        · by_cases long : FileName.sizeLimit < segment.size
          · rw [locate_long root linkLimit start rest blank isParent long] at isPlace
            contradiction
          · have isName : IsName segment := ⟨blank, isParent, Nat.not_lt.1 long⟩
            rw [locate_name root linkLimit start rest isName] at isPlace
            cases isTree : treeAt? root (segment :: start) with
            | none => simp [isTree] at isPlace
            | some tree =>
                have isBelow := startInside.trans (List.suffix_cons segment start)
                rcases noLinks.file_or_directory isBelow isTree with
                  ⟨content, rfl⟩ | ⟨inner, rfl, -⟩
                · simp only [isTree, Option.ite_none_right_eq_some, List.isEmpty_iff,
                    Option.some.injEq] at isPlace
                  obtain ⟨rfl, rfl⟩ := isPlace
                  exact .inr ⟨segment, earlier, start, content, rfl, leads, isName, rfl, isTree⟩
                · simp only [isTree] at isPlace
                  exact ih inside (leads.name isName isTree) isPlace

end FileTree

end ObjectIds
