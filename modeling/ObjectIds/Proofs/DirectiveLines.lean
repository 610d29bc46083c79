import Mathlib.Data.List.DropRight
import ObjectIds.Proofs.TrailingComments

/-!
# The layout of a directive line

The first blank character of a directive line ends its name.  After it may stand a symbol between
blanks, and a comment.  Every text has this layout, also one that does not start with `#`, and
the directive depends on the name and the symbol only: the name counts in lower case, while the
symbol is taken as it stands.  So a directive is read back from its name and its symbol, and the
letter case of a name on a line does not matter.
-/

namespace ObjectIds

namespace Text

theorem isBlank_of_isAlpha {character : Char} (letter : character.isAlpha = true) :
    isBlank character = false := by
  have small : character.toNat < 128 := by
    rcases Bool.or_eq_true_iff.1 letter with isCapital | isSmall
    · have atMost := (of_decide_eq_true isCapital).2
      exact Nat.lt_of_le_of_lt (UInt32.le_iff_toNat_le.1 atMost) (by decide)
    · have atMost := of_decide_eq_true (Bool.and_eq_true_iff.1 isSmall).2
      exact Nat.lt_of_le_of_lt (UInt32.le_iff_toNat_le.1 atMost) (by decide)
  have letters : ∀ code < 128, (Char.ofNat code).isAlpha = true →
      isBlank (Char.ofNat code) = false := by decide
  have notBlank := letters character.toNat small
  rw [Char.ofNat_toNat] at notBlank
  exact notBlank letter

@[simp]
theorem isBlank_toLower (character : Char) : isBlank character.toLower = isBlank character := by
  cases capital : character.isUpper with
  | true =>
      have letter : character.isAlpha = true := Bool.or_eq_true_iff.2 (.inl capital)
      have lowerLetter : character.toLower.isAlpha = true :=
        Bool.or_eq_true_iff.2 (.inr (isLower_toLower capital).1)
      rw [isBlank_of_isAlpha letter, isBlank_of_isAlpha lowerLetter]
  | false => rw [toLower_eq_self capital]

theorem eq_of_toLower_eq {character mark : Char} (same : character.toLower = mark.toLower)
    (noLetter : mark.isAlpha = false) : character = mark := by
  obtain ⟨markNotCapital, markNotSmall⟩ := Bool.or_eq_false_iff.1 noLetter
  rw [toLower_eq_self markNotCapital] at same
  cases capital : character.isUpper with
  | true =>
      have isSmall := (isLower_toLower capital).1
      rw [same, markNotSmall] at isSmall
      contradiction
  | false => rwa [toLower_eq_self capital] at same

/-- A text that neither starts nor ends with a blank character. -/
structure Trimmed (text : List Char) : Prop where
  head : ∀ character ∈ text.head?, isBlank character = false
  last : ∀ character ∈ text.getLast?, isBlank character = false

theorem trim_blanks {text : List Char}
    (blank : ∀ character ∈ text, isBlank character = true) : trim text = [] := by
  rw [trim, List.dropWhile_eq_nil_iff.2 blank]
  rfl

/-- Trimming takes away the blanks around a text, and nothing else. -/
theorem trim_append {gap text trail : List Char} (trimmed : Trimmed text)
    (inGap : ∀ character ∈ gap, isBlank character = true)
    (inTrail : ∀ character ∈ trail, isBlank character = true) :
    trim (gap ++ text ++ trail) = text := by
  by_cases isNil : text = []
  · subst isNil
    rw [List.append_nil]
    exact trim_blanks (List.forall_mem_append.2 ⟨inGap, inTrail⟩)
  · have startsText : Piece.Stops isBlank (text ++ trail).head? := by
      rw [List.head?_append_of_ne_nil _ isNil]
      exact Piece.stops_iff.2 trimmed.head
    have endsText : Piece.Stops isBlank text.reverse.head? := by
      rw [List.head?_reverse]
      exact Piece.stops_iff.2 trimmed.last
    have inReverse : ∀ character ∈ trail.reverse, isBlank character = true := by
      simpa using inTrail
    rw [trim, List.append_assoc, Piece.dropWhile_append_of_stops inGap startsText,
      List.reverse_append, Piece.dropWhile_append_of_stops inReverse endsText,
      List.reverse_reverse]

theorem trimmed_trim (text : List Char) : Trimmed (trim text) := by
  have isTrim : trim text = (text.dropWhile isBlank).rdropWhile isBlank := rfl
  constructor
  · intro character isHead
    have starts := List.head?_dropWhile_not isBlank text
    rw [isTrim] at isHead
    obtain ⟨others, isText⟩ := List.head?_eq_some_iff.1 isHead
    obtain ⟨trail, whole⟩ := List.rdropWhile_prefix isBlank (text.dropWhile isBlank)
    rw [← whole, isText] at starts
    simpa using starts
  · intro character isLast
    rw [isTrim] at isLast
    have notNil : (text.dropWhile isBlank).rdropWhile isBlank ≠ [] := by
      intro isNil
      simp [isNil] at isLast
    have notBlank := List.rdropWhile_last_not isBlank _ notNil
    rw [List.getLast?_eq_some_getLast notNil, Option.mem_some_iff] at isLast
    rw [isLast] at notBlank
    simpa using notBlank

/-- What trimming leaves of a text is between its blanks. -/
theorem exists_trimmed (text : List Char) : ∃ gap symbol trail, text = gap ++ symbol ++ trail ∧
    (∀ character ∈ gap, isBlank character = true) ∧ Trimmed symbol ∧
      ∀ character ∈ trail, isBlank character = true := by
  refine ⟨text.takeWhile isBlank, trim text, (text.dropWhile isBlank).rtakeWhile isBlank, ?_,
    fun character => List.mem_takeWhile_imp, trimmed_trim text,
    fun character => List.mem_rtakeWhile_imp⟩
  have isRest : trim text ++ (text.dropWhile isBlank).rtakeWhile isBlank =
      text.dropWhile isBlank := List.rdropWhile_append_rtakeWhile
  rw [List.append_assoc, isRest, List.takeWhile_append_dropWhile]

end Text

namespace Directive

/-- What comes after `front` is a comment, which starts no earlier than there, or nothing. -/
structure Comments (front comment : List Char) : Prop where
  starts : comment = [] ∨ ['/', '/'] <+: comment
  first : ¬['/', '/'] <:+: front ++ comment.take 1

theorem comments_cons_of_ne {character : Char} {front comment : List Char}
    (notSlash : character ≠ '/') :
    Comments (character :: front) comment ↔ Comments front comment := by
  have sameInside : ['/', '/'] <:+: character :: front ++ comment.take 1 ↔
      ['/', '/'] <:+: front ++ comment.take 1 := by
    rw [List.cons_append, List.infix_cons_iff, List.cons_prefix_cons]
    simp [Ne.symm notSlash]
  exact ⟨fun ⟨starts, first⟩ => ⟨starts, sameInside.not.1 first⟩,
    fun ⟨starts, first⟩ => ⟨starts, sameInside.not.2 first⟩⟩

theorem ne_slash_of_isBlank {character : Char} (isBlank : Text.isBlank character = true) :
    character ≠ '/' := by
  rintro rfl
  exact absurd isBlank (by decide)

theorem beforeCommentAfter_of_not_infix (found : List Char) {text : List Char}
    (noComment : ¬['/', '/'] <:+: text) :
    beforeCommentAfter found text = found.reverse ++ text := by
  fun_induction beforeCommentAfter found text with
  | case1 found => simp
  | case2 found character => simp
  | case3 found character next rest isComment =>
      obtain ⟨rfl, rfl⟩ := isComment
      exact absurd (List.prefix_append ['/', '/'] rest).isInfix noComment
  | case4 found character next rest notComment ih =>
      have noneLater : ¬['/', '/'] <:+: next :: rest := fun later =>
        noComment (List.infix_cons later)
      simpa using ih noneLater

theorem Comments.beforeComment_eq {front comment : List Char} (comments : Comments front comment) :
    beforeComment (front ++ comment) = front := by
  obtain ⟨starts, first⟩ := comments
  have noComment : ¬['/', '/'] <:+: front := fun inside =>
    first (inside.trans (List.prefix_append _ _).isInfix)
  have isFront := beforeCommentAfter_of_not_infix [] noComment
  rcases starts with rfl | ⟨text, rfl⟩
  · rw [List.append_nil]
    exact isFront
  · -- A slash before the comment would start it one character earlier.
    have noSlash : front.getLast? = some '/' → ['/', '/'] <:+: front := by
      intro isLast
      obtain ⟨others, rfl⟩ := List.getLast?_eq_some_iff.1 isLast
      exact absurd ⟨others, [], by simp⟩ first
    exact (beforeCommentAfter_comment [] text noSlash).trans isFront

theorem exists_comments_after (found text : List Char) :
    ∃ front comment, beforeCommentAfter found text = found.reverse ++ front ∧
      text = front ++ comment ∧ Comments front comment := by
  fun_induction beforeCommentAfter found text with
  | case1 found => exact ⟨[], [], by simp, rfl, .inl rfl, by simp⟩
  | case2 found character =>
      refine ⟨[character], [], by simp, by simp, .inl rfl, fun inside => ?_⟩
      exact absurd inside.length_le (by simp)
  | case3 found character next rest isComment =>
      obtain ⟨rfl, rfl⟩ := isComment
      have single : ¬['/', '/'] <:+: ['/'] := by decide
      exact ⟨[], '/' :: '/' :: rest, by simp, rfl, .inr ⟨rest, rfl⟩, single⟩
  | case4 found character next rest notComment ih =>
      obtain ⟨front, comment, isFront, isText, starts, first⟩ := ih
      refine ⟨character :: front, comment, by simp [isFront], by simp [isText], starts, ?_⟩
      have head : (front ++ comment.take 1).head? = some next := by
        cases front with
        | nil => simp [← show next :: rest = comment from isText]
        | cons second front => simp [(List.cons.inj isText).1]
      obtain ⟨others, isNext⟩ := List.head?_eq_some_iff.1 head
      rw [List.cons_append, List.infix_cons_iff]
      rintro (isFirst | later)
      · rw [isNext, List.cons_prefix_cons, List.cons_prefix_cons] at isFirst
        exact notComment ⟨isFirst.1.symm, isFirst.2.1.symm⟩
      · exact first later

theorem exists_comments (text : List Char) :
    ∃ comment, text = beforeComment text ++ comment ∧ Comments (beforeComment text) comment := by
  obtain ⟨front, comment, isFront, isText, comments⟩ := exists_comments_after [] text
  have isBefore : beforeComment text = front := isFront
  exact ⟨comment, by rw [isBefore, ← isText], by rwa [isBefore]⟩

/-- The name of a directive, in lower case. -/
def name : Directive → String
  | .define _ => "define"
  | .undefine _ => "undefine"
  | .ifDefined _ => "if"
  | .elseIfDefined _ => "elif"
  | .elseBranch => "else"
  | .endIf => "endif"
  | .other name => name

/-- The symbol that a directive is about, if it is about one. -/
def symbol? : Directive → Option String
  | .define symbol | .undefine symbol | .ifDefined symbol | .elseIfDefined symbol => some symbol
  | .elseBranch | .endIf | .other _ => none

/-- The names of the directives that have a meaning. -/
def meaningfulNames : List String := ["define", "undefine", "if", "elif", "else", "endif"]

/-- A directive as it is written on a line. -/
def written (directive : Directive) : List Char :=
  '#' :: (directive.name.toList ++ ' ' :: (directive.symbol?.getD "").toList)

@[simp]
theorem name_ofName (name symbol : String) : (ofName name symbol).name = name := by
  unfold ofName
  split <;> rfl

theorem eq_of_mem_symbol?_ofName {name symbol other : String}
    (isSymbol : other ∈ (ofName name symbol).symbol?) : other = symbol := by
  unfold ofName at isSymbol
  split at isSymbol
  all_goals simp_all [symbol?]

theorem not_meaningful_of_ofName_eq_other {name symbol other : String}
    (isOther : ofName name symbol = .other other) : other ∉ meaningfulNames := by
  obtain rfl := eq_of_ofName_eq_other isOther
  intro meaningful
  simp only [meaningfulNames, List.mem_cons, List.not_mem_nil, or_false] at meaningful
  rcases meaningful with rfl | rfl | rfl | rfl | rfl | rfl <;> simp [ofName] at isOther

/-- A name and a symbol give the directive that they come from. -/
theorem ofName_symbol? (name symbol : String) :
    ofName name ((ofName name symbol).symbol?.getD "") = ofName name symbol := by
  unfold ofName
  split <;> rfl

/-- A directive line in its parts.  The name ends with the line or at a blank, and the comment
is where two slashes come first after the name. -/
structure Layout where
  mark : List Char
  name : List Char
  gap : List Char
  symbol : List Char
  trail : List Char
  comment : List Char
  mark_eq : mark = ['#'] ∨ mark = [] ∧ name.head? ≠ some '#'
  inName : ∀ character ∈ name, Text.isBlank character = false
  inGap : ∀ character ∈ gap, Text.isBlank character = true
  nameEnds : gap = [] → symbol ++ trail ++ comment = []
  trimmed : Text.Trimmed symbol
  inTrail : ∀ character ∈ trail, Text.isBlank character = true
  comments : Comments (gap ++ symbol ++ trail) comment

namespace Layout

/-- What comes after the name. -/
def rest (layout : Layout) : List Char :=
  layout.gap ++ layout.symbol ++ layout.trail ++ layout.comment

/-- The whole line. -/
def line (layout : Layout) : List Char := layout.mark ++ layout.name ++ layout.rest

theorem rest_eq_nil {layout : Layout} (noGap : layout.gap = []) : layout.rest = [] := by
  rw [rest, noGap, List.nil_append]
  exact layout.nameEnds noGap

theorem body_line (layout : Layout) : body layout.line = layout.name ++ layout.rest := by
  rcases layout.mark_eq with isMark | ⟨noMark, notHash⟩
  · rw [line, isMark]
    rfl
  · rw [line, noMark, List.nil_append]
    have head : (layout.name ++ layout.rest).head? ≠ some '#' := by
      intro isHash
      cases isName : layout.name with
      | cons first others =>
          rw [isName] at isHash notHash
          exact notHash isHash
      | nil =>
          -- With an empty name the line starts with a blank.
          rw [isName, List.nil_append] at isHash
          cases isGap : layout.gap with
          | nil => simp [rest_eq_nil isGap] at isHash
          | cons blank gap =>
              have isBlank := layout.inGap blank (by simp [isGap])
              obtain rfl : blank = '#' := by simpa [rest, isGap] using isHash
              exact absurd isBlank (by decide)
    unfold body
    split
    · rename_i others isLine
      simp [isLine] at head
    · rfl

/-- A line says the name in its layout in lower case, and the symbol in its layout. -/
theorem ofLine_line (layout : Layout) :
    ofLine layout.line =
      ofName (Text.lowercase (String.ofList layout.name)) (String.ofList layout.symbol) := by
  have marked : ofLine layout.line = ofLine ('#' :: body layout.line) := rfl
  rw [marked, layout.body_line]
  cases isGap : layout.gap with
  | nil =>
      have noSymbol : layout.symbol = [] := by
        have nothing := layout.nameEnds isGap
        rw [List.append_assoc] at nothing
        exact (List.append_eq_nil_iff.1 nothing).1
      have inside : ∀ character ∈ layout.name, (!Text.isBlank character) = true := by
        simpa using layout.inName
      rw [rest_eq_nil isGap, List.append_nil, noSymbol, ofLine, nameOf, symbolOf, body,
        List.takeWhile_eq_self_iff.2 inside, List.dropWhile_eq_nil_iff.2 inside]
      rfl
  | cons blank gap =>
      have blanks := layout.inGap
      rw [isGap] at blanks
      obtain ⟨isBlank, inGap⟩ := List.forall_mem_cons.1 blanks
      have comments : Comments (gap ++ layout.symbol ++ layout.trail) layout.comment := by
        have comments := layout.comments
        rw [isGap] at comments
        exact (comments_cons_of_ne (ne_slash_of_isBlank isBlank)).1 comments
      have isRest : layout.rest =
          blank :: (gap ++ layout.symbol ++ layout.trail ++ layout.comment) := by
        rw [rest, isGap]
        rfl
      rw [isRest, ofLine_of_blank layout.inName isBlank, comments.beforeComment_eq,
        Text.trim_append layout.trimmed inGap layout.inTrail]

/-- A line without a comment, with one blank before the symbol. -/
def plain (name symbol : List Char)
    (inName : ∀ character ∈ name, Text.isBlank character = false)
    (trimmed : Text.Trimmed symbol) (noComment : ¬['/', '/'] <:+: symbol) : Layout where
  mark := ['#']
  name := name
  gap := [' ']
  symbol := symbol
  trail := []
  comment := []
  mark_eq := .inl rfl
  inName := inName
  inGap := List.forall_mem_singleton.2 (by decide)
  nameEnds := by simp
  trimmed := trimmed
  inTrail := by simp
  comments := (comments_cons_of_ne (by decide)).2 ⟨.inl rfl, by simpa using noComment⟩

/-- A line with its name in another letter case. -/
def recase (layout : Layout) (name : List Char)
    (same : name.map Char.toLower = layout.name.map Char.toLower) : Layout where
  __ := layout
  name := name
  mark_eq := by
    refine layout.mark_eq.imp_right fun ⟨noMark, notHash⟩ => ⟨noMark, fun isHash => notHash ?_⟩
    have sameHead := congrArg List.head? same
    rw [List.head?_map, List.head?_map, isHash, Option.map_some] at sameHead
    obtain ⟨first, isFirst, isLower⟩ := Option.map_eq_some_iff.1 sameHead.symm
    rw [isFirst, Text.eq_of_toLower_eq isLower (by decide)]
  inName := by
    intro character member
    have isThere := List.mem_map_of_mem (f := Char.toLower) member
    rw [same] at isThere
    obtain ⟨other, isOther, sameLower⟩ := List.mem_map.1 isThere
    rw [← Text.isBlank_toLower, ← sameLower, Text.isBlank_toLower]
    exact layout.inName other isOther

section Reading

variable (layout : Layout)

theorem name_ofLine : (ofLine layout.line).name =
    Text.lowercase (String.ofList layout.name) := by
  rw [layout.ofLine_line, name_ofName]

theorem eq_of_mem_symbol? {symbol : String} (isSymbol : symbol ∈ (ofLine layout.line).symbol?) :
    symbol = String.ofList layout.symbol := by
  rw [layout.ofLine_line] at isSymbol
  exact eq_of_mem_symbol?_ofName isSymbol

theorem symbol_without_comment : ¬['/', '/'] <:+: layout.symbol := fun inside =>
  layout.comments.first (inside.trans ⟨layout.gap, layout.trail ++ layout.comment.take 1, by simp⟩)

theorem in_name_ofLine : ∀ character ∈ (ofLine layout.line).name.toList,
    character.isUpper = false ∧ Text.isBlank character = false := by
  intro character member
  rw [layout.name_ofLine, Text.lowercase, String.toList_ofList, String.toList_ofList] at member
  obtain ⟨letter, isLetter, rfl⟩ := List.mem_map.1 member
  rw [Text.isBlank_toLower]
  exact ⟨Text.isUpper_toLower letter, layout.inName letter isLetter⟩

/-- A directive that was read on a line is read back where it is written. -/
theorem ofLine_written : ofLine (ofLine layout.line).written = ofLine layout.line := by
  generalize isDirective : ofLine layout.line = directive
  have inName : ∀ character ∈ directive.name.toList, Text.isBlank character = false := by
    rw [← isDirective]
    exact fun character member => (layout.in_name_ofLine character member).2
  have isSymbol : ∀ symbol ∈ directive.symbol?, symbol.toList = layout.symbol := by
    rw [← isDirective]
    intro symbol member
    rw [layout.eq_of_mem_symbol? member, String.toList_ofList]
  -- A directive without a symbol is written as if its symbol were empty.
  have asLayout : Text.Trimmed (directive.symbol?.getD "").toList ∧
      ¬['/', '/'] <:+: (directive.symbol?.getD "").toList := by
    cases hasSymbol : directive.symbol? with
    | none => exact ⟨⟨by simp, by simp⟩, by simp⟩
    | some symbol =>
        rw [Option.getD_some, isSymbol symbol hasSymbol]
        exact ⟨layout.trimmed, layout.symbol_without_comment⟩
  have isWritten : directive.written =
      (plain _ _ inName asLayout.1 asLayout.2).line := by
    simp [written, line, rest, plain]
  rw [isWritten, ofLine_line]
  simp only [plain, String.ofList_toList]
  rw [← isDirective, layout.name_ofLine, Text.lowercase_lowercase, layout.ofLine_line,
    ofName_symbol?]

/-- The letter case of its name does not matter to a line. -/
theorem ofLine_recase {name : String}
    (same : Text.equalIgnoringCase name (String.ofList layout.name) = true) :
    ofLine (layout.mark ++ name.toList ++ layout.rest) = ofLine layout.line := by
  have sameLower : Text.lowercase name = Text.lowercase (String.ofList layout.name) :=
    eq_of_beq same
  have sameLetters : name.toList.map Char.toLower = layout.name.map Char.toLower := by
    simpa [Text.lowercase, String.ofList_inj] using sameLower
  have recased := (layout.recase name.toList sameLetters).ofLine_line
  have isName : (layout.recase name.toList sameLetters).name = name.toList := rfl
  rw [isName, String.ofList_toList, sameLower] at recased
  exact recased.trans layout.ofLine_line.symm

end Reading

end Layout

theorem exists_mark (line : List Char) : ∃ mark, line = mark ++ body line ∧
    (mark = ['#'] ∨ mark = [] ∧ (body line).head? ≠ some '#') := by
  unfold body
  split
  · rename_i others
    exact ⟨['#'], rfl, .inl rfl⟩
  · rename_i notHash
    refine ⟨[], rfl, .inr ⟨rfl, fun isHash => ?_⟩⟩
    obtain ⟨others, isLine⟩ := List.head?_eq_some_iff.1 isHash
    exact notHash others isLine

/-- Every text is a directive line. -/
theorem exists_layout (line : List Char) : ∃ layout : Layout, layout.line = line := by
  obtain ⟨mark, isLine, isMark⟩ := exists_mark line
  generalize body line = text at isLine isMark
  have whole := @List.takeWhile_append_dropWhile _ (!Text.isBlank ·) text
  have inName : ∀ character ∈ text.takeWhile (!Text.isBlank ·),
      Text.isBlank character = false := by
    intro character member
    simpa using List.mem_takeWhile_imp member
  have stops := Piece.stops_head?_dropWhile (!Text.isBlank ·) text
  generalize text.takeWhile (!Text.isBlank ·) = name at whole inName
  generalize text.dropWhile (!Text.isBlank ·) = rest at whole stops
  subst whole isLine
  have marked : mark = ['#'] ∨ mark = [] ∧ name.head? ≠ some '#' := by
    refine isMark.imp_right fun ⟨noMark, notHash⟩ => ⟨noMark, fun isHash => notHash ?_⟩
    rw [List.head?_append, isHash]
    rfl
  cases rest with
  | nil =>
      let layout : Layout := ⟨mark, name, [], [], [], [], marked, inName, by simp, by simp,
        ⟨by simp, by simp⟩, by simp, ⟨.inl rfl, by simp⟩⟩
      exact ⟨layout, by simp [layout, Layout.line, Layout.rest]⟩
  | cons blank after =>
      have isBlank : Text.isBlank blank = true := by simpa using stops
      obtain ⟨comment, isAfter, comments⟩ := exists_comments after
      obtain ⟨gap, symbol, trail, isFront, inGap, trimmed, inTrail⟩ :=
        Text.exists_trimmed (beforeComment after)
      rw [isFront] at isAfter comments
      have blankComments : Comments (blank :: gap ++ symbol ++ trail) comment :=
        (comments_cons_of_ne (ne_slash_of_isBlank isBlank)).2 comments
      let layout : Layout := ⟨mark, name, blank :: gap, symbol, trail, comment, marked, inName,
        List.forall_mem_cons.2 ⟨isBlank, inGap⟩, by simp, trimmed, inTrail, blankComments⟩
      exact ⟨layout, by simp [layout, Layout.line, Layout.rest, isAfter]⟩

end Directive

/-- A directive has a symbol without blanks at its ends and without a comment, or a name that is
one of no other directive, in lower case and without blanks.  It is read back from its name and
its symbol.  Every line has a layout, and whatever layout a line has, the directive has the name
on the line up to its letter case and the symbol on the line as it stands, and the line means the
same with its name in any letter case. -/
theorem directive_lines_normalized (line : List Char) :
    let directive := Directive.ofLine line
    (∀ symbol ∈ directive.symbol?,
        Text.Trimmed symbol.toList ∧ ¬['/', '/'] <:+: symbol.toList) ∧
      (∀ name, directive = .other name →
        (∀ character ∈ name.toList,
          character.isUpper = false ∧ Text.isBlank character = false) ∧
        name ∉ Directive.meaningfulNames) ∧
      Directive.ofLine directive.written = directive ∧
      (∃ layout : Directive.Layout, layout.line = line) ∧
      ∀ layout : Directive.Layout, layout.line = line →
        directive.name = Text.lowercase (String.ofList layout.name) ∧
        (∀ symbol ∈ directive.symbol?, symbol = String.ofList layout.symbol) ∧
        ∀ name : String, Text.equalIgnoringCase name (String.ofList layout.name) = true →
          Directive.ofLine (layout.mark ++ name.toList ++ layout.rest) = directive := by
  intro directive
  obtain ⟨layout, rfl⟩ := Directive.exists_layout line
  refine ⟨fun symbol isSymbol => ?_, fun name isOther => ?_, layout.ofLine_written,
    ⟨layout, rfl⟩, fun other sameLine => ?_⟩
  · rw [layout.eq_of_mem_symbol? isSymbol, String.toList_ofList]
    exact ⟨layout.trimmed, layout.symbol_without_comment⟩
  · have inName := layout.in_name_ofLine
    have isName : (Directive.ofLine layout.line).name = name := congrArg Directive.name isOther
    rw [isName] at inName
    have isNamed := layout.ofLine_line.symm.trans isOther
    exact ⟨inName, Directive.not_meaningful_of_ofName_eq_other isNamed⟩
  · have isDirective : directive = Directive.ofLine other.line :=
      congrArg Directive.ofLine sameLine.symm
    rw [isDirective]
    exact ⟨other.name_ofLine, fun symbol => other.eq_of_mem_symbol?,
      fun name => other.ofLine_recase⟩

/-- A symbol with a slash in it, between blanks and before a comment. -/
theorem directive_lines_normalized_before_comment :
    let line := "#ElIf\u00A0 A/b // c".toList
    let recased := "#eLiF\u00A0 A/b // c".toList
    (∃ layout : Directive.Layout, layout.line = line ∧
      layout.mark ++ "eLiF".toList ++ layout.rest = recased) ∧
      (Directive.ofLine line).symbol? = some "A/b" ∧ (Directive.ofLine line).name = "elif" ∧
      Directive.ofLine recased = Directive.ofLine line ∧
      Directive.ofLine "#elif A/b".toList = Directive.ofLine line := by
  intro line recased
  let name := ['E', 'l', 'I', 'f']
  let symbol := ['A', '/', 'b']
  have inName : ∀ character ∈ name, Text.isBlank character = false := by
    simp [name, Text.isBlank, Text.blankRanges]
  have inGap : ∀ character ∈ ['\u00A0', ' '], Text.isBlank character = true := by
    simp [Text.isBlank, Text.blankRanges]
  have trimmed : Text.Trimmed symbol :=
    ⟨by simp [symbol, Text.isBlank, Text.blankRanges],
      by simp [symbol, Text.isBlank, Text.blankRanges]⟩
  let layout : Directive.Layout :=
    ⟨['#'], name, ['\u00A0', ' '], symbol, [' '], ['/', '/', ' ', 'c'], .inl rfl, inName, inGap,
      by simp, trimmed, List.forall_mem_singleton.2 (by decide), ⟨by decide, by decide⟩⟩
  have isLine : layout.line = line := by rfl
  have isRecased : layout.mark ++ "eLiF".toList ++ layout.rest = recased := by rfl
  have isSymbol : (Directive.ofLine line).symbol? = some "A/b" := by decide +kernel
  obtain ⟨-, -, isReadBack, -, ofLayout⟩ := directive_lines_normalized line
  obtain ⟨isName, -, ofRecased⟩ := ofLayout layout isLine
  have isLower : Text.lowercase (String.ofList name) = "elif" := by decide +kernel
  have isWritten : (Directive.ofLine line).written = "#elif A/b".toList := by
    rw [Directive.written, isSymbol, isName.trans isLower]
    decide +kernel
  refine ⟨⟨layout, isLine, isRecased⟩, isSymbol, isName.trans isLower, ?_, ?_⟩
  · rw [← isRecased]
    have sameLetters : Text.equalIgnoringCase "eLiF" (String.ofList name) = true := by
      decide +kernel
    exact ofRecased "eLiF" sameLetters
  · rw [← isWritten]
    exact isReadBack

end ObjectIds
