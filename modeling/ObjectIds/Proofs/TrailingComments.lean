import Mathlib.Data.List.Infix
import ObjectIds.Proofs.BlankedText
import ObjectIds.Proofs.LineBreaks
import ObjectIds.Proofs.SameBranches

/-!
# Comments after directives

The first blank character ends the name of a directive, and only what comes after it is read up
to a comment.  So a comment after a directive changes nothing once its name has ended, while
without a blank before it the comment becomes part of the name.

A comment that stays on its line is part of the directive line when the text is cut.  The text
after it is cut as before, and everything in it is at its old position as soon as a newline has
come, which is at once where there are no stray returns.
-/

namespace ObjectIds

namespace Directive

/-- A directive line after which a comment can be written: its name has ended, and what comes
after the name is not about to start a comment. -/
inductive AllowsComment : List Char → Prop
  | intro {name symbol : List Char} {blank : Char}
      (inName : ∀ character ∈ name, Text.isBlank character = false)
      (isBlank : Text.isBlank blank = true)
      (noSlash : symbol.getLast? = some '/' → ['/', '/'] <:+: symbol) :
      AllowsComment ('#' :: (name ++ blank :: symbol))

theorem beforeCommentAfter_comment (found comment : List Char) {text : List Char}
    (noSlash : text.getLast? = some '/' → ['/', '/'] <:+: text) :
    beforeCommentAfter found (text ++ '/' :: '/' :: comment) = beforeCommentAfter found text := by
  fun_induction beforeCommentAfter found text with
  | case1 found => rfl
  | case2 found character =>
      have notSlash : character ≠ '/' := by
        rintro rfl
        exact absurd (noSlash rfl) (by decide)
      simp [beforeCommentAfter, notSlash]
  | case3 found rest character next isComment => simp [beforeCommentAfter, isComment]
  | case4 found character next rest noComment ih =>
      rw [List.cons_append, List.cons_append, beforeCommentAfter, if_neg noComment]
      refine ih fun isLast => ?_
      rcases List.infix_cons_iff.1 (noSlash (by simpa using isLast)) with isFirst | isLater
      · simp [List.cons_prefix_cons, eq_comm, noComment] at isFirst
      · exact isLater

/-- A directive line whose name has ended is read in two parts. -/
theorem ofLine_of_blank {name symbol : List Char} {blank : Char}
    (inName : ∀ character ∈ name, Text.isBlank character = false)
    (isBlank : Text.isBlank blank = true) :
    ofLine ('#' :: (name ++ blank :: symbol)) =
      ofName (Text.lowercase (String.ofList name))
        (String.ofList (Text.trim (beforeComment symbol))) := by
  have inside : ∀ character ∈ name, (!Text.isBlank character) = true := by simpa using inName
  have stops : Piece.Stops (!Text.isBlank ·) (blank :: symbol).head? := by simpa using isBlank
  rw [ofLine, nameOf, symbolOf, body, Piece.takeWhile_append_of_stops inside stops,
    Piece.dropWhile_append_of_stops inside stops, List.drop_one, List.tail_cons]

theorem AllowsComment.ofLine_eq {line : List Char} (allows : AllowsComment line)
    (comment : List Char) : ofLine (line ++ '/' :: '/' :: comment) = ofLine line := by
  obtain ⟨inName, isBlank, noSlash⟩ := allows
  rw [List.cons_append, List.append_assoc, List.cons_append, ofLine_of_blank inName isBlank,
    ofLine_of_blank inName isBlank, beforeComment, beforeComment,
    beforeCommentAfter_comment [] comment noSlash]

theorem allowsComment_of_mem {line : List Char} (starts : line.head? = some '#')
    (noComment : ¬['/', '/'] <:+: line) (noSlash : line.getLast? ≠ some '/')
    (hasBlank : ∃ character ∈ line, Text.isBlank character = true) : AllowsComment line := by
  obtain ⟨rest, rfl⟩ := List.head?_eq_some_iff.1 starts
  obtain ⟨character, member, isBlank⟩ := hasBlank
  have inRest : character ∈ rest := by
    rcases List.mem_cons.1 member with rfl | inRest
    · exact absurd isBlank (by decide)
    · exact inRest
  have isSplit := @List.takeWhile_append_dropWhile _ (!Text.isBlank ·) rest
  have stops := Piece.stops_head?_dropWhile (!Text.isBlank ·) rest
  cases isLater : rest.dropWhile (!Text.isBlank ·) with
  | nil =>
      have allInName := List.dropWhile_eq_nil_iff.1 isLater character inRest
      simp [isBlank] at allInName
  | cons blank symbol =>
      rw [isLater, List.head?_cons, Piece.stops_some, Bool.not_eq_false'] at stops
      rw [isLater] at isSplit
      rw [← isSplit] at noSlash ⊢
      refine .intro (fun character inName => ?_) stops fun isLast => ?_
      · simpa using List.mem_takeWhile_imp inName
      · exact (noSlash (by simp [List.getLast?_cons, isLast])).elim

theorem ofName_eq_other {name : String} (hasSlash : '/' ∈ name.toList) (symbol : String) :
    ofName name symbol = .other name := by
  unfold ofName
  split
  all_goals first
    | rfl
    | exact absurd hasSlash (by decide)

theorem eq_of_ofName_eq_other {name symbol other : String}
    (isOther : ofName name symbol = .other other) : name = other := by
  unfold ofName at isOther
  split at isOther
  all_goals first
    | contradiction
    | exact Directive.other.inj isOther

/-- Where the name has not ended, a comment becomes part of it. -/
theorem ofLine_comment_ne {name : List Char}
    (inName : ∀ character ∈ name, Text.isBlank character = false) (comment : List Char) :
    ofLine ('#' :: (name ++ '/' :: '/' :: comment)) ≠ ofLine ('#' :: name) := by
  have inside : ∀ character ∈ name, (!Text.isBlank character) = true := by simpa using inName
  have newName : nameOf ('#' :: (name ++ '/' :: '/' :: comment)) = Text.lowercase
      (String.ofList (name ++ '/' :: '/' :: comment.takeWhile (!Text.isBlank ·))) := by
    have slash : Text.isBlank '/' = false := by decide
    rw [nameOf, body, List.takeWhile_append_of_pos inside]
    simp [slash]
  have oldName : nameOf ('#' :: name) = Text.lowercase (String.ofList name) := by
    rw [nameOf, body, List.takeWhile_eq_self_iff.2 inside]
  have hasSlash : '/' ∈ (nameOf ('#' :: (name ++ '/' :: '/' :: comment))).toList := by
    rw [newName, Text.lowercase, String.toList_ofList, String.toList_ofList]
    exact List.mem_map.2 ⟨'/', by simp, rfl⟩
  intro same
  rw [ofLine, ofName_eq_other hasSlash] at same
  have sameName := congrArg (·.toList.length) (eq_of_ofName_eq_other same.symm)
  simp [oldName, newName, Text.lowercase] at sameName

theorem ofLine_comment_eq_iff {line : List Char} (comment : List Char)
    (starts : line.head? = some '#') (noComment : ¬['/', '/'] <:+: line)
    (noSlash : line.getLast? ≠ some '/') :
    ofLine (line ++ '/' :: '/' :: comment) = ofLine line ↔
      ∃ character ∈ line, Text.isBlank character = true := by
  constructor
  · intro same
    obtain ⟨name, rfl⟩ := List.head?_eq_some_iff.1 starts
    by_contra noBlank
    push Not at noBlank
    have inName : ∀ character ∈ name, Text.isBlank character = false := fun character member =>
      Bool.eq_false_iff.2 (noBlank character (List.mem_cons_of_mem _ member))
    exact ofLine_comment_ne inName comment same
  · intro hasBlank
    exact (allowsComment_of_mem starts noComment noSlash hasBlank).ofLine_eq comment

end Directive

namespace Piece

/-- A text written as pieces are, with comments after some of the directives. -/
inductive Annotated : List Piece → List Char → Prop
  | nil : Annotated [] []
  | same {pieces : List Piece} {text : List Char} (piece : Piece)
      (later : Annotated pieces text) : Annotated (piece :: pieces) (piece.text ++ text)
  | comment {pieces : List Piece} {text line : List Char} (place : Place)
      (allows : Directive.AllowsComment line) {body : List Char}
      (inLine : ∀ character ∈ body, Text.isLineBreak character = false)
      (later : Annotated pieces text) :
      Annotated (⟨.directive, line, place⟩ :: pieces) (line ++ '/' :: '/' :: body ++ text)

end Piece

/-- A token that is where another one is, up to its column unless places are `exact`. -/
structure Token.KeepsLine (exact : Prop) (old new : Token) : Prop where
  kind_eq : new.kind = old.kind
  text_eq : new.text = old.text
  line_eq : new.position.line = old.position.line
  column_eq : exact → new.position.column = old.position.column

/-- A token without its column and the bytes that it takes. -/
def Token.onLine (token : Token) : Token :=
  token.relocate (fun position => ⟨position.line, 0⟩) fun _ => Span.nowhere

/-- A declaration without its column and the bytes that its id and name take. -/
def Declaration.onLine (declaration : Declaration) : Declaration :=
  declaration.relocate (fun position => ⟨position.line, 0⟩) fun _ => Span.nowhere

namespace Place

theorem SameSpot.of_newline {first second : Place} (sameLine : first.line = second.line)
    {text : List Char} (hasNewline : '\n' ∈ text) :
    SameSpot (first.advance text) (second.advance text) := by
  induction text generalizing first second with
  | nil => contradiction
  | cons character text ih =>
      by_cases isNewline : character = '\n'
      · refine SameSpot.advance ?_ text
        simp [SameSpot, Place.step, isNewline, sameLine]
      · have later : '\n' ∈ text := List.mem_of_ne_of_mem (Ne.symm isNewline) hasNewline
        refine ih ?_ later
        simp [Place.step, isNewline, sameLine]

/-- A place on the line of another one, and at the same column too unless a line ends there. -/
structure KeepsLine (exact : Prop) (text : List Char) (old new : Place) : Prop where
  line_eq : new.line = old.line
  column_eq : exact → new.column = old.column ∨ Text.EndsLine text

end Place

namespace Piece

variable {exact : Prop} {shape : Shape} {text rest other : List Char} {place newPlace : Place}

theorem Annotated.head?_eq (annotated : Annotated (listFrom place text) other) :
    other.head? = text.head? := by
  induction place, text using cutInduction with
  | nil place =>
      rw [listFrom_nil] at annotated
      cases annotated
      rfl
  | piece place shape text rest fits ih =>
      rw [listFrom_append place fits] at annotated
      rw [List.head?_append_of_ne_nil _ fits.ne_nil]
      cases annotated with
      | same piece later => rw [List.head?_append_of_ne_nil _ fits.ne_nil]
      | comment place allows inLine later =>
          rw [List.append_assoc, List.head?_append_of_ne_nil _ fits.ne_nil]

theorem shape_of_isSpacing {character : Char}
    (fits : Fits shape (character :: text) rest.head?)
    (blank : Text.isSpacing character = true) : shape = .spacing := by
  have isShape := congrArg Cut.shape (Cut.first_of_fits fits)
  unfold Cut.first at isShape
  rw [if_pos blank] at isShape
  exact isShape.symm

theorem of_endsLine (fits : Fits shape text rest.head?) (ends : Text.EndsLine (text ++ rest)) :
    shape = .spacing ∧ '\n' ∈ text := by
  obtain ⟨character, others, rfl⟩ := List.exists_cons_of_ne_nil fits.ne_nil
  rw [List.cons_append] at ends
  generalize isAfter : others ++ rest = after at ends
  cases ends with
  | newline => exact ⟨shape_of_isSpacing fits (by decide), List.mem_cons_self⟩
  | returnNewline later =>
      obtain rfl := shape_of_isSpacing fits (by decide)
      refine ⟨rfl, List.mem_cons_of_mem _ ?_⟩
      cases fits with
      | spacing blank stops =>
          cases others with
          | nil =>
              rw [List.nil_append] at isAfter
              rw [isAfter, List.head?_cons, stops_some] at stops
              exact absurd stops (by decide)
          | cons second others =>
              obtain ⟨rfl, -⟩ := List.cons.inj isAfter
              exact List.mem_cons_self

theorem forall_mem_comment {body : List Char}
    (inLine : ∀ character ∈ body, Text.isLineBreak character = false) :
    ∀ character ∈ '/' :: '/' :: body, Text.isLineBreak character = false := by
  have slash : Text.isLineBreak '/' = false := by decide
  exact List.forall_mem_cons.2 ⟨slash, List.forall_mem_cons.2 ⟨slash, inLine⟩⟩

theorem fits_directive_append {line more : List Char} {next : Option Char}
    (fits : Fits .directive line next)
    (inLine : ∀ character ∈ more, Text.isLineBreak character = false) :
    Fits .directive (line ++ more) next := by
  cases fits with
  | directive before stops => exact .directive (List.forall_mem_append.2 ⟨before, inLine⟩) stops

theorem keepsLine_advance (keeps : Place.KeepsLine exact (text ++ rest) place newPlace)
    (fits : Fits shape text rest.head?) :
    Place.KeepsLine exact rest (place.advance text) (newPlace.advance text) := by
  refine ⟨?_, fun isExact => Or.inl ?_⟩
  · rw [Place.line_advance, Place.line_advance, keeps.line_eq]
  · rcases keeps.column_eq isExact with columnEq | ends
    · exact (Place.SameSpot.advance ⟨keeps.line_eq, columnEq⟩ text).2
    · exact (Place.SameSpot.of_newline keeps.line_eq (of_endsLine fits ends).2).2

theorem actsLike_same (keeps : Place.KeepsLine exact (text ++ rest) place newPlace)
    (fits : Fits shape text rest.head?) :
    ActsLike (Token.KeepsLine exact) ⟨shape, text, place⟩ ⟨shape, text, newPlace⟩ := by
  refine ⟨rfl, rfl, ?_⟩
  cases shape with
  | token kind closed =>
      refine .cons ⟨rfl, rfl, congrArg UInt32.ofNat keeps.line_eq, fun isExact => ?_⟩ .nil
      rcases keeps.column_eq isExact with columnEq | ends
      · exact congrArg UInt32.ofNat columnEq
      · exact absurd (of_endsLine fits ends).1 (by simp)
  | spacing | lineComment | blockComment closed | directive => exact .nil

/-- With comments after directives a text is cut at the same places. -/
theorem Annotated.actsLike (annotated : Annotated (listFrom place text) other)
    (noStray : exact → Text.NoStrayReturn text)
    (keeps : Place.KeepsLine exact text place newPlace) :
    List.Forall₂ (ActsLike (Token.KeepsLine exact)) (listFrom place text)
      (listFrom newPlace other) := by
  -- Both texts go on with the same rest.  A comment makes its place in one text a later one, up
  -- to the end of the line, which `KeepsLine` allows for.
  induction place, text using cutInduction generalizing other newPlace with
  | nil place =>
      rw [listFrom_nil] at annotated ⊢
      cases annotated
      rw [listFrom_nil]
      exact .nil
  | piece place shape text rest fits ih =>
      have noStrayLater : exact → Text.NoStrayReturn rest := fun isExact =>
        (noStray isExact).of_append
      rw [listFrom_append place fits] at annotated ⊢
      cases annotated with
      | @same _ other _ later =>
          have fitsNew : Fits shape text other.head? := by rwa [later.head?_eq]
          rw [listFrom_append newPlace fitsNew]
          exact .cons (actsLike_same keeps fits)
            (ih later noStrayLater (keepsLine_advance keeps fits))
      | @comment _ other _ _ allows body inLine later =>
          obtain ⟨noBreak, stops⟩ :=
            of_takesLine (rfl : takesLine ⟨.directive, text, place⟩ = true) fits
          have noBreakNew := List.forall_mem_append.2 ⟨noBreak, forall_mem_comment inLine⟩
          have fitsNew : Fits .directive (text ++ '/' :: '/' :: body) other.head? := by
            rw [later.head?_eq]
            exact fits_directive_append fits (forall_mem_comment inLine)
          have keepsLater :
              Place.KeepsLine exact rest (place.advance text)
                (newPlace.advance (text ++ '/' :: '/' :: body)) := by
            refine ⟨?_, fun isExact => Or.inr ?_⟩
            · rw [place.line_advance_of_inLine noBreak,
                newPlace.line_advance_of_inLine noBreakNew, keeps.line_eq]
            · exact (noStrayLater isExact).endsLine List.suffix_rfl stops
          rw [listFrom_append newPlace fitsNew]
          refine .cons ⟨?_, rfl, .nil⟩ (ih later noStrayLater keepsLater)
          exact congrArg some (allows.ofLine_eq body)

end Piece

namespace Token.KeepsLine

variable {exact : Prop} {old new : Token}

theorem onLine_eq (keeps : KeepsLine exact old new) : old.onLine = new.onLine := by
  obtain ⟨kind, text, position, span⟩ := old
  obtain ⟨newKind, newText, newPosition, newSpan⟩ := new
  obtain ⟨kindEq, textEq, lineEq, -⟩ := keeps
  simp only at kindEq textEq lineEq
  simp [onLine, relocate, kindEq, textEq, lineEq]

theorem withoutSpan_eq (keeps : KeepsLine exact old new) (isExact : exact) :
    old.withoutSpan = new.withoutSpan := by
  obtain ⟨kind, text, position, span⟩ := old
  obtain ⟨newKind, newText, ⟨newLine, newColumn⟩, newSpan⟩ := new
  obtain ⟨kindEq, textEq, lineEq, columnEq⟩ := keeps
  have columnEq := columnEq isExact
  simp only at kindEq textEq lineEq columnEq
  simp [withoutSpan, relocate, kindEq, textEq, lineEq, columnEq]

end Token.KeepsLine

/-- A comment after a directive that has no comment yet and does not end in a slash changes
nothing about the directive exactly when there is a blank character in it.  With comments after
such directives a source shows the same tokens on the same lines and declares the same objects,
at the same columns too if there are no stray returns, and its symbols and the causes of its
issues stay as they are. -/
theorem comments_after_directives (line comment : List Char) (source other : String)
    (symbols : SymbolTable) :
    (line.head? = some '#' → ¬['/', '/'] <:+: line → line.getLast? ≠ some '/' →
      (Directive.ofLine (line ++ '/' :: '/' :: comment) = Directive.ofLine line ↔
        ∃ character ∈ line, Text.isBlank character = true)) ∧
      (Piece.Annotated (Piece.listOfText source) other.toList →
        let plain := Scan.ofText source symbols
        let annotated := Scan.ofText other symbols
        let plainTokens := (Preprocessed.ofText source symbols).tokens
        let annotatedTokens := (Preprocessed.ofText other symbols).tokens
        annotatedTokens.map Token.onLine = plainTokens.map Token.onLine ∧
          annotated.declarations.map Declaration.onLine =
            plain.declarations.map Declaration.onLine ∧
          (Text.NoStrayReturn source.toList →
            annotatedTokens.map Token.withoutSpan = plainTokens.map Token.withoutSpan ∧
              annotated.declarations.map Declaration.withoutSpans =
                plain.declarations.map Declaration.withoutSpans) ∧
          annotated.symbols = plain.symbols ∧
          annotated.issues.map Issue.cause = plain.issues.map Issue.cause) := by
  refine ⟨Directive.ofLine_comment_eq_iff comment, ?_⟩
  intro annotated plain annotatedScan plainTokens annotatedTokens
  have keeps : Place.KeepsLine (Text.NoStrayReturn source.toList) source.toList
      Place.start Place.start := ⟨rfl, fun _ => Or.inl rfl⟩
  have act := Piece.Annotated.actsLike annotated (fun noStray => noStray) keeps
  obtain ⟨tokensKeep, symbolsEq, causesEq⟩ :=
    Preprocessed.ofPieces_actsLike (.initial symbols) act
  have keep : List.Forall₂ (Token.KeepsLine (Text.NoStrayReturn source.toList))
      plainTokens annotatedTokens := tokensKeep
  have sameLines : annotatedTokens.map Token.onLine = plainTokens.map Token.onLine :=
    Token.map_eq_of_forall₂ (keep.imp fun _ _ => Token.KeepsLine.onLine_eq)
  have sameDeclarations := @Declaration.listOfTokens_relocate_congr
    (fun position => ⟨position.line, 0⟩) (fun _ => .nowhere) (fun _ _ => Iff.rfl) _ _ sameLines
  refine ⟨sameLines, sameDeclarations, fun noStray => ?_, symbolsEq, causesEq⟩
  have samePlaces : annotatedTokens.map Token.withoutSpan = plainTokens.map Token.withoutSpan :=
    Token.map_eq_of_forall₂ (keep.imp fun _ _ keepsLine => keepsLine.withoutSpan_eq noStray)
  exact ⟨samePlaces, @Declaration.listOfTokens_relocate_congr
    (fun position => position) (fun _ => .nowhere) (fun _ _ => Iff.rfl) _ _ samePlaces⟩

/-- A comment after an `#if` line, and a token that stays where it is. -/
theorem comments_after_directives_of_if :
    let source := "#if A\r\nx"
    let other := "#if A//b\r\nx"
    Directive.ofLine "#endif //c".toList = Directive.ofLine "#endif ".toList ∧
      Piece.Annotated (Piece.listOfText source) other.toList ∧
      Text.NoStrayReturn source.toList ∧
      (Preprocessed.ofText other (.ofDefined ["A"])).tokens.map Token.withoutSpan =
        (Preprocessed.ofText source (.ofDefined ["A"])).tokens.map Token.withoutSpan := by
  intro source other
  let line : List Char := '#' :: (['i', 'f'] ++ ' ' :: ['A'])
  let word : Piece := ⟨.token .word true, ['x'], ⟨1, 0, 7⟩⟩
  have isList : Piece.listOfText source =
      [⟨.directive, line, .start⟩, ⟨.spacing, ['\r', '\n'], ⟨0, 5, 5⟩⟩, word] := by
    decide +kernel
  have isOther : other.toList =
      line ++ '/' :: '/' :: ['b'] ++ (['\r', '\n'] ++ (word.text ++ [])) := by decide +kernel
  have annotated : Piece.Annotated (Piece.listOfText source) other.toList := by
    rw [isList, isOther]
    have later : Piece.Annotated [⟨.spacing, ['\r', '\n'], ⟨0, 5, 5⟩⟩, word]
        (['\r', '\n'] ++ (word.text ++ [])) := .same ⟨.spacing, _, _⟩ (.same word .nil)
    have inName : ∀ character ∈ ['i', 'f'], Text.isBlank character = false :=
      List.forall_mem_cons.2 ⟨by decide, List.forall_mem_singleton.2 (by decide)⟩
    have inLine : ∀ character ∈ ['b'], Text.isLineBreak character = false :=
      List.forall_mem_singleton.2 (by decide)
    exact .comment .start (.intro inName (by decide) (by decide)) inLine later
  have noStray : Text.NoStrayReturn source.toList := by decide +kernel
  obtain ⟨ofLine, ofSource⟩ :=
    comments_after_directives "#endif ".toList ['c'] source other (.ofDefined ["A"])
  obtain ⟨-, -, samePlaces, -⟩ := ofSource annotated
  have noComment : ¬['/', '/'] <:+: "#endif ".toList := by decide
  have hasBlank : ∃ character ∈ "#endif ".toList, Text.isBlank character = true :=
    ⟨' ', by decide, by decide⟩
  exact ⟨(ofLine rfl noComment (by decide)).2 hasBlank, annotated, noStray,
    (samePlaces noStray).1⟩

/-- A comment that is written directly after the name of a directive. -/
theorem comment_joins_name :
    ¬∀ line comment : List Char, line.head? = some '#' → ¬['/', '/'] <:+: line →
      line.getLast? ≠ some '/' →
        Directive.ofLine (line ++ '/' :: '/' :: comment) = Directive.ofLine line := by
  intro claimed
  have same := claimed "#endif".toList ['x'] rfl (by decide) (by decide)
  exact absurd same (by decide +kernel)

end ObjectIds
