import ObjectIds.Proofs.BlankedText
import ObjectIds.Proofs.QuotedTokens
import ObjectIds.Proofs.SameBranches

/-!
# Line endings

A carriage return before every newline changes little.  It goes into the spacing between two
tokens, or into a comment or a quoted text that runs over several lines, and every other piece
ends before it as it ended before the newline.  Lines and columns stay as they are, so the
same tokens can be seen at the same positions, and only what is quoted over several lines has
become longer.
-/

namespace ObjectIds

namespace Text

/-- A text with a carriage return before every newline. -/
def crlf (text : List Char) : List Char :=
  text.flatMap fun character => if character = '\n' then ['\r', '\n'] else [character]

/-- The character that comes first in the place of another one. -/
def crlfFirst (character : Char) : Char := if character = '\n' then '\r' else character

/-- A string with a carriage return before every newline. -/
def withReturns (text : String) : String := String.ofList (crlf text.toList)

@[simp]
theorem crlf_nil : crlf [] = [] := rfl

@[simp]
theorem crlf_append (first second : List Char) :
    crlf (first ++ second) = crlf first ++ crlf second := List.flatMap_append

theorem crlf_cons_newline (text : List Char) : crlf ('\n' :: text) = '\r' :: '\n' :: crlf text :=
  rfl

theorem crlf_cons_of_ne {character : Char} (noNewline : character ≠ '\n') (text : List Char) :
    crlf (character :: text) = character :: crlf text := by
  simp [crlf, noNewline]

theorem head?_crlf (text : List Char) : (crlf text).head? = text.head?.map crlfFirst := by
  cases text with
  | nil => rfl
  | cons character text =>
      by_cases isNewline : character = '\n'
      · subst isNewline
        rfl
      · simp [crlf_cons_of_ne isNewline, crlfFirst, isNewline]

theorem crlf_of_not_mem {text : List Char} (noNewline : '\n' ∉ text) : crlf text = text := by
  induction text with
  | nil => rfl
  | cons character text ih =>
      rw [List.mem_cons, not_or] at noNewline
      rw [crlf_cons_of_ne (Ne.symm noNewline.1), ih noNewline.2]

theorem withReturns_of_not_mem {text : String} (noNewline : '\n' ∉ text.toList) :
    withReturns text = text := by
  rw [withReturns, crlf_of_not_mem noNewline, String.ofList_toList]

/-- What holds of a text and of the carriage return holds of the text with carriage returns. -/
theorem forall_mem_crlf {test : Char → Prop} {text : List Char} (isReturn : test '\r')
    (holds : ∀ character ∈ text, test character) : ∀ character ∈ crlf text, test character := by
  intro character member
  obtain ⟨old, isOld, isNew⟩ := List.mem_flatMap.1 member
  split at isNew
  · rename_i isNewline
    rcases List.mem_pair.1 isNew with rfl | rfl
    · exact isReturn
    · exact isNewline ▸ holds old isOld
  · rw [List.mem_singleton.1 isNew]
    exact holds old isOld

theorem crlf_quote {delimiter : Char} (noNewline : delimiter ≠ '\n')
    (noReturn : delimiter ≠ '\r') (text : List Char) :
    crlf (quote delimiter text) = quote delimiter (crlf text) := by
  induction text with
  | nil => rfl
  | cons character text ih =>
      by_cases isDelimiter : character = delimiter
      · subst isDelimiter
        rw [quote_cons_self, crlf_cons_of_ne noNewline, crlf_cons_of_ne noNewline,
          crlf_cons_of_ne noNewline, quote_cons_self, ih]
      · rw [quote_cons_of_ne isDelimiter]
        by_cases isNewline : character = '\n'
        · subst isNewline
          rw [crlf_cons_newline, crlf_cons_newline, quote_cons_of_ne (Ne.symm noReturn),
            quote_cons_of_ne (Ne.symm noNewline), ih]
        · rw [crlf_cons_of_ne isNewline, crlf_cons_of_ne isNewline,
            quote_cons_of_ne isDelimiter, ih]

/-- What is written between delimiters, or after one, gains carriage returns inside. -/
theorem crlf_delimited {delimiter : Char} (noNewline : delimiter ≠ '\n')
    (noReturn : delimiter ≠ '\r') (text : List Char) :
    crlf (delimiter :: (quote delimiter text ++ [delimiter])) =
        delimiter :: (quote delimiter (crlf text) ++ [delimiter]) ∧
      crlf (delimiter :: quote delimiter text) = delimiter :: quote delimiter (crlf text) := by
  rw [crlf_cons_of_ne noNewline, crlf_cons_of_ne noNewline, crlf_append,
    crlf_quote noNewline noReturn, crlf_cons_of_ne noNewline, crlf_nil]
  exact ⟨rfl, rfl⟩

theorem crlf_ne_nil {text : List Char} (notEmpty : text ≠ []) : crlf text ≠ [] := by
  intro isEmpty
  have noFirst := head?_crlf text
  rw [isEmpty, List.head?_nil, eq_comm, Option.map_eq_none_iff, List.head?_eq_none_iff] at noFirst
  exact notEmpty noFirst

theorem crlfFirst_eq_iff {character mark : Char} (noNewline : mark ≠ '\n')
    (noReturn : mark ≠ '\r') : crlfFirst character = mark ↔ character = mark := by
  unfold crlfFirst
  split
  · rename_i isNewline
    simp [isNewline, Ne.symm noNewline, Ne.symm noReturn]
  · rfl

theorem infix_of_infix_crlf {text : List Char} (ends : ['*', '/'] <:+: crlf text) :
    ['*', '/'] <:+: text := by
  induction text with
  | nil => simp at ends
  | cons character text ih =>
      by_cases isNewline : character = '\n'
      · subst isNewline
        rw [crlf_cons_newline, List.infix_cons_iff, List.infix_cons_iff] at ends
        rcases ends with isPrefix | isPrefix | isLater
        · simp [List.cons_prefix_cons] at isPrefix
        · simp [List.cons_prefix_cons] at isPrefix
        · exact List.infix_cons (ih isLater)
      · rw [crlf_cons_of_ne isNewline, List.infix_cons_iff] at ends
        rcases ends with isPrefix | isLater
        · obtain ⟨rfl, rest, isRest⟩ := List.cons_prefix_cons.1 isPrefix
          have isSlash : (crlf text).head? = some '/' := by rw [← isRest]; rfl
          rw [head?_crlf, Option.map_eq_some_iff] at isSlash
          obtain ⟨second, isHead, isSecond⟩ := isSlash
          obtain ⟨others, rfl⟩ := List.head?_eq_some_iff.1 isHead
          rw [crlfFirst_eq_iff (by decide) (by decide)] at isSecond
          exact ⟨[], others, by rw [isSecond]; rfl⟩
        · exact List.infix_cons (ih isLater)

end Text

namespace Place

theorem SameSpot.advance_crlf {first second : Place} (same : SameSpot first second)
    (text : List Char) : SameSpot (first.advance (Text.crlf text)) (second.advance text) := by
  induction text generalizing first second with
  | nil => exact same
  | cons character text ih =>
      by_cases isNewline : character = '\n'
      · subst isNewline
        rw [Text.crlf_cons_newline]
        exact ih ⟨by simp [Place.step, same.1], by simp [Place.step]⟩
      · rw [Text.crlf_cons_of_ne isNewline]
        exact ih (same.step Iff.rfl)

end Place

namespace Piece

/-- A token without quotes is on one line. -/
theorem newline_not_mem_of_fits {kind : Token.Kind} {closed : Bool} {text : List Char}
    {next : Option Char} (fits : Fits (.token kind closed) text next)
    (noQuotes : kind.delimiter? = none) : '\n' ∉ text := by
  have noDigit : ¬ '\n'.isDigit = true := by decide
  have noMark : '\n' ∉ operators ∧ '\n' ∉ punctuation := by decide
  cases fits with
  | integer digits stops noPoint => exact fun member => noDigit (digits _ member)
  | decimal digits fractionDigits stops =>
      rw [← List.cons_append, List.mem_append]
      rintro (member | member)
      · exact noDigit (digits _ member)
      · rcases List.mem_cons.1 member with isPoint | member
        · exact absurd isPoint (by decide)
        · exact noDigit (fractionDigits _ member)
  | closedQuote delimits alone => simp [noQuotes] at delimits
  | openQuote delimits => simp [noQuotes] at delimits
  | punctuation isMark =>
      rw [List.mem_singleton]
      rintro rfl
      exact noMark.2 isMark
  | operator isMark noEquals noColon noComment =>
      rw [List.mem_singleton]
      rintro rfl
      exact noMark.1 isMark
  | compound isMark joins =>
      rw [List.mem_pair]
      rintro (rfl | rfl)
      · exact noMark.1 isMark
      · simp at joins
  | word noDigit inside stops =>
      intro member
      exact absurd (inside _ member) (by decide)

theorem newline_not_mem_of_inLine {text : List Char}
    (inLine : ∀ character ∈ text, Text.isLineBreak character = false) : '\n' ∉ text :=
  fun member => absurd (inLine _ member) (by decide)

theorem delimiter_ne {kind : Token.Kind} {delimiter : Char}
    (delimits : kind.delimiter? = some delimiter) : delimiter ≠ '\n' ∧ delimiter ≠ '\r' := by
  cases kind <;> cases delimits <;> decide

/-- What ends a line also ends it before a carriage return. -/
theorem Stops.crlf {next : Option Char} (stops : Stops (!Text.isLineBreak ·) next) :
    Stops (!Text.isLineBreak ·) (next.map Text.crlfFirst) := by
  cases next with
  | none => trivial
  | some character =>
      rw [Option.map_some, stops_some, Text.crlfFirst]
      split
      · rfl
      · exact stops

theorem Fits.token_crlf {kind : Token.Kind} {text : List Char} {next : Option Char}
    (fits : Fits (.token kind true) text next) :
    Fits (.token kind true) text (next.map Text.crlfFirst) := by
  cases next with
  | none => exact fits
  | some character =>
      rw [Option.map_some, Text.crlfFirst]
      split
      · exact fits.token_before_spacing (by decide)
      · exact fits

/-- A piece that fits before a text also fits, with its carriage returns, before the text with
carriage returns. -/
theorem Fits.crlf {shape : Shape} {text : List Char} {next : Option Char}
    (fits : Fits shape text next) :
    Fits shape (Text.crlf text) (next.map Text.crlfFirst) := by
  cases shape with
  | spacing =>
      cases fits with
      | spacing blank stops =>
          have allBlank := Text.forall_mem_crlf (by decide) blank
          obtain ⟨first, others, isText⟩ :=
            List.exists_cons_of_ne_nil (Text.crlf_ne_nil (List.cons_ne_nil _ _))
          rw [isText] at allBlank ⊢
          refine .spacing allBlank ?_
          cases next with
          | none => trivial
          | some character =>
              have noNewline : character ≠ '\n' := by
                rintro rfl
                rw [stops_some] at stops
                exact absurd stops (by decide)
              rwa [Option.map_some, Text.crlfFirst, if_neg noNewline]
  | lineComment =>
      cases fits with
      | lineComment inLine stops =>
          have noNewline := newline_not_mem_of_inLine inLine
          rw [Text.crlf_of_not_mem (by simp [noNewline])]
          exact .lineComment inLine stops.crlf
  | directive =>
      cases fits with
      | directive inLine stops =>
          have noNewline := newline_not_mem_of_inLine inLine
          rw [Text.crlf_of_not_mem (by simp [noNewline])]
          exact .directive inLine stops.crlf
  | blockComment closed =>
      cases fits with
      | @closedComment body _ inside =>
          have notInside : ¬['*', '/'] <:+: Text.crlf body ++ ['*'] := by
            intro ends
            apply inside
            apply Text.infix_of_infix_crlf
            rwa [Text.crlf_append]
          rw [Text.crlf_cons_of_ne (by decide), Text.crlf_cons_of_ne (by decide),
            Text.crlf_append]
          exact .closedComment notInside
      | openComment inside =>
          rw [Text.crlf_cons_of_ne (by decide), Text.crlf_cons_of_ne (by decide)]
          exact .openComment fun ends => inside (Text.infix_of_infix_crlf ends)
  | token kind closed =>
      cases isDelimiter : kind.delimiter? with
      | none =>
          rw [Text.crlf_of_not_mem (newline_not_mem_of_fits fits isDelimiter)]
          cases closed with
          | true => exact fits.token_crlf
          | false =>
              cases fits with
              | openQuote delimits => simp [isDelimiter] at delimits
      | some delimiter =>
          obtain ⟨noNewline, noReturn⟩ := delimiter_ne isDelimiter
          cases fits with
          | closedQuote delimits alone =>
              obtain rfl := Option.some.inj (isDelimiter.symm.trans delimits)
              rw [(Text.crlf_delimited noNewline noReturn _).1]
              refine .closedQuote delimits fun isNext => alone ?_
              obtain ⟨character, rfl, isFirst⟩ := Option.map_eq_some_iff.1 isNext
              rw [(Text.crlfFirst_eq_iff noNewline noReturn).1 isFirst]
          | openQuote delimits =>
              obtain rfl := Option.some.inj (isDelimiter.symm.trans delimits)
              rw [(Text.crlf_delimited noNewline noReturn _).2]
              exact .openQuote delimits
          | _ => contradiction

end Piece

/-- A token that has gained a carriage return before every newline.  Only quoted tokens have
any. -/
structure Token.GainsReturns (old new : Token) : Prop where
  kind_eq : new.kind = old.kind
  position_eq : new.position = old.position
  text_eq : new.text = Text.withReturns old.text
  value_eq : new.value = Text.withReturns old.value
  unquoted : old.kind.delimiter? = none → new.text = old.text ∧ new.value = old.value

theorem Token.gainsReturns_of_text_eq {old new : Token} {closed : Bool} {next : Option Char}
    (fits : Piece.Fits (.token old.kind closed) old.text.toList next)
    (kindEq : new.kind = old.kind) (positionEq : new.position = old.position)
    (textEq : new.text = Text.withReturns old.text) : old.GainsReturns new := by
  cases isDelimiter : old.kind.delimiter? with
  | none =>
      have sameText : new.text = old.text := textEq.trans <|
        Text.withReturns_of_not_mem (Piece.newline_not_mem_of_fits fits isDelimiter)
      have oldValue : old.value = old.text := by rw [value, isDelimiter]
      have newValue : new.value = new.text := by rw [value, kindEq, isDelimiter]
      refine ⟨kindEq, positionEq, textEq, ?_, fun _ => ⟨sameText, ?_⟩⟩
      · rw [newValue, oldValue, textEq]
      · rw [newValue, oldValue, sameText]
  | some delimiter =>
      obtain ⟨noNewline, noReturn⟩ := Piece.delimiter_ne isDelimiter
      have newDelimiter : new.kind.delimiter? = some delimiter := by rw [kindEq, isDelimiter]
      have newText : new.text.toList = Text.crlf old.text.toList := by
        rw [textEq, Text.withReturns, String.toList_ofList]
      refine ⟨kindEq, positionEq, textEq, ?_, fun noQuotes =>
        absurd (isDelimiter.symm.trans noQuotes) (Option.some_ne_none _)⟩
      obtain ⟨written, isWritten⟩ := Piece.exists_quote_of_fits isDelimiter fits
      have isOld : old.value = String.ofList written :=
        value_of_quote isDelimiter (isWritten.imp And.right fun isOpen => isOpen.2.1)
      have isNew : new.value = String.ofList (Text.crlf written) := by
        obtain ⟨closedEq, openEq⟩ := Text.crlf_delimited noNewline noReturn written
        apply value_of_quote newDelimiter
        rw [newText, ← closedEq, ← openEq]
        exact isWritten.imp (fun isClosed => congrArg _ isClosed.2)
          fun isOpen => congrArg _ isOpen.2.1
      rw [isNew, isOld, Text.withReturns, String.toList_ofList]

/-- A declaration whose names have gained a carriage return before every newline. -/
structure Declaration.GainsReturns (old new : Declaration) : Prop where
  kind_eq : new.kind = old.kind
  id_eq : new.id = old.id
  name_eq : new.name = old.name.map Text.withReturns
  interfaces_eq : new.interfaces = old.interfaces.map Text.withReturns
  target_eq : new.target = old.target.map Text.withReturns
  position_eq : new.position = old.position

namespace Piece

/-- A piece that has gained a carriage return before every newline. -/
structure GainsReturns (old new : Piece) : Prop where
  shape_eq : new.shape = old.shape
  text_eq : new.text = Text.crlf old.text
  spot : new.start.SameSpot old.start
  fits : ∃ next, Fits old.shape old.text next

/-- With carriage returns a text is cut at the same places. -/
theorem gainsReturns_listFrom (place : Place) (text : List Char) {other : Place}
    (same : other.SameSpot place) :
    List.Forall₂ GainsReturns (listFrom place text) (listFrom other (Text.crlf text)) := by
  induction place, text using cutInduction generalizing other with
  | nil place => simp
  | piece place shape text rest fits ih =>
      have fitsNew := fits.crlf
      rw [← Text.head?_crlf] at fitsNew
      rw [Text.crlf_append, listFrom_append place fits, listFrom_append other fitsNew]
      exact .cons ⟨rfl, rfl, same, _, fits⟩ (ih (same.advance_crlf text))

namespace GainsReturns

variable {old new : Piece}

theorem directive?_eq (gains : GainsReturns old new) : new.directive? = old.directive? := by
  obtain ⟨shape, text, start⟩ := old
  obtain ⟨newShape, newText, newStart⟩ := new
  obtain ⟨shapeEq, textEq, -, next, fits⟩ := gains
  obtain rfl : newShape = shape := shapeEq
  obtain rfl : newText = Text.crlf text := textEq
  cases newShape with
  | directive =>
      cases fits with
      | directive inLine stops =>
          have noNewline := newline_not_mem_of_inLine inLine
          simp [directive?, Text.crlf_of_not_mem, noNewline]
  | _ => rfl

theorem fault?_eq (gains : GainsReturns old new) : new.fault? = old.fault? := by
  rw [fault?, fault?, gains.shape_eq]

theorem token?_eq_none (gains : GainsReturns old new) (noToken : old.token? = none) :
    new.token? = none := by
  unfold token? at *
  rw [gains.shape_eq]
  cases isShape : old.shape with
  | token kind closed => simp [isShape] at noToken
  | _ => rfl

theorem token? (gains : GainsReturns old new) {token : Token}
    (isToken : old.token? = some token) :
    ∃ newToken, new.token? = some newToken ∧ token.GainsReturns newToken := by
  obtain ⟨shape, text, start⟩ := old
  obtain ⟨newShape, newText, newStart⟩ := new
  obtain ⟨shapeEq, textEq, spot, next, fits⟩ := gains
  obtain rfl : newShape = shape := shapeEq
  obtain rfl : newText = Text.crlf text := textEq
  cases newShape with
  | token kind closed =>
      obtain rfl := Option.some.inj isToken
      have fitsToken : Fits (.token kind closed) (String.ofList text).toList next := by
        rwa [String.toList_ofList]
      refine ⟨_, rfl, Token.gainsReturns_of_text_eq fitsToken rfl spot.position_eq ?_⟩
      rw [Text.withReturns, String.toList_ofList]
  | _ => cases isToken

theorem actsLike (gains : GainsReturns old new) : old.ActsLike Token.GainsReturns new where
  directive?_eq := gains.directive?_eq
  fault?_eq := gains.fault?_eq
  tokens := by
    cases isToken : old.token? with
    | none =>
        rw [gains.token?_eq_none isToken]
        exact .nil
    | some token =>
        obtain ⟨newToken, isNew, tokenGains⟩ := gains.token? isToken
        rw [isNew]
        exact .cons tokenGains .nil

end GainsReturns

end Piece

namespace Conditions

/-- Pieces that have gained carriage returns show the same tokens, note the same issues and
leave the same symbols. -/
theorem SameBranches.run {first second : Conditions} {pieces others : List Piece}
    (same : SameBranches first second) (gain : List.Forall₂ Piece.GainsReturns pieces others) :
    List.Forall₂ Token.GainsReturns (first.visibleTokens pieces)
        (second.visibleTokens others) ∧
      (second.metIssues others).map Issue.cause = (first.metIssues pieces).map Issue.cause ∧
      SameBranches (first.afterAll pieces) (second.afterAll others) :=
  same.run_actsLike (gain.imp fun _ _ => Piece.GainsReturns.actsLike)

end Conditions

/-- Carriage returns before newlines change names only. -/
def Change.returns : Change := ⟨Text.withReturns, fun position => position, fun _ => .nowhere⟩

theorem Token.GainsReturns.becomes {old new : Token} (gains : old.GainsReturns new) :
    old.Becomes .returns new.withoutSpan where
  kind_eq := gains.kind_eq
  text_eq noQuotes := (gains.unquoted noQuotes).1
  value_eq _ := gains.value_eq
  position_eq := gains.position_eq
  span_eq := rfl

theorem Declaration.gainsReturns_of_changed {old new : Declaration}
    (isChanged : new.withoutSpans = old.changed .returns) : old.GainsReturns new where
  kind_eq := (congrArg Declaration.kind isChanged :)
  id_eq := (congrArg Declaration.id isChanged :)
  name_eq := (congrArg Declaration.name isChanged :)
  interfaces_eq := (congrArg Declaration.interfaces isChanged :)
  target_eq := (congrArg Declaration.target isChanged :)
  position_eq := (congrArg Declaration.position isChanged :)

/-- The declarations among tokens that have gained carriage returns have gained them too. -/
theorem Declaration.listOfTokens_gainsReturns {tokens others : List Token}
    (gain : List.Forall₂ Token.GainsReturns tokens others) :
    List.Forall₂ Declaration.GainsReturns (listOfTokens tokens) (listOfTokens others) := by
  have become : List.Forall₂ (Token.Becomes .returns) tokens (others.map Token.withoutSpan) :=
    List.forall₂_map_right_iff.2 (gain.imp fun _ _ => Token.GainsReturns.becomes)
  have isChanged := listOfTokens_becomes (fun _ _ => Iff.rfl) become
  have moved : listOfTokens (others.map Token.withoutSpan) =
      (listOfTokens others).map Declaration.withoutSpans :=
    listOfTokens_relocate (fun _ => Span.nowhere) (fun _ _ => Iff.rfl) others
  have pairs : List.Forall₂ Eq ((listOfTokens tokens).map (changed .returns))
      ((listOfTokens others).map Declaration.withoutSpans) := by
    rw [List.forall₂_eq_eq_eq, ← moved, isChanged]
  rw [List.forall₂_map_left_iff, List.forall₂_map_right_iff] at pairs
  exact pairs.imp fun _ _ same => gainsReturns_of_changed same.symm

/-- With a carriage return before every newline, a text shows the same tokens at the same
positions and declares the same objects, where what is quoted over several lines has become
longer.  Its symbols and the causes of its issues stay as they are. -/
theorem scan_crlf (source : String) (symbols : SymbolTable) :
    let plain := Scan.ofText source symbols
    let returned := Scan.ofText (Text.withReturns source) symbols
    List.Forall₂ Token.GainsReturns (Preprocessed.ofText source symbols).tokens
        (Preprocessed.ofText (Text.withReturns source) symbols).tokens ∧
      List.Forall₂ Declaration.GainsReturns plain.declarations returned.declarations ∧
      returned.symbols = plain.symbols ∧
      returned.issues.map Issue.cause = plain.issues.map Issue.cause := by
  intro plain returned
  have gain : List.Forall₂ Piece.GainsReturns (Piece.listOfText source)
      (Piece.listOfText (Text.withReturns source)) := by
    rw [Piece.listOfText_eq, Piece.listOfText_eq, Text.withReturns, String.toList_ofList]
    exact Piece.gainsReturns_listFrom .start source.toList ⟨rfl, rfl⟩
  have same : Conditions.SameBranches (.initial symbols) (.initial symbols) := ⟨rfl, .nil⟩
  obtain ⟨tokensGain, causesEq, sameEnd⟩ := same.run gain
  simp only [plain, returned, Scan.ofText, Preprocessed.scan, Preprocessed.ofText,
    Preprocessed.ofPieces_eq]
  refine ⟨tokensGain, Declaration.listOfTokens_gainsReturns tokensGain, sameEnd.symbols_eq, ?_⟩
  rw [List.map_append, List.map_append, causesEq, sameEnd.cause_unclosed_eq]

-- A name on two lines gains a carriage return, and nothing else shows that there are any.
example : (Scan.ofText (Text.withReturns "table 1\n\"A\nB\" // c\n") .empty).declarations.map
    (fun declaration => (declaration.name, declaration.position)) =
      [(some "A\r\nB", ⟨0, 0⟩)] := by
  decide +kernel

end ObjectIds
