import ObjectIds.Proofs.IssueSites

/-!
# Quoted tokens

A value that is written between delimiters, with each delimiter in it doubled, is read back
as that value, and in the other direction every quoted token is its value so written.  The
reader of tokens and the reader of values are two readers of one notation: they agree on
where a literal ends, and when the delimiter is missing at the end both go to the end of the
source.
-/

namespace ObjectIds

namespace Token

/-- The classes of quoted tokens, each with its delimiter and with what is wrong when the
delimiter at the end is missing. -/
inductive Kind.Quoted : Kind → Char → Issue.Cause → Prop
  | string : Quoted .string '\'' .unterminatedString
  | quotedIdentifier : Quoted .quotedIdentifier '"' .unterminatedQuotedIdentifier

theorem Kind.Quoted.delimits {kind : Kind} {delimiter : Char} {cause : Issue.Cause}
    (quoted : kind.Quoted delimiter cause) : kind.delimiter? = some delimiter := by
  cases quoted <;> rfl

theorem Kind.Quoted.ofUnterminated? {kind : Kind} {delimiter : Char} {cause : Issue.Cause}
    (quoted : kind.Quoted delimiter cause) : Issue.Cause.ofUnterminated? kind = some cause := by
  cases quoted <;> rfl

theorem unquoted_cons (delimiter : Char) (text : List Char) :
    unquoted delimiter (delimiter :: text) = Text.unquote delimiter text := by
  simp [unquoted]

/-- A token that is a written value means that value, with or without the delimiter at its
end. -/
theorem value_of_quote {token : Token} {delimiter : Char} {value : List Char}
    (delimits : token.kind.delimiter? = some delimiter)
    (isText : token.text.toList = delimiter :: (Text.quote delimiter value ++ [delimiter]) ∨
      token.text.toList = delimiter :: Text.quote delimiter value) :
    token.value = String.ofList value := by
  obtain ⟨readClosed, readOpen⟩ := @Text.unquote_quote delimiter value
  rw [Token.value, delimits]
  show String.ofList (unquoted delimiter token.text.toList) = String.ofList value
  rcases isText with isText | isText
  · rw [isText, unquoted_cons, readClosed]
  · rw [isText, unquoted_cons, readOpen]

end Token

namespace Piece

/-- A quoted token is a value between two delimiters, or a value after one at the end of the
source. -/
theorem exists_quote_of_fits {kind : Token.Kind} {delimiter : Char} {closed : Bool}
    {text : List Char} {next : Option Char} (delimits : kind.delimiter? = some delimiter)
    (fits : Fits (.token kind closed) text next) :
    ∃ value, closed = true ∧ text = delimiter :: (Text.quote delimiter value ++ [delimiter]) ∨
      closed = false ∧ text = delimiter :: Text.quote delimiter value ∧ next = none := by
  cases fits with
  | @closedQuote _ _ value _ isDelimiter alone =>
      obtain rfl := Option.some.inj (delimits.symm.trans isDelimiter)
      exact ⟨value, .inl ⟨rfl, rfl⟩⟩
  | @openQuote _ _ value isDelimiter =>
      obtain rfl := Option.some.inj (delimits.symm.trans isDelimiter)
      exact ⟨value, .inr ⟨rfl, rfl, rfl⟩⟩
  | _ => contradiction

/-- The pieces after a piece are those of the text after it. -/
theorem exists_split_of_listFrom_eq {place : Place} {text : List Char}
    {earlier later : List Piece} {piece : Piece}
    (isList : listFrom place text = earlier ++ piece :: later) :
    ∃ before after, text = before ++ piece.text ++ after ∧
      piece.start = place.advance before ∧ Fits piece.shape piece.text after.head? ∧
        later = listFrom piece.stop after := by
  induction place, text using cutInduction generalizing earlier with
  | nil place => simp at isList
  | piece place shape text rest fits ih =>
      rw [listFrom_append place fits] at isList
      cases earlier with
      | nil =>
          obtain ⟨rfl, rfl⟩ := List.cons.inj isList
          exact ⟨[], rest, rfl, rfl, fits, rfl⟩
      | cons first earlier =>
          obtain ⟨-, isRest⟩ := List.cons.inj isList
          obtain ⟨before, after, rfl, starts, fitsThere, isLater⟩ := ih isRest
          refine ⟨text ++ before, after, by simp, ?_, fitsThere, isLater⟩
          rw [starts, Place.advance_append]

section Notes

variable {piece : Piece} {kind : Token.Kind}

theorem faultNote?_of_closed (isShape : piece.shape = .token kind true) :
    piece.faultNote? = none := by
  simp [faultNote?, fault?, isShape]

theorem faultNote?_of_open {delimiter : Char} {cause : Issue.Cause}
    (quoted : kind.Quoted delimiter cause) (isShape : piece.shape = .token kind false) :
    piece.faultNote? = some ⟨cause, piece.span⟩ := by
  simp [faultNote?, fault?, isShape, quoted.ofUnterminated?]

theorem directive?_of_token {closed : Bool} (isShape : piece.shape = .token kind closed) :
    piece.directive? = none := by
  simp [directive?, isShape]

/-- Nothing is noted at a token that is closed. -/
theorem not_canNote_of_closed {issue : Issue} (isShape : piece.shape = .token kind true) :
    ¬piece.CanNote issue := by
  simp [CanNote, unmatchedNote?, unclosedNote?, opens, directive?_of_token isShape,
    faultNote?_of_closed isShape]

end Notes

/-- The last piece of a text is the only one that can have a fault. -/
theorem filterMap_faultNote?_of_last {source : String} {earlier : List Piece} {piece : Piece}
    {issue : Issue} (isList : listOfText source = earlier ++ [piece])
    (isRun : piece.isRun = true) (isNote : piece.faultNote? = some issue) :
    (listOfText source).filterMap faultNote? = [issue] := by
  have lastRun : ((listOfText source).filter Piece.isRun).getLast? = some piece := by
    simp [isList, List.filter_append, isRun]
  rw [listOfText_eq, filterMap_faultNote?_listFrom, ← listOfText_eq, lastRun,
    Option.bind_some, isNote]
  rfl

end Piece

namespace Preprocessed

variable {source : String} {piece : Piece} {kind : Token.Kind}

/-- No issue stands where a token that is closed stands. -/
theorem span_ne_of_closed (symbols : SymbolTable) (short : source.utf8ByteSize < UInt32.size)
    (member : piece ∈ Piece.listOfText source) (isShape : piece.shape = .token kind true) :
    ∀ issue ∈ (ofText source symbols).issues, issue.span ≠ piece.span := by
  intro issue noted sameSpan
  obtain ⟨site, isSite, canNote⟩ := exists_site noted
  have same := Piece.eq_of_span_eq short isSite member (canNote.span_eq.symm.trans sameSpan)
  exact Piece.not_canNote_of_closed isShape (same ▸ canNote)

/-- When a quoted token is not closed, this is the only issue that is not about conditionals. -/
theorem filter_issues_of_open {delimiter : Char} {cause : Issue.Cause} {earlier : List Piece}
    (symbols : SymbolTable) (quoted : kind.Quoted delimiter cause)
    (isList : Piece.listOfText source = earlier ++ [piece])
    (isShape : piece.shape = .token kind false) :
    (ofText source symbols).issues.filter (!·.cause.isUnbalanced) = [⟨cause, piece.span⟩] := by
  have isRun : piece.isRun = true := by simp [Piece.isRun, isShape, quoted.delimits]
  rw [filter_issues_ofText]
  exact Piece.filterMap_faultNote?_of_last isList isRun
    (Piece.faultNote?_of_open quoted isShape)

end Preprocessed

namespace TokenStream

theorem passAll_issues_of_no_directive (stream : TokenStream) (earlier : List Piece)
    {piece : Piece} (noDirective : piece.directive? = none) :
    (stream.passAll (earlier ++ [piece])).issues =
      (stream.passAll earlier).issues ++ piece.faultNote?.toList := by
  rw [passAll_issues, passAll_issues, Conditions.metIssues_append, Conditions.metIssues_cons,
    Conditions.issue?_of_no_directive _ noDirective, Conditions.metIssues_nil,
    List.append_nil, List.append_assoc]

/-- A token at the start of a source is read first. -/
theorem read_ofText_of_fits {source : String} {kind : Token.Kind} {text rest : List Char}
    (symbols : SymbolTable) (isSource : source.toList = text ++ rest)
    (fits : Piece.Fits (.token kind true) text rest.head?) :
    let piece : Piece := ⟨.token kind true, text, Place.start⟩
    (ofText source symbols).read =
      (piece.token?, (ofText source symbols).pass piece (Piece.listFrom piece.stop rest)) := by
  intro piece
  have isList : Piece.listOfText source = piece :: Piece.listFrom piece.stop rest := by
    rw [Piece.listOfText_eq, isSource, Piece.listFrom_append _ fits]
    rfl
  show (ofText source symbols).seek (Piece.listOfText source) = _
  rw [isList]
  rfl

/-- A written value at the start of a source is read first, and means that value. -/
theorem read_ofText_quote {kind : Token.Kind} {delimiter : Char} {cause : Issue.Cause}
    (quoted : kind.Quoted delimiter cause) (symbols : SymbolTable) {value rest : String}
    (alone : rest.toList.head? ≠ some delimiter) :
    let text := delimiter :: (Text.quote delimiter value.toList ++ [delimiter])
    let start := ofText (String.ofList text ++ rest) symbols
    ∃ token, start.read.1 = some token ∧ token.kind = kind ∧
      token.text = String.ofList text ∧ token.value = value ∧ start.read.2.issues = [] := by
  intro text start
  have fits : Piece.Fits (.token kind true) text rest.toList.head? :=
    .closedQuote quoted.delimits alone
  have isSource : (String.ofList text ++ rest).toList = text ++ rest.toList := by
    rw [String.toList_append, String.toList_ofList]
  let piece : Piece := ⟨.token kind true, text, Place.start⟩
  have isRead : start.read = (piece.token?, start.pass piece _) :=
    read_ofText_of_fits symbols isSource fits
  let token : Token := ⟨kind, String.ofList text, piece.start.position, piece.span⟩
  have means : token.value = value := by
    have isValue := @Token.value_of_quote token delimiter value.toList quoted.delimits
      (.inl String.toList_ofList)
    rw [isValue, String.ofList_toList]
  refine ⟨token, congrArg Prod.fst isRead, rfl, rfl, means, ?_⟩
  rw [isRead]
  rfl

end TokenStream

/-- Writing a value between delimiters and reading it back are inverse.  Where a written
value is followed by anything but another delimiter, the first token that is read is that
text and means that value, and nothing is noted.  Wherever a quoted token stands, hidden or
not, it is its value written between delimiters, with nothing noted about it, or it is the
end of the source without the delimiter at its end, and just this is noted. -/
theorem quoted_tokens_read_back {kind : Token.Kind} {delimiter : Char} {cause : Issue.Cause}
    (quoted : kind.Quoted delimiter cause) (symbols : SymbolTable) :
    (∀ value rest : String, rest.toList.head? ≠ some delimiter →
      let text := delimiter :: (Text.quote delimiter value.toList ++ [delimiter])
      let start := TokenStream.ofText (String.ofList text ++ rest) symbols
      ∃ token, start.read.1 = some token ∧ token.kind = kind ∧
        token.text = String.ofList text ∧ token.value = value ∧
          start.read.2.issues = []) ∧
      ∀ source earlier piece later token,
        Piece.listOfText source = earlier ++ piece :: later → piece.token? = some token →
          token.kind = kind →
        let start := TokenStream.ofText source symbols
        let noted := (start.passAll earlier).issues
        let issues := (start.drain []).2.issues
        token.text.toList =
              delimiter :: (Text.quote delimiter token.value.toList ++ [delimiter]) ∧
            (start.passAll (earlier ++ [piece])).issues = noted ∧
            (source.utf8ByteSize < UInt32.size → ∀ issue ∈ issues, issue.span ≠ token.span) ∨
          token.text.toList = delimiter :: Text.quote delimiter token.value.toList ∧
            token.text.toList <:+ source.toList ∧ later = [] ∧
            (start.passAll (earlier ++ [piece])).issues = noted ++ [⟨cause, token.span⟩] ∧
            issues.filter (!·.cause.isUnbalanced) = [⟨cause, token.span⟩] := by
  constructor
  · exact fun value rest alone => TokenStream.read_ofText_quote quoted symbols alone
  · intro source earlier piece later token isList isToken isKind start noted issues
    obtain ⟨closed, isShape⟩ := Piece.exists_shape_of_token? isToken
    obtain ⟨text, span⟩ := Piece.text_of_token? isToken
    have member : piece ∈ Piece.listOfText source := by simp [isList]
    have isIssues : issues = (Preprocessed.ofText source symbols).issues :=
      (TokenStream.drain_ofText source symbols).2.2
    have notes := start.passAll_issues_of_no_directive earlier
      (Piece.directive?_of_token isShape)
    obtain ⟨before, after, isSource, starts, fits, isLater⟩ :=
      Piece.exists_split_of_listFrom_eq isList
    rw [isShape, isKind] at fits
    have delimits : token.kind.delimiter? = some delimiter := isKind ▸ quoted.delimits
    obtain ⟨value, ⟨rfl, isText⟩ | ⟨rfl, isText, atEnd⟩⟩ :=
      Piece.exists_quote_of_fits quoted.delimits fits
    · left
      have means := Token.value_of_quote delimits (.inl (text.trans isText))
      rw [means, text, isText, String.toList_ofList]
      refine ⟨rfl, ?_, fun short issue isIssue sameSpan => ?_⟩
      · rw [notes, Piece.faultNote?_of_closed isShape, Option.toList_none, List.append_nil]
      · rw [isIssues] at isIssue
        rw [span] at sameSpan
        exact Preprocessed.span_ne_of_closed symbols short member isShape issue isIssue sameSpan
    · right
      have means := Token.value_of_quote delimits (.inr (text.trans isText))
      rw [isKind] at isShape
      obtain rfl := List.head?_eq_none_iff.1 atEnd
      obtain rfl : later = [] := isLater.trans (Piece.listFrom_nil _)
      rw [means, text, isText, String.toList_ofList, span]
      refine ⟨rfl, ⟨before, by rw [isSource, isText, List.append_nil]⟩, rfl, ?_, ?_⟩
      · rw [notes, Piece.faultNote?_of_open quoted isShape]
        rfl
      · rw [isIssues]
        exact Preprocessed.filter_issues_of_open symbols quoted isList isShape

/-- A string with a doubled quote, and a hidden identifier that ends the source with one. -/
theorem quoted_tokens_read_back_around_hidden_branch :
    let source := "'it''s'\n#if A\n\"a\"\""
    let start := TokenStream.ofText source .empty
    (∃ token, start.read.1 = some token ∧ token.kind = .string ∧ token.text = "'it''s'" ∧
        token.value = "it's" ∧ start.read.2.issues = []) ∧
      (start.drain []).1.map Token.value = ["it's"] ∧
      (start.drain []).2.issues.filter (!·.cause.isUnbalanced) =
        [⟨.unterminatedQuotedIdentifier, ⟨14, 18⟩⟩] := by
  intro source start
  let earlier : List Piece :=
    [⟨.token .string true, "'it''s'".toList, ⟨0, 0, 0⟩⟩, ⟨.spacing, ['\n'], ⟨0, 7, 7⟩⟩,
      ⟨.directive, "#if A".toList, ⟨1, 0, 8⟩⟩, ⟨.spacing, ['\n'], ⟨1, 5, 13⟩⟩]
  let hidden : Piece := ⟨.token .quotedIdentifier false, "\"a\"\"".toList, ⟨2, 0, 14⟩⟩
  have isList : Piece.listOfText source = earlier ++ hidden :: [] := by decide +kernel
  have isString := (quoted_tokens_read_back .string .empty).1 "it's" "\n#if A\n\"a\"\"" (by decide)
  have isOpen := (quoted_tokens_read_back .quotedIdentifier .empty).2 source earlier hidden []
    _ isList rfl rfl
  refine ⟨?_, by decide +kernel, ?_⟩
  · exact isString
  · rcases isOpen with ⟨isClosed, -⟩ | ⟨-, -, -, -, isIssue⟩
    · exact absurd isClosed (by decide +kernel)
    · exact isIssue

end ObjectIds
