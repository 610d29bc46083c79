import ObjectIds.Proofs.LexemeLocations
import ObjectIds.Proofs.OpenConditionals

/-!
# What is noted about a text

A stream that is read to its end has noted three things, in this order: the directives that
stand outside every conditional, the last run that is not terminated, and the `#if` lines
that are not closed.  It does not matter in which way the stream is read, nor how often it
is asked for more after its end.
-/

namespace ObjectIds

theorem Text.quote_append_delimiter_ne (delimiter : Char) (value other : List Char) :
    quote delimiter value ++ [delimiter] ≠ quote delimiter other := by
  intro same
  -- Both sides would read back as one value, but they differ in length.
  have readBack := congrArg (unquote delimiter) same
  rw [(unquote_quote value).1, (unquote_quote other).2] at readBack
  rw [readBack] at same
  simpa using congrArg List.length same

namespace Piece

/-- The note on a directive outside every conditional. -/
def unmatchedNote? (line : Piece) : Option Issue :=
  match line.directive? with
  | some (.elseIfDefined _) => some ⟨.unmatchedElseIf, line.span⟩
  | some .elseBranch => some ⟨.unmatchedElse, line.span⟩
  | some .endIf => some ⟨.unmatchedEndIf, line.span⟩
  | _ => none

/-- The notes on directives that are reached when every earlier `#if` line has been closed.
The pieces `before` come first. -/
def unmatchedNotes (before : List Piece) : List Piece → List Issue
  | [] => []
  | piece :: pieces =>
      (if unclosedLines before = [] then piece.unmatchedNote?.toList else []) ++
        unmatchedNotes (before ++ [piece]) pieces

/-- Whether a piece runs from an opening delimiter to a closing one: a quoted token or a
block comment. -/
def isRun (piece : Piece) : Bool :=
  match piece.shape with
  | .token kind _ => kind.delimiter?.isSome
  | .blockComment _ => true
  | .spacing | .lineComment | .directive => false

/-- A run without a closing delimiter, and what is noted about it. -/
inductive Unterminated : Piece → Issue.Cause → Prop
  | string {closed : Bool} {value : List Char} {start : Place} :
      Unterminated ⟨.token .string closed, '\'' :: Text.quote '\'' value, start⟩
        .unterminatedString
  | quotedIdentifier {closed : Bool} {value : List Char} {start : Place} :
      Unterminated ⟨.token .quotedIdentifier closed, '"' :: Text.quote '"' value, start⟩
        .unterminatedQuotedIdentifier
  | comment {closed : Bool} {body : List Char} {start : Place}
      (inside : ¬['*', '/'] <:+: body) :
      Unterminated ⟨.blockComment closed, '/' :: '*' :: body, start⟩ .unterminatedComment

/-- The note on a piece that is not closed. -/
def faultNote? (piece : Piece) : Option Issue := piece.fault?.map (⟨·, piece.span⟩)

section Faults

variable {shape : Shape} {text : List Char} {place : Place} {next : Option Char}

/-- A quoted run that ends before a closing delimiter is not closed. -/
theorem closed_eq_false_of_quote {kind : Token.Kind} {delimiter : Char} {closed : Bool}
    {value : List Char} (delimits : kind.delimiter? = some delimiter)
    (fits : Fits (.token kind closed) (delimiter :: Text.quote delimiter value) next) :
    closed = false := by
  generalize isText : delimiter :: Text.quote delimiter value = text at fits
  cases fits with
  | openQuote isDelimiter => rfl
  | @closedQuote _ _ other _ isDelimiter alone =>
      obtain rfl := Option.some.inj (delimits.symm.trans isDelimiter)
      exact (Text.quote_append_delimiter_ne _ other value (List.cons.inj isText).2.symm).elim
  | _ => contradiction

theorem fault?_eq_some_iff (fits : Fits shape text next) {cause : Issue.Cause} :
    fault? ⟨shape, text, place⟩ = some cause ↔ Unterminated ⟨shape, text, place⟩ cause := by
  constructor
  · intro isFault
    cases fits with
    | openComment inside =>
        cases isFault
        exact .comment inside
    | @openQuote kind delimiter value delimits =>
        cases kind with
        | string => cases delimits; cases isFault; exact .string
        | quotedIdentifier => cases delimits; cases isFault; exact .quotedIdentifier
        | word | number | symbol => contradiction
    | _ => contradiction
  · intro unterminated
    cases unterminated with
    | string =>
        obtain rfl := closed_eq_false_of_quote rfl fits
        rfl
    | quotedIdentifier =>
        obtain rfl := closed_eq_false_of_quote rfl fits
        rfl
    | @comment closed body start inside =>
        generalize isText : '/' :: '*' :: body = text at fits
        cases fits with
        | openComment inside => rfl
        | @closedComment other _ insideOther =>
            obtain rfl := (List.cons.inj (List.cons.inj isText).2).2
            exact (inside (List.suffix_append other ['*', '/']).isInfix).elim

/-- Only the last piece of a text can fail to be closed. -/
theorem next_eq_none_of_fault? (fits : Fits shape text next) {cause : Issue.Cause}
    (isFault : fault? ⟨shape, text, place⟩ = some cause) : next = none := by
  cases fits with
  | openComment inside => rfl
  | openQuote delimits => rfl
  | _ => contradiction

theorem isRun_of_fault? {piece : Piece} {cause : Issue.Cause}
    (isFault : piece.fault? = some cause) : piece.isRun = true := by
  unfold fault? at isFault
  unfold isRun
  split at isFault
  · rename_i isShape
    rw [isShape]
  · rename_i kind isShape
    rw [isShape]
    cases kind with
    | string => rfl
    | quotedIdentifier => rfl
    | word => cases isFault
    | number => cases isFault
    | symbol => cases isFault
  · contradiction

end Faults

/-- The only piece of a text that can fail to be closed is its last run. -/
theorem filterMap_faultNote?_listFrom (place : Place) (text : List Char) :
    (listFrom place text).filterMap faultNote? =
      (((listFrom place text).filter isRun).getLast?.bind faultNote?).toList := by
  induction place, text using cutInduction with
  | nil place => simp
  | piece place shape text rest fits ih =>
      rw [listFrom_append place fits]
      cases isFault : fault? ⟨shape, text, place⟩ with
      | some cause =>
          have atEnd := next_eq_none_of_fault? fits isFault
          obtain rfl := List.head?_eq_none_iff.1 atEnd
          simp [faultNote?, isFault, isRun_of_fault? isFault]
      | none =>
          have noNote : faultNote? ⟨shape, text, place⟩ = none := by simp [faultNote?, isFault]
          rw [List.filterMap_cons_none noNote, ih, List.filter_cons]
          split
          · rw [List.getLast?_cons]
            cases (List.filter isRun (listFrom (place.advance text) rest)).getLast? with
            | none => simp [noNote]
            | some run => rfl
          · rfl

end Piece

namespace Conditions

theorem issue?_of_no_directive (conditions : Conditions) {piece : Piece}
    (noDirective : piece.directive? = none) :
    conditions.issue? piece = piece.faultNote? := by
  simp [issue?, noDirective, Piece.faultNote?]

theorem issue?_of_directive (conditions : Conditions) {piece : Piece} {directive : Directive}
    (isDirective : piece.directive? = some directive) :
    conditions.issue? piece =
      if conditions.openings = [] then piece.unmatchedNote? else none := by
  have isEmpty : conditions.conditionals.isEmpty = decide (conditions.openings = []) := by
    cases isOpen : conditions.conditionals <;> simp [openings, isOpen]
  unfold issue? fault? Piece.unmatchedNote?
  rw [isDirective, isEmpty]
  by_cases noneOpen : conditions.openings = []
  · cases directive <;> simp [noneOpen, Issue.Cause.ofUnmatched?]
  · simp [noneOpen]

/-- Among the pieces of a text, unmatched directives are noted before what is not closed. -/
theorem metIssues_listFrom (symbols : SymbolTable) (before : List Piece) (place : Place)
    (text : List Char) :
    ((initial symbols).afterAll before).metIssues (Piece.listFrom place text) =
      Piece.unmatchedNotes before (Piece.listFrom place text) ++
        (Piece.listFrom place text).filterMap Piece.faultNote? := by
  induction place, text using Piece.cutInduction generalizing before with
  | nil place =>
      rw [Piece.listFrom_nil]
      rfl
  | piece place shape text rest fits ih =>
      have later := ih (before ++ [⟨shape, text, place⟩])
      rw [afterAll_append] at later
      rw [Piece.listFrom_append place fits, metIssues_cons, Piece.unmatchedNotes]
      cases isDirective : Piece.directive? ⟨shape, text, place⟩ with
      | some directive =>
          have noNote : Piece.faultNote? ⟨shape, text, place⟩ = none := by
            cases shape with
            | directive => rfl
            | spacing | lineComment | blockComment _ | token _ _ => contradiction
          have openings := openings_afterAll_initial symbols before
          have noneOpen : ((initial symbols).afterAll before).openings = [] ↔
              unclosedLines before = [] := by
            rw [openings, List.reverse_eq_nil_iff, List.map_eq_nil_iff]
          rw [issue?_of_directive _ isDirective, List.filterMap_cons_none noNote,
            List.append_assoc, ← later]
          by_cases isOutside : unclosedLines before = []
          · rw [if_pos isOutside, if_pos (noneOpen.2 isOutside)]
            rfl
          · rw [if_neg isOutside, if_neg (isOutside ∘ noneOpen.1)]
            rfl
      | none =>
          have noNote : Piece.unmatchedNote? ⟨shape, text, place⟩ = none := by
            simp [Piece.unmatchedNote?, isDirective]
          rw [issue?_of_no_directive _ isDirective, noNote]
          cases isFault : Piece.fault? ⟨shape, text, place⟩ with
          | some cause =>
              have atEnd := Piece.next_eq_none_of_fault? fits isFault
              obtain rfl := List.head?_eq_none_iff.1 atEnd
              simp [Piece.faultNote?, isFault, Piece.unmatchedNotes]
          | none =>
              have noFault : Piece.faultNote? ⟨shape, text, place⟩ = none := by
                simp [Piece.faultNote?, isFault]
              rw [List.filterMap_cons_none noFault, noFault, List.append_assoc, ← later]
              simp

end Conditions

namespace Piece

/-- What is noted about the last run of a source text.  The issue reaches from the opening
delimiter to the end of the source. -/
inductive LastRunNotes (source : String) : List Issue → Prop
  | unterminated {run : Piece} {cause : Issue.Cause} {before : List Char} {span : Span}
      (isLast : ((listOfText source).filter isRun).getLast? = some run)
      (lacksEnd : Unterminated run cause) (isSource : source.toList = before ++ run.text)
      (starts : span.start.toNat = Text.byteLength before)
      (stops : span.stop.toNat = source.utf8ByteSize) :
      LastRunNotes source [⟨cause, span⟩]
  | terminated
      (hasEnd : ∀ run, ((listOfText source).filter isRun).getLast? = some run →
        ∀ cause, ¬Unterminated run cause) :
      LastRunNotes source []

theorem lastRunNotes_filterMap {source : String}
    (short : source.utf8ByteSize < UInt32.size) :
    LastRunNotes source ((listOfText source).filterMap faultNote?) := by
  rw [listOfText_eq, filterMap_faultNote?_listFrom, ← listOfText_eq]
  cases isLast : ((listOfText source).filter isRun).getLast? with
  | none =>
      apply LastRunNotes.terminated
      simp [isLast]
  | some run =>
      have member := (List.mem_filter.1 (List.mem_of_getLast? isLast)).1
      obtain ⟨before, after, stands⟩ := exists_standsIn short member
      have fits := stands.fits
      cases isFault : run.fault? with
      | none =>
          have noNote : (some run).bind faultNote? = none := by simp [faultNote?, isFault]
          rw [noNote]
          apply LastRunNotes.terminated
          rintro other isOther cause unterminated
          obtain rfl := Option.some.inj (isLast.symm.trans isOther)
          rw [(fault?_eq_some_iff fits).2 unterminated] at isFault
          contradiction
      | some cause =>
          have isNote : (some run).bind faultNote? = some ⟨cause, run.span⟩ := by
            simp [faultNote?, isFault]
          have noneAfter := List.head?_eq_none_iff.1 (next_eq_none_of_fault? fits isFault)
          have isSource := stands.source_eq
          rw [noneAfter, List.append_nil] at isSource
          rw [isNote]
          refine .unterminated isLast ((fault?_eq_some_iff fits).1 isFault) isSource
            stands.first_byte ?_
          rw [stands.last_byte, ← isSource, Text.byteLength_toList]

end Piece

namespace TokenStream

/-- What a stream can be asked for: to take the next token, or to look at it. -/
inductive Request where
  | read
  | peek

/-- The stream after a request. -/
def after (stream : TokenStream) : Request → TokenStream
  | .read => stream.read.2
  | .peek => stream.peek.2

/-- The stream after requests. -/
def afterAll (stream : TokenStream) (requests : List Request) : TokenStream :=
  requests.foldl after stream

/-- A stream that has noted some of the given issues, and will have noted all of them when
it gets to its end. -/
structure WillNote (notes : List Issue) (stream : TokenStream) : Prop where
  before_end : stream.finished = false →
    stream.issues ++ stream.conditions.metIssues stream.pieces ++
      (stream.conditions.afterAll stream.pieces).unclosed = notes
  at_end : stream.finished = true → stream.issues = notes ∧ stream.pieces = []
  looked_beyond : stream.lookahead = some none → stream.finished = true

variable {notes : List Issue} {stream : TokenStream}

theorem finished_of_seek_eq_none {pieces : List Piece}
    (noToken : (stream.seek pieces).1 = none) : (stream.seek pieces).2.finished = true := by
  induction pieces generalizing stream with
  | nil =>
      unfold seek finish
      split
      · assumption
      · rfl
  | cons piece pieces ih =>
      unfold seek at noToken ⊢
      split at noToken
      · contradiction
      · exact ih noToken

/-- A piece that is passed has been noted. -/
theorem WillNote.pass {piece : Piece} {pieces : List Piece}
    (willNote : stream.WillNote notes) (isNext : stream.pieces = piece :: pieces)
    (empty : stream.lookahead = none) : (stream.pass piece pieces).WillNote notes := by
  have unfinished : stream.finished = false := by
    cases finished : stream.finished with
    | false => rfl
    | true =>
        have noPieces := (willNote.at_end finished).2
        rw [isNext] at noPieces
        contradiction
  have notesEq := willNote.before_end unfinished
  rw [isNext] at notesEq
  refine ⟨fun _ => ?_, fun finished => ?_, fun looked => ?_⟩
  · rw [← notesEq]
    simp [TokenStream.pass]
  · simp [TokenStream.pass, unfinished] at finished
  · simp [TokenStream.pass, empty] at looked

theorem WillNote.finish (willNote : stream.WillNote notes) (noPieces : stream.pieces = [])
    (empty : stream.lookahead = none) : stream.finish.WillNote notes := by
  unfold TokenStream.finish
  cases finished : stream.finished with
  | true =>
      have noted := (willNote.at_end finished).1
      exact ⟨fun unfinished => by simp at unfinished, fun _ => ⟨noted, rfl⟩,
        fun looked => by simp [empty] at looked⟩
  | false =>
      have notesEq := willNote.before_end finished
      rw [noPieces] at notesEq
      refine ⟨fun unfinished => by simp at unfinished, fun _ => ⟨?_, rfl⟩,
        fun looked => by simp [empty] at looked⟩
      simpa using notesEq

/-- A search for the next token changes nothing about what will be noted. -/
theorem WillNote.seek (willNote : stream.WillNote notes) (empty : stream.lookahead = none) :
    (stream.seek stream.pieces).2.WillNote notes := by
  induction isPieces : stream.pieces generalizing stream with
  | nil => exact willNote.finish isPieces empty
  | cons piece pieces ih =>
      have passed := willNote.pass isPieces empty
      unfold TokenStream.seek
      split
      · exact passed
      · exact ih passed empty rfl

theorem WillNote.read (willNote : stream.WillNote notes) : stream.read.2.WillNote notes := by
  unfold TokenStream.read
  split
  · exact ⟨willNote.before_end, willNote.at_end, fun looked => by contradiction⟩
  · rename_i empty
    exact willNote.seek empty

theorem WillNote.peek (willNote : stream.WillNote notes) : stream.peek.2.WillNote notes := by
  unfold TokenStream.peek
  split
  · exact willNote
  · rename_i empty
    have sought := willNote.seek empty
    refine ⟨sought.before_end, sought.at_end, fun looked => ?_⟩
    exact finished_of_seek_eq_none (Option.some.inj looked)

/-- Requests in any order change nothing about what will be noted. -/
theorem WillNote.afterAll (willNote : stream.WillNote notes) (requests : List Request) :
    (stream.afterAll requests).WillNote notes := by
  induction requests generalizing stream with
  | nil => exact willNote
  | cons request requests ih =>
      cases request with
      | read => exact ih willNote.read
      | peek => exact ih willNote.peek

/-- A stream without a next token has reached its end. -/
theorem WillNote.finished_of_isAtEnd (willNote : stream.WillNote notes)
    (atEnd : stream.isAtEnd.1 = true) : stream.peek.2.finished = true := by
  have noToken : stream.peek.1 = none := Option.isNone_iff_eq_none.1 atEnd
  unfold TokenStream.peek at noToken ⊢
  split at noToken
  · rename_i token looked
    obtain rfl : token = none := noToken
    exact willNote.looked_beyond looked
  · exact finished_of_seek_eq_none noToken

theorem finished_seek (pieces : List Piece) (finished : stream.finished = true) :
    (stream.seek pieces).2.finished = true := by
  induction pieces generalizing stream with
  | nil => simp [seek, finish, finished]
  | cons piece pieces ih =>
      unfold seek
      split
      · exact finished
      · exact ih finished

theorem finished_after (request : Request) (finished : stream.finished = true) :
    (stream.after request).finished = true := by
  cases request with
  | read =>
      show stream.read.2.finished = true
      unfold read
      split
      · exact finished
      · exact finished_seek _ finished
  | peek =>
      show stream.peek.2.finished = true
      unfold peek
      split
      · exact finished
      · exact finished_seek _ finished

/-- Once the end is reached, nothing more is noted. -/
theorem WillNote.issues_afterAll (willNote : stream.WillNote notes)
    (finished : stream.finished = true) (requests : List Request) :
    (stream.afterAll requests).issues = notes := by
  have stillFinished : (stream.afterAll requests).finished = true := by
    induction requests generalizing stream with
    | nil => exact finished
    | cons request requests ih =>
        exact ih (willNote.afterAll [request]) (finished_after request finished)
  exact ((willNote.afterAll requests).at_end stillFinished).1

theorem willNote_ofText (source : String) (symbols : SymbolTable) :
    (ofText source symbols).WillNote (Preprocessed.ofText source symbols).issues := by
  refine ⟨fun _ => ?_, fun finished => ?_, fun looked => ?_⟩
  · rw [Preprocessed.ofText, Preprocessed.ofPieces_eq]
    rfl
  · contradiction
  · contradiction

theorem willNote_drain_ofText (source : String) (symbols : SymbolTable) :
    let drained := ((ofText source symbols).drain []).2
    drained.WillNote (Preprocessed.ofText source symbols).issues ∧
      drained.finished = true := by
  intro drained
  have noted : drained.issues = (Preprocessed.ofText source symbols).issues :=
    (drain_ofText source symbols).2.2
  have drainedEq : drained =
      ((ofText source symbols).passAll (Piece.listOfText source)).finish :=
    congrArg Prod.snd (drain_eq [] rfl)
  have atEnd : drained.finished = true ∧ drained.pieces = [] := by
    rw [drainedEq, TokenStream.finish]
    split
    · exact ⟨by assumption, rfl⟩
    · exact ⟨rfl, rfl⟩
  refine ⟨⟨fun unfinished => ?_, fun _ => ⟨noted, atEnd.2⟩, fun _ => atEnd.1⟩, atEnd.1⟩
  simp [atEnd.1] at unfinished

end TokenStream

/-- The issues of a text that is read to its end are the unmatched directives, the run that
is not terminated and the conditionals that are not closed.  This holds in whatever way the
end is reached, and asking for more adds nothing. -/
theorem issues_at_end (source : String) (symbols : SymbolTable)
    (short : source.utf8ByteSize < UInt32.size) :
    let pieces := Piece.listOfText source
    let start := TokenStream.ofText source symbols
    ∃ runNotes, Piece.LastRunNotes source runNotes ∧
      (∀ line ∈ pieces, ∃ before after, source.toList = before ++ line.text ++ after ∧
        line.span.start.toNat = Text.byteLength before ∧
          line.span.stop.toNat = Text.byteLength (before ++ line.text)) ∧
      let notes := Piece.unmatchedNotes [] pieces ++ runNotes ++
        (unclosedLines pieces).map fun line => ⟨.unclosedConditional, line.span⟩
      (start.drain []).2.issues = notes ∧
        (∀ requests, ((start.drain []).2.afterAll requests).issues = notes) ∧
        ∀ requests, (start.afterAll requests).isAtEnd.1 = true →
          ∀ further, ((start.afterAll requests).peek.2.afterAll further).issues = notes := by
  intro pieces start
  refine ⟨pieces.filterMap Piece.faultNote?, Piece.lastRunNotes_filterMap short, ?_, ?_⟩
  · intro line member
    obtain ⟨before, after, stands⟩ := Piece.exists_standsIn short member
    exact ⟨before, after, stands.source_eq, stands.first_byte, stands.last_byte⟩
  · intro notes
    have notesEq : (Preprocessed.ofText source symbols).issues = notes := by
      have met := Conditions.metIssues_listFrom symbols [] Place.start source.toList
      rw [Preprocessed.ofText, Preprocessed.ofPieces_eq, Conditions.unclosed_eq,
        Conditions.openings_afterAll_initial, List.reverse_reverse, List.map_map]
      rw [← Piece.listOfText_eq] at met
      exact congrArg (· ++ _) met
    obtain ⟨drainedWillNote, finished⟩ := TokenStream.willNote_drain_ofText source symbols
    have willNote := TokenStream.willNote_ofText source symbols
    rw [notesEq] at drainedWillNote willNote
    refine ⟨(drainedWillNote.at_end finished).1, ?_, ?_⟩
    · exact drainedWillNote.issues_afterAll finished
    · intro requests atEnd further
      have reached := willNote.afterAll requests
      exact reached.peek.issues_afterAll (reached.finished_of_isAtEnd atEnd) further

/-- The first `#endif` closes the first `#if` and the second one nothing.  The third stands
in a string that is not terminated, so the second `#if` stays open. -/
theorem issues_at_end_with_open_string :
    let source := "#else\n#if A\n#endif x\n#endif\n#if B\n#else\n'a'' /* #endif"
    source.utf8ByteSize < UInt32.size ∧
      ((TokenStream.ofText source .empty).drain []).2.issues =
        [⟨.unmatchedElse, ⟨0, 5⟩⟩, ⟨.unmatchedEndIf, ⟨21, 27⟩⟩,
          ⟨.unterminatedString, ⟨40, 54⟩⟩, ⟨.unclosedConditional, ⟨28, 33⟩⟩] ∧
      ∀ requests,
        (((TokenStream.ofText source .empty).drain []).2.afterAll requests).issues =
          ((TokenStream.ofText source .empty).drain []).2.issues := by
  intro source
  have short : source.utf8ByteSize < UInt32.size := by decide +kernel
  obtain ⟨_, -, -, noted, stays, -⟩ := issues_at_end source .empty short
  refine ⟨short, ?_, fun requests => ?_⟩
  · decide +kernel
  · rw [stays, noted]

end ObjectIds
