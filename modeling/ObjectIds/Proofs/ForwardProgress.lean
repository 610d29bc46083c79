import ObjectIds.Proofs.LexemeLocations
import ObjectIds.Proofs.ResumedScans

/-!
# Forward progress

Cutting a piece off a text moves the cursor, and so does reading a token or a directive with
the filler before it.  A pass of a scan takes the token that it starts at, also when that is
a keyword whose header is discarded, and with a token that is no keyword it takes everything
else on the line.  So there are no more lexemes than characters, and no more passes than
visible tokens.
-/

namespace ObjectIds

namespace Cursor

variable {cursor next later : Cursor} {piece : Piece}

/-- A cursor that gets to `later` past at least one character. -/
def MovesTo (cursor later : Cursor) : Prop :=
  ∃ passed, passed ≠ [] ∧ cursor.rest = passed ++ later.rest ∧
    later = cursor.advance passed later.rest

theorem MovesTo.trans (first : cursor.MovesTo next) (second : next.MovesTo later) :
    cursor.MovesTo later := by
  obtain ⟨passed, notEmpty, isRest, isNext⟩ := first
  obtain ⟨others, -, isOther, isLater⟩ := second
  refine ⟨passed ++ others, by simp [notEmpty], by rw [isRest, isOther, List.append_assoc], ?_⟩
  rw [isLater, isNext]
  exact advance_advance _ _ _ _ _

theorem movesTo_of_piece? (found : cursor.piece? = some (piece, later)) :
    cursor.MovesTo later := by
  unfold piece? at found
  split at found
  · contradiction
  · rename_i character rest isRest
    obtain ⟨-, rfl⟩ := Prod.mk.inj (Option.some.inj found)
    exact ⟨_, Piece.Cut.first_ne_nil character rest,
      isRest.trans (Piece.Cut.first_append character rest).symm, rfl⟩

/-- Cutting pieces comes to an end. -/
theorem wellFounded_piece? :
    WellFounded fun later cursor : Cursor => ∃ piece, cursor.piece? = some (piece, later) :=
  Subrelation.wf (fun ⟨_, found⟩ => length_rest_lt_of_piece? found)
    (measure fun cursor : Cursor => cursor.rest.length).wf

/-- Reads the next token or directive, and the filler before it. -/
def lexeme? (cursor : Cursor) : Option (Piece × Cursor) :=
  match isNext : cursor.piece? with
  | none => none
  | some (piece, later) =>
      have := length_rest_lt_of_piece? isNext
      if piece.isLexeme then some (piece, later) else later.lexeme?
termination_by cursor.rest.length

theorem movesTo_of_lexeme? (found : cursor.lexeme? = some (piece, later)) :
    cursor.MovesTo later := by
  fun_induction lexeme? cursor with
  | case1 cursor atEnd => contradiction
  | case2 cursor lexeme after isNext shorter isLexeme =>
      obtain ⟨-, rfl⟩ := Prod.mk.inj (Option.some.inj found)
      exact movesTo_of_piece? isNext
  | case3 cursor filler after isNext shorter noLexeme ih =>
      exact (movesTo_of_piece? isNext).trans (ih found)

/-- Reads the tokens and directives still to come. -/
def lexemes (cursor : Cursor) : List Piece :=
  match isNext : cursor.lexeme? with
  | none => []
  | some (lexeme, later) =>
      have : later.rest.length < cursor.rest.length := by
        obtain ⟨passed, notEmpty, isRest, -⟩ := movesTo_of_lexeme? isNext
        rw [isRest, List.length_append]
        exact Nat.lt_add_of_pos_left (List.length_pos_iff.2 notEmpty)
      lexeme :: later.lexemes
termination_by cursor.rest.length

/-- The lexemes still to come are the next one and those after it. -/
theorem filter_isLexeme_pieces (cursor : Cursor) :
    cursor.pieces.filter Piece.isLexeme =
      match cursor.lexeme? with
      | none => []
      | some (lexeme, later) => lexeme :: later.pieces.filter Piece.isLexeme := by
  fun_induction lexeme? cursor with
  | case1 cursor atEnd => simp [pieces_eq cursor, atEnd]
  | case2 cursor lexeme after isNext shorter isLexeme =>
      simp [pieces_eq cursor, isNext, isLexeme]
  | case3 cursor filler after isNext shorter noLexeme ih =>
      rw [pieces_eq cursor, isNext]
      simpa [noLexeme] using ih

theorem lexemes_eq (cursor : Cursor) :
    cursor.lexemes = cursor.pieces.filter Piece.isLexeme := by
  fun_induction lexemes cursor with
  | case1 cursor atEnd => rw [filter_isLexeme_pieces, atEnd]
  | case2 cursor lexeme later isNext shorter ih => rw [filter_isLexeme_pieces, isNext, ih]

end Cursor

namespace Piece

/-- A text has at most as many pieces as characters. -/
theorem length_listFrom_le (place : Place) (text : List Char) :
    (listFrom place text).length ≤ text.length := by
  induction place, text using cutInduction with
  | nil place => simp
  | piece place shape text rest fits ih =>
      have positive := List.length_pos_iff.2 fits.ne_nil
      rw [listFrom_append place fits, List.length_cons, List.length_append]
      omega

/-- Pieces that are the given tokens, one by one. -/
def Show (pieces : List Piece) (tokens : List Token) : Prop :=
  pieces.map token? = tokens.map some

namespace Show

variable {pieces : List Piece} {tokens left : List Token} {token : Token}

theorem cons {piece : Piece} (isToken : piece.token? = some token)
    (shows : Show pieces tokens) : Show (piece :: pieces) (token :: tokens) := by
  simpa [Show, isToken] using shows

theorem exists_cons (shows : Show pieces (token :: tokens)) :
    ∃ piece others, pieces = piece :: others ∧ piece.token? = some token ∧
      Show others tokens := by
  obtain ⟨piece, others, rfl, isToken, areTokens⟩ := List.map_eq_cons_iff.1 shows
  exact ⟨piece, others, rfl, isToken, areTokens⟩

theorem exists_suffix (shows : Show pieces tokens) (isSuffix : left <:+ tokens) :
    ∃ later, later <:+ pieces ∧ Show later left := by
  obtain ⟨taken, rfl⟩ := isSuffix
  rw [Show, List.map_append] at shows
  obtain ⟨earlier, later, rfl, -, areLeft⟩ := List.map_eq_append_iff.1 shows
  exact ⟨later, List.suffix_append earlier later, areLeft⟩

end Show

/-- The tokens that can be seen are pieces. -/
theorem exists_show_visibleTokens (conditions : Conditions) (pieces : List Piece) :
    ∃ shown, shown.Sublist pieces ∧ Show shown (conditions.visibleTokens pieces) := by
  induction pieces generalizing conditions with
  | nil => exact ⟨[], .slnil, rfl⟩
  | cons piece pieces ih =>
      obtain ⟨shown, isPart, shows⟩ := ih (conditions.after piece)
      rw [Conditions.visibleTokens_cons]
      cases visible : conditions.visible? piece with
      | none => exact ⟨shown, isPart.cons piece, shows⟩
      | some token =>
          have isToken : piece.token? = some token := by
            unfold Conditions.visible? at visible
            split at visible
            · exact visible
            · contradiction
          exact ⟨piece :: shown, isPart.cons_cons piece, shows.cons isToken⟩

/-- What is left after the tokens on a line starts on later lines. -/
theorem line_lt_of_mem_afterLine {piece : Piece} {others left : List Piece}
    {token : Token} {rest : List Token} (isToken : piece.token? = some token)
    (ordered : (piece :: others).Pairwise fun first second => first.start.Before second.start)
    (isSuffix : left <:+ others)
    (shows : Show left (Declaration.afterLine token.position.line rest)) :
    ∀ other ∈ left, piece.start.line < other.start.line := by
  have stops := List.head?_dropWhile_not (·.position.line == token.position.line) rest
  rw [Declaration.afterLine] at shows
  generalize rest.dropWhile (·.position.line == token.position.line) = after at shows stops
  cases after with
  | nil => simp [List.map_eq_nil_iff.1 shows]
  | cons nextToken later =>
      -- Its 32-bit line differs, so its line differs, and lines do not go back.
      obtain ⟨next, last, rfl, isNext, -⟩ := shows.exists_cons
      have otherLine : next.start.line ≠ piece.start.line := by
        intro sameLine
        simp [position_of_token? isNext, position_of_token? isToken, Place.position,
          sameLine] at stops
      obtain ⟨isFirst, orderedOthers⟩ := List.pairwise_cons.1 ordered
      have nextLine : piece.start.line < next.start.line := by
        have isBefore := isFirst next (isSuffix.subset List.mem_cons_self)
        unfold Place.Before at isBefore
        omega
      have afterNext := (List.pairwise_cons.1 (orderedOthers.sublist isSuffix.sublist)).1
      rw [List.forall_mem_cons]
      refine ⟨nextLine, fun other member => ?_⟩
      have isBefore := afterNext other member
      unfold Place.Before at isBefore
      omega

end Piece

namespace TokenStream

/-- The declaration that an attempt finds. -/
def Attempt.declaration? : Attempt → Option Declaration
  | .found declaration => some declaration
  | .atEnd | .discarded _ | .skipped _ => none

/-- Scanning comes to an end. -/
theorem wellFounded_attempt :
    WellFounded fun later stream : TokenStream =>
      ∃ attempt, attempt ≠ .atEnd ∧ stream.attempt = (attempt, later) :=
  Subrelation.wf (fun ⟨_, isThere, isAttempt⟩ => toCome_lt_of_attempt isAttempt isThere)
    (measure toCome).wf

/-- The passes of a scan, as the streams that they start from. -/
def passes (stream : TokenStream) : List TokenStream :=
  match isAttempt : stream.attempt with
  | (attempt, later) =>
      if isThere : attempt = .atEnd then []
      else
        have := toCome_lt_of_attempt isAttempt isThere
        stream :: later.passes
termination_by stream.toCome

theorem passes_eq (stream : TokenStream) :
    stream.passes =
      if stream.attempt.1 = .atEnd then [] else stream :: stream.attempt.2.passes := by
  rw [passes]
  split
  rename_i isAttempt
  simp only [isAttempt]
  rfl

/-- The declarations that are found in passes. -/
def found (passes : List TokenStream) : List Declaration :=
  passes.filterMap fun pass => pass.attempt.1.declaration?

/-- A declaration is taken by the first pass that finds one. -/
theorem found_passes_eq (stream : TokenStream) :
    found stream.passes =
      match stream.nextDeclaration with
      | (none, _) => []
      | (some declaration, later) => declaration :: found later.passes := by
  fun_induction nextDeclaration stream with
  | case1 stream later isAttempt => simp [passes_eq stream, isAttempt, found]
  | case2 stream declaration later isAttempt =>
      simp [passes_eq stream, isAttempt, found, Attempt.declaration?]
  | case3 stream kind later isAttempt fewer ih =>
      rw [← ih, passes_eq, isAttempt]
      simp [found, isAttempt, Attempt.declaration?]
  | case4 stream line later isAttempt fewer ih =>
      rw [← ih, passes_eq, isAttempt]
      simp [found, isAttempt, Attempt.declaration?]

theorem declarations_eq_found (stream : TokenStream) :
    stream.declarations.1 = found stream.passes := by
  fun_induction declarations stream with
  | case1 stream later isNext => rw [found_passes_eq, isNext]
  | case2 stream declaration later isNext fewer others last areOthers ih =>
      simp only [found_passes_eq stream, isNext, ← ih, areOthers]

namespace StandsFor

variable {stream : TokenStream} {tokens : List Token} {symbols : SymbolTable}
  {issues : List Issue}

/-- A pass takes the token that it starts at. -/
theorem pass (stands : stream.StandsFor ⟨tokens, symbols, issues⟩)
    (isThere : stream.attempt.1 ≠ .atEnd) :
    ∃ token rest left, tokens = token :: rest ∧ left <:+ rest ∧
      stream.attempt.2.StandsFor ⟨left, symbols, issues⟩ ∧
      (∀ kind, ObjectKind.ofToken? token = some kind → left = (Header.read kind token rest).2) ∧
      (ObjectKind.ofToken? token = none →
        left = Declaration.afterLine token.position.line rest) := by
  cases tokens with
  | nil =>
      obtain ⟨later, isAttempt, -⟩ := stands.attempt_nil
      exact absurd (congrArg Prod.fst isAttempt) isThere
  | cons token rest =>
      cases isKind : ObjectKind.ofToken? token with
      | some kind =>
          obtain ⟨later, isAttempt, after⟩ := stands.attempt_of_keyword isKind
          rw [isAttempt]
          refine ⟨token, rest, _, rfl, Header.read_suffix kind token rest, after,
            fun other isOther => ?_, fun noKind => ?_⟩
          · rw [Option.some.inj (isKind.symm.trans isOther)]
          · cases isKind.symm.trans noKind
      | none =>
          obtain ⟨later, isAttempt, after⟩ := stands.attempt_of_noise isKind
          rw [isAttempt]
          refine ⟨token, rest, _, rfl, Declaration.afterLine_suffix _ rest, after,
            fun other isOther => ?_, fun _ => rfl⟩
          cases isKind.symm.trans isOther

/-- There are no more passes than tokens, and each starts at one of them. -/
theorem passes (stands : stream.StandsFor ⟨tokens, symbols, issues⟩) :
    stream.passes.length ≤ tokens.length ∧
      ∀ pass ∈ stream.passes, pass.attempt.1 ≠ .atEnd ∧
        ∃ left, left <:+ tokens ∧ pass.StandsFor ⟨left, symbols, issues⟩ := by
  fun_induction TokenStream.passes stream generalizing tokens with
  | case1 stream later isAttempt => simp
  | case2 stream attempt later isAttempt isThere fewer ih =>
      have isPass : stream.attempt.1 ≠ .atEnd := by rwa [isAttempt]
      obtain ⟨token, rest, left, rfl, isSuffix, after, -⟩ := stands.pass isPass
      rw [isAttempt] at after
      obtain ⟨fewerPasses, others⟩ := ih after
      have fewerTokens := isSuffix.length_le
      refine ⟨by simp only [List.length_cons]; omega, List.forall_mem_cons.2 ⟨?_, ?_⟩⟩
      · exact ⟨isPass, _, List.suffix_refl _, stands⟩
      · intro pass member
        obtain ⟨isOther, later, isLater, standsLater⟩ := others pass member
        exact ⟨isOther, later, isLater.trans (isSuffix.trans (List.suffix_cons token rest)),
          standsLater⟩

end StandsFor

/-- A pass that starts at a visible piece, of which `others` come after it, and leaves some of
those.  At a keyword it takes a header, and anywhere else what starts on the line. -/
structure PassesFrom (pass : TokenStream) (piece : Piece) (others left : List Piece)
    (token : Token) : Prop where
  token_eq : piece.token? = some token
  before : Piece.Show (piece :: others) pass.remaining
  left_suffix : left <:+ others
  after : Piece.Show left pass.attempt.2.remaining
  header : ∀ kind, ObjectKind.ofToken? token = some kind →
    pass.attempt.2.remaining = (Header.read kind token pass.remaining.tail).2
  line : ObjectKind.ofToken? token = none → ∀ other ∈ left, piece.start.line < other.start.line

/-- A pass starts at a piece if its tokens are pieces. -/
theorem StandsFor.exists_passesFrom {pass : TokenStream} {tokens : List Token}
    {symbols : SymbolTable} {issues : List Issue} {shown : List Piece}
    (stands : pass.StandsFor ⟨tokens, symbols, issues⟩) (isThere : pass.attempt.1 ≠ .atEnd)
    (shows : Piece.Show shown tokens)
    (ordered : shown.Pairwise fun first second => first.start.Before second.start) :
    ∃ piece others left token, shown = piece :: others ∧
      pass.PassesFrom piece others left token := by
  obtain ⟨token, rest, leftTokens, rfl, isSuffix, after, header, line⟩ := stands.pass isThere
  obtain ⟨piece, others, rfl, isToken, areOthers⟩ := shows.exists_cons
  obtain ⟨left, leftSuffix, areLeft⟩ := areOthers.exists_suffix isSuffix
  refine ⟨piece, others, left, token, rfl, isToken, ?_, leftSuffix, ?_, ?_, ?_⟩
  · rwa [stands.remaining_eq]
  · rwa [after.remaining_eq]
  · rw [after.remaining_eq, stands.remaining_eq]
    exact header
  · intro noKind
    rw [line noKind] at areLeft
    exact Piece.line_lt_of_mem_afterLine isToken ordered leftSuffix areLeft

end TokenStream

/-- Each step of the lexer moves the cursor, so it ends and finds no more lexemes than there
are characters.  Each pass of a scan takes the visible token that it starts at, and the header
or the rest of the line with it, so the scan ends, after no more passes than there are visible
tokens. -/
theorem scan_progress (source : String) (symbols : SymbolTable) :
    let cursor := Cursor.ofText source
    let stream := TokenStream.ofText source symbols
    let visible := (stream.drain []).1
    (∀ (cursor later : Cursor) (piece : Piece), cursor.piece? = some (piece, later) →
        cursor.MovesTo later) ∧
      (∀ (cursor later : Cursor) (lexeme : Piece), cursor.lexeme? = some (lexeme, later) →
        cursor.MovesTo later) ∧
      (WellFounded fun later cursor : Cursor =>
        ∃ piece, cursor.piece? = some (piece, later)) ∧
      (WellFounded fun later stream : TokenStream =>
        ∃ attempt, attempt ≠ .atEnd ∧ stream.attempt = (attempt, later)) ∧
      cursor.lexemes = (Piece.listOfText source).filter Piece.isLexeme ∧
      cursor.lexemes.length ≤ source.length ∧
      TokenStream.found stream.passes = stream.declarations.1 ∧
      stream.passes.length ≤ visible.length ∧
      ∃ shown, shown.Sublist (Piece.listOfText source) ∧ Piece.Show shown visible ∧
        ∀ pass ∈ stream.passes, ∃ piece others left token, piece :: others <:+ shown ∧
          pass.PassesFrom piece others left token := by
  intro cursor stream visible
  have stands : stream.StandsFor (Preprocessed.ofText source symbols) :=
    TokenStream.standsFor_ofText source symbols
  have isVisible : visible = (Preprocessed.ofText source symbols).tokens := by
    rw [← stands.remaining_eq]
    exact (stands.willNote.drain []).1
  obtain ⟨fewerPasses, eachPass⟩ := stands.passes
  refine ⟨fun _ _ _ => Cursor.movesTo_of_piece?, fun _ _ _ => Cursor.movesTo_of_lexeme?,
    Cursor.wellFounded_piece?, TokenStream.wellFounded_attempt, cursor.lexemes_eq, ?_,
    (TokenStream.declarations_eq_found stream).symm, ?_, ?_⟩
  · rw [Cursor.lexemes_eq]
    exact Nat.le_trans (List.length_filter_le _ _) (Piece.length_listFrom_le _ _)
  · rwa [isVisible]
  · obtain ⟨shown, isPart, shows⟩ := Piece.exists_show_visibleTokens
      (Conditions.initial symbols) (Piece.listOfText source)
    have areVisible : Piece.Show shown visible := by
      rw [isVisible, ← stands.remaining_eq]
      exact shows
    refine ⟨shown, isPart, areVisible, fun pass member => ?_⟩
    obtain ⟨isThere, tokens, isSuffix, standsThere⟩ := eachPass pass member
    rw [isVisible] at areVisible
    obtain ⟨pieces, isLater, showsThere⟩ := areVisible.exists_suffix isSuffix
    have ordered := (Piece.pairwise_start_listFrom _ _).sublist
      (isLater.sublist.trans isPart)
    obtain ⟨piece, others, left, token, rfl, passes⟩ :=
      standsThere.exists_passesFrom isThere showsThere ordered
    exact ⟨piece, others, left, token, isLater, passes⟩

/-- A header that is discarded, the rest of its line, a line without a keyword, and a
declaration. -/
theorem scan_progress_past_discarded_header :
    let stream := TokenStream.ofText "table \x7b \x7d\nx y\ncodeunit 2 A \x7b \x7d" .empty
    stream.passes.map (fun pass => pass.attempt.2.remaining.map Token.text) =
        [["\x7b", "\x7d", "x", "y", "codeunit", "2", "A", "\x7b", "\x7d"],
          ["x", "y", "codeunit", "2", "A", "\x7b", "\x7d"],
          ["codeunit", "2", "A", "\x7b", "\x7d"], []] ∧
      stream.passes.length ≤ (stream.drain []).1.length := by
  intro stream
  obtain ⟨-, -, -, -, -, -, -, fewerPasses, -⟩ :=
    scan_progress "table \x7b \x7d\nx y\ncodeunit 2 A \x7b \x7d" .empty
  exact ⟨by decide +kernel, fewerPasses⟩

end ObjectIds
