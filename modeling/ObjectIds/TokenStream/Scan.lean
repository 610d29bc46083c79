import ObjectIds.Scan
import ObjectIds.TokenStream

/-!
# Scanning a token stream

A token stream can be scanned without having all its tokens: a scan that takes one
declaration reads no further than the declaration goes, and one token beyond it at most.
It goes on in passes.  A pass takes a header or skips a line, and it takes at least the
token that it starts with.

Nothing is lost between two declarations, so that a scan can be resumed where it stopped.
-/

namespace ObjectIds

namespace TokenStream

/-- A bound on the number of tokens to come, in which an end that has been looked at does
not count. -/
def toCome (stream : TokenStream) : Nat :=
  stream.pieces.length + if stream.lookahead.join.isSome then 1 else 0

/-- Seeking passes the piece of the token that it finds. -/
theorem length_pieces_seek_le (stream : TokenStream) (pieces : List Piece) :
    (stream.seek pieces).1.toList.length + (stream.seek pieces).2.pieces.length ≤
      pieces.length := by
  induction pieces generalizing stream with
  | nil =>
      have noPieces : stream.finish.pieces = [] := by
        unfold finish
        split <;> rfl
      simp [seek, noPieces]
  | cons piece pieces ih =>
      unfold seek
      split
      · simp [pass, Nat.add_comm]
      · exact Nat.le_succ_of_le (ih _)

theorem lookahead_seek (stream : TokenStream) (pieces : List Piece) :
    (stream.seek pieces).2.lookahead = stream.lookahead := by
  induction pieces generalizing stream with
  | nil =>
      unfold seek finish
      split <;> rfl
  | cons piece pieces ih =>
      unfold seek
      split
      · rfl
      · exact ih _

/-- Taking a token leaves fewer to come. -/
theorem toCome_read_le (stream : TokenStream) :
    stream.read.1.toList.length + stream.read.2.toCome ≤ stream.toCome := by
  unfold read
  split
  · rename_i token looked
    cases token <;> simp [toCome, looked, Nat.add_comm]
  · rename_i empty
    have shorter := stream.length_pieces_seek_le stream.pieces
    simpa [toCome, lookahead_seek, empty] using shorter

theorem toCome_le_of_read {stream later : TokenStream} {next : Option Token}
    (isNext : stream.read = (next, later)) : later.toCome ≤ stream.toCome := by
  have taken := stream.toCome_read_le
  rw [isNext] at taken
  exact Nat.le_trans (Nat.le_add_left _ _) taken

theorem toCome_lt_of_read {stream later : TokenStream} {token : Token}
    (isNext : stream.read = (some token, later)) : later.toCome < stream.toCome := by
  have taken := stream.toCome_read_le
  rwa [isNext, Nat.add_comm] at taken

/-- Looking at a token leaves it to come. -/
theorem toCome_peek_le (stream : TokenStream) : stream.peek.2.toCome ≤ stream.toCome := by
  unfold peek
  split
  · exact Nat.le_refl _
  · rename_i empty
    have shorter := stream.length_pieces_seek_le stream.pieces
    rcases isFound : stream.seek stream.pieces with ⟨next, later⟩
    rw [isFound] at shorter
    cases next <;> simpa [toCome, empty, Nat.add_comm] using shorter

/-- Takes the next token if it satisfies a test. -/
def readIf (stream : TokenStream) (test : Token → Bool) : Option Token × TokenStream :=
  if stream.peek.1.any test then stream.peek.2.read else (none, stream.peek.2)

section ReadIf

variable {stream later : TokenStream} {test : Token → Bool}

theorem toCome_le_of_readIf {next : Option Token}
    (isNext : stream.readIf test = (next, later)) : later.toCome ≤ stream.toCome := by
  have looked := stream.toCome_peek_le
  unfold readIf at isNext
  split at isNext
  · exact Nat.le_trans (toCome_le_of_read isNext) looked
  · obtain rfl : stream.peek.2 = later := congrArg Prod.snd isNext
    exact looked

theorem toCome_lt_of_readIf {token : Token}
    (isNext : stream.readIf test = (some token, later)) : later.toCome < stream.toCome := by
  have looked := stream.toCome_peek_le
  unfold readIf at isNext
  split at isNext
  · exact Nat.lt_of_lt_of_le (toCome_lt_of_read isNext) looked
  · cases congrArg Prod.fst isNext

theorem readIf_of_lookahead {token : Token} (looked : stream.lookahead = some (some token))
    (fits : test token = true) :
    stream.readIf test = (some token, { stream with lookahead := none }) := by
  simp [readIf, peek, read, looked, fits]

end ReadIf

/-- How reading a part of a header went: whether the part was there, what the declaration
says by now, and the stream after it. -/
structure Reading where
  found : Bool
  declaration : Declaration
  later : TokenStream
deriving DecidableEq, Repr

/-- Reads the id of an object. -/
def readId (declaration : Declaration) (stream : TokenStream) : Reading :=
  match stream.readIf fun token => (Header.objectId? token).isSome with
  | (some token, later) =>
      ⟨true,
        { declaration with id := Header.objectId? token, idSpan := some token.span },
        later⟩
  | (none, later) => ⟨false, declaration, later⟩

/-- Reads the name of an object. -/
def readName (declaration : Declaration) (stream : TokenStream) : Reading :=
  match stream.readIf Token.isIdentifier with
  | (some token, later) =>
      ⟨true, { declaration with name := some token.value, nameSpan := some token.span },
        later⟩
  | (none, later) => ⟨false, declaration, later⟩

/-- A list of names: whether it ended after a name, the names, and the stream after
them. -/
structure Names where
  found : Bool
  names : List String
  later : TokenStream
deriving DecidableEq, Repr

/-- Reads names with commas between them. -/
def readNames (stream : TokenStream) : Names :=
  match isName : stream.readIf Token.isIdentifier with
  | (none, later) => ⟨false, [], later⟩
  | (some name, afterName) =>
      match isComma : afterName.readIf (·.isSymbol ",") with
      | (none, later) => ⟨true, [name.value], later⟩
      | (some _, afterComma) =>
          have : afterComma.toCome < stream.toCome :=
            Nat.lt_trans (toCome_lt_of_readIf isComma) (toCome_lt_of_readIf isName)
          let others := readNames afterComma
          ⟨others.found, name.value :: others.names, others.later⟩
termination_by stream.toCome

/-- Reads the interfaces that an object implements, if it says so. -/
def readInterfaces (declaration : Declaration) (stream : TokenStream) : Reading :=
  match stream.readIf (·.isKeyword "implements") with
  | (some _, later) =>
      let list := later.readNames
      ⟨list.found, { declaration with interfaces := list.names }, list.later⟩
  | (none, later) => ⟨true, declaration, later⟩

/-- Reads the object that an object extends or customizes. -/
def readTarget (keyword : String) (declaration : Declaration) (stream : TokenStream) :
    Reading :=
  match stream.readIf (·.isKeyword keyword) with
  | (some _, afterKeyword) =>
      match afterKeyword.readIf Token.isIdentifier with
      | (some name, later) => ⟨true, { declaration with target := some name.value }, later⟩
      | (none, later) => ⟨false, declaration, later⟩
  | (none, later) => ⟨false, declaration, later⟩

/-- Skips the tokens up to the brace that closes `depth` more braces than are opened in
between and one more.  There may be no such brace. -/
def skipToClosing (depth : Nat) (stream : TokenStream) : Bool × TokenStream :=
  match isNext : stream.read with
  | (none, later) => (false, later)
  | (some token, later) =>
      have : later.toCome < stream.toCome := toCome_lt_of_read isNext
      if token.isSymbol "\x7b" then later.skipToClosing (depth + 1)
      else if token.isSymbol "\x7d" then
        match depth with
        | 0 => (true, later)
        | depth + 1 => later.skipToClosing depth
      else later.skipToClosing depth
termination_by stream.toCome

/-- Skips the body of an object. -/
def skipBody (stream : TokenStream) : Bool × TokenStream :=
  match stream.readIf (·.isSymbol "\x7b") with
  | (some _, later) => later.skipToClosing 0
  | (none, later) => (false, later)

/-- Reads a part of a header. -/
def readPart (part : HeaderPart) (declaration : Declaration) (stream : TokenStream) :
    Reading :=
  match part with
  | .id => readId declaration stream
  | .name => readName declaration stream
  | .interfaces => readInterfaces declaration stream
  | .target keyword => readTarget keyword declaration stream
  | .body =>
      let (found, later) := stream.skipBody
      ⟨found, declaration, later⟩

/-- Reads parts of a header, up to the first that is not there. -/
def readParts (declaration : Declaration) (stream : TokenStream) :
    List HeaderPart → Declaration × TokenStream
  | [] => (declaration, stream)
  | part :: parts =>
      let reading := readPart part declaration stream
      if reading.found then readParts reading.declaration reading.later parts
      else (reading.declaration, reading.later)

/-- Reads a header of a kind, from after its keyword. -/
def readHeader (kind : ObjectKind) (keyword : Token) (stream : TokenStream) :
    Declaration × TokenStream :=
  readParts (Declaration.started kind keyword.position) stream kind.parts

/-- Skips the tokens that start on a line. -/
def skipLine (line : UInt32) (stream : TokenStream) : TokenStream :=
  match isNext : stream.readIf (·.position.line == line) with
  | (none, later) => later
  | (some _, later) =>
      have : later.toCome < stream.toCome := toCome_lt_of_readIf isNext
      later.skipLine line
termination_by stream.toCome

section Readers

variable (declaration : Declaration) (stream : TokenStream)

theorem toCome_readId_le : (readId declaration stream).later.toCome ≤ stream.toCome := by
  unfold readId
  split <;> rename_i isNext <;> exact toCome_le_of_readIf isNext

theorem toCome_readName_le : (readName declaration stream).later.toCome ≤ stream.toCome := by
  unfold readName
  split <;> rename_i isNext <;> exact toCome_le_of_readIf isNext

theorem toCome_readNames_le : stream.readNames.later.toCome ≤ stream.toCome := by
  fun_induction readNames stream with
  | case1 stream later isName => exact toCome_le_of_readIf isName
  | case2 stream name afterName isName later isComma =>
      exact Nat.le_trans (toCome_le_of_readIf isComma) (toCome_le_of_readIf isName)
  | case3 stream name afterName isName comma afterComma isComma fewer others ih =>
      exact Nat.le_trans ih (Nat.le_of_lt fewer)

theorem toCome_readInterfaces_le :
    (readInterfaces declaration stream).later.toCome ≤ stream.toCome := by
  unfold readInterfaces
  split
  · rename_i isNext
    exact Nat.le_trans (toCome_readNames_le _) (toCome_le_of_readIf isNext)
  · rename_i isNext
    exact toCome_le_of_readIf isNext

theorem toCome_readTarget_le (keyword : String) :
    (readTarget keyword declaration stream).later.toCome ≤ stream.toCome := by
  unfold readTarget
  split
  · rename_i isKeyword
    split <;> rename_i isName <;>
      exact Nat.le_trans (toCome_le_of_readIf isName) (toCome_le_of_readIf isKeyword)
  · rename_i isKeyword
    exact toCome_le_of_readIf isKeyword

theorem toCome_skipToClosing_le (depth : Nat) :
    (stream.skipToClosing depth).2.toCome ≤ stream.toCome := by
  fun_induction skipToClosing depth stream with
  | case1 depth stream later isNext => exact toCome_le_of_read isNext
  | case2 depth stream token later isNext fewer opens ih =>
      exact Nat.le_trans ih (Nat.le_of_lt fewer)
  | case3 stream token later isNext fewer noOpening closes => exact Nat.le_of_lt fewer
  | case4 stream token later isNext fewer noOpening closes depth ih =>
      exact Nat.le_trans ih (Nat.le_of_lt fewer)
  | case5 depth stream token later isNext fewer noOpening noClosing ih =>
      exact Nat.le_trans ih (Nat.le_of_lt fewer)

theorem toCome_skipBody_le : stream.skipBody.2.toCome ≤ stream.toCome := by
  unfold skipBody
  split
  · rename_i isNext
    exact Nat.le_trans (toCome_skipToClosing_le _ 0) (toCome_le_of_readIf isNext)
  · rename_i isNext
    exact toCome_le_of_readIf isNext

theorem toCome_readPart_le (part : HeaderPart) :
    (readPart part declaration stream).later.toCome ≤ stream.toCome := by
  cases part with
  | id => exact toCome_readId_le declaration stream
  | name => exact toCome_readName_le declaration stream
  | interfaces => exact toCome_readInterfaces_le declaration stream
  | target keyword => exact toCome_readTarget_le declaration stream keyword
  | body => exact toCome_skipBody_le stream

theorem toCome_readParts_le (parts : List HeaderPart) :
    (readParts declaration stream parts).2.toCome ≤ stream.toCome := by
  induction parts generalizing declaration stream with
  | nil => exact Nat.le_refl _
  | cons part parts ih =>
      simp only [readParts]
      split
      · exact Nat.le_trans (ih _ _) (toCome_readPart_le declaration stream part)
      · exact toCome_readPart_le declaration stream part

theorem toCome_skipLine_le (line : UInt32) :
    (stream.skipLine line).toCome ≤ stream.toCome := by
  fun_induction skipLine line stream with
  | case1 stream later isNext => exact toCome_le_of_readIf isNext
  | case2 stream token later isNext fewer ih => exact Nat.le_trans ih (Nat.le_of_lt fewer)

end Readers

theorem toCome_skipLine_lt {stream : TokenStream} {token : Token}
    (looked : stream.lookahead = some (some token)) :
    (stream.skipLine token.position.line).toCome < stream.toCome := by
  have isTaken := @readIf_of_lookahead stream (·.position.line == token.position.line) token
    looked (beq_self_eq_true _)
  rw [skipLine]
  split
  · rename_i isNext
    cases isTaken.symm.trans isNext
  · rename_i isNext
    exact Nat.lt_of_le_of_lt (toCome_skipLine_le _ _) (toCome_lt_of_readIf isNext)

/-- What an attempt to find a declaration comes to. -/
inductive Attempt where
  /-- No token is left. -/
  | atEnd
  /-- A header with all that its kind cannot do without. -/
  | found (declaration : Declaration)
  /-- A header that breaks off before that. -/
  | discarded (kind : ObjectKind)
  /-- A line that does not go on with a keyword. -/
  | skipped (line : UInt32)
deriving DecidableEq, Repr

/-- Takes a header if the next token is the keyword of a kind, and otherwise the tokens
that start on the line of the next one. -/
def attempt (stream : TokenStream) : Attempt × TokenStream :=
  match stream.peek with
  | (none, later) => (.atEnd, later)
  | (some token, later) =>
      match ObjectKind.ofToken? token with
      | some kind =>
          let (declaration, after) := readHeader kind token later.read.2
          (if declaration.isComplete kind then .found declaration else .discarded kind, after)
      | none => (.skipped token.position.line, later.skipLine token.position.line)

theorem lookahead_of_peek {stream later : TokenStream} {next : Option Token}
    (looked : stream.peek = (next, later)) : later.lookahead = some next := by
  unfold peek at looked
  split at looked
  · obtain ⟨rfl, rfl⟩ := Prod.mk.inj looked
    assumption
  · obtain ⟨rfl, rfl⟩ := Prod.mk.inj looked
    rfl

/-- An attempt takes at least one token unless none is left. -/
theorem toCome_lt_of_attempt {stream later : TokenStream} {attempt : Attempt}
    (isAttempt : stream.attempt = (attempt, later)) (isThere : attempt ≠ .atEnd) :
    later.toCome < stream.toCome := by
  have atMost := stream.toCome_peek_le
  unfold TokenStream.attempt at isAttempt
  split at isAttempt
  · exact (isThere (congrArg Prod.fst isAttempt).symm).elim
  · rename_i token peeked isNext
    rw [isNext] at atMost
    have looked := lookahead_of_peek isNext
    split at isAttempt
    · rename_i kind isKind
      obtain rfl : (readHeader kind token peeked.read.2).2 = later := congrArg Prod.snd isAttempt
      have taken : peeked.read = (some token, { peeked with lookahead := none }) := by
        simp [read, looked]
      rw [taken]
      exact Nat.lt_of_le_of_lt (toCome_readParts_le _ _ _)
        (Nat.lt_of_lt_of_le (toCome_lt_of_read taken) atMost)
    · obtain rfl : peeked.skipLine token.position.line = later := congrArg Prod.snd isAttempt
      exact Nat.lt_of_lt_of_le (toCome_skipLine_lt looked) atMost

/-- Takes the next declaration. -/
def nextDeclaration (stream : TokenStream) : Option Declaration × TokenStream :=
  match isAttempt : stream.attempt with
  | (.atEnd, later) => (none, later)
  | (.found declaration, later) => (some declaration, later)
  | (.discarded _, later) =>
      have : later.toCome < stream.toCome := toCome_lt_of_attempt isAttempt nofun
      later.nextDeclaration
  | (.skipped _, later) =>
      have : later.toCome < stream.toCome := toCome_lt_of_attempt isAttempt nofun
      later.nextDeclaration
termination_by stream.toCome

/-- A declaration takes at least one token. -/
theorem toCome_lt_of_nextDeclaration {stream later : TokenStream} {declaration : Declaration}
    (isNext : stream.nextDeclaration = (some declaration, later)) :
    later.toCome < stream.toCome := by
  fun_induction nextDeclaration stream with
  | case1 stream after isAttempt => cases isNext
  | case2 stream found after isAttempt =>
      obtain ⟨-, rfl⟩ := Prod.mk.inj isNext
      exact toCome_lt_of_attempt isAttempt nofun
  | case3 stream kind after isAttempt fewer ih => exact Nat.lt_trans (ih isNext) fewer
  | case4 stream line after isAttempt fewer ih => exact Nat.lt_trans (ih isNext) fewer

/-- Takes all declarations that are left. -/
def declarations (stream : TokenStream) : List Declaration × TokenStream :=
  match isNext : stream.nextDeclaration with
  | (none, later) => ([], later)
  | (some declaration, later) =>
      have : later.toCome < stream.toCome := toCome_lt_of_nextDeclaration isNext
      let (others, last) := later.declarations
      (declaration :: others, last)
termination_by stream.toCome

/-- What a scan of the rest of the text finds. -/
def scan (stream : TokenStream) : Scan :=
  let (declarations, last) := stream.declarations
  ⟨declarations, last.symbols, last.issues⟩

/-- Asks so many times for the next declaration. -/
def takeDeclarations (stream : TokenStream) : Nat → List (Option Declaration) × TokenStream
  | 0 => ([], stream)
  | count + 1 =>
      let (declaration, later) := stream.nextDeclaration
      let (others, last) := later.takeDeclarations count
      (declaration :: others, last)

end TokenStream

end ObjectIds
