import ObjectIds.Preprocessed

/-!
# Reading tokens one at a time

A token stream reads no further into its text than it is asked to.  It can look at the
next token without taking it; what it has read then shows in its symbols, issues and
line, but not in the tokens that it gives.  The issues of conditionals that are still
open are noted once, when the end is reached for the first time.
-/

namespace ObjectIds

/-- A reader of visible tokens: the pieces to come, the conditions and the place that
it has reached, the issues noted so far, the token or end that it has looked at, and
whether it has reached the end. -/
structure TokenStream where
  pieces : List Piece
  conditions : Conditions
  reached : Place
  issues : List Issue
  lookahead : Option (Option Token)
  finished : Bool
deriving DecidableEq, Repr

namespace TokenStream

/-- A stream at the start of a text. -/
def ofText (source : String) (symbols : SymbolTable) : TokenStream :=
  ⟨Piece.listOfText source, Conditions.initial symbols, Place.start, [], none, false⟩

/-- The stream after a piece, with `pieces` still to come. -/
def pass (stream : TokenStream) (piece : Piece) (pieces : List Piece) : TokenStream :=
  { stream with
    pieces := pieces
    conditions := stream.conditions.after piece
    reached := piece.stop
    issues := stream.issues ++ (stream.conditions.issue? piece).toList }

/-- The stream at its end. -/
def finish (stream : TokenStream) : TokenStream :=
  if stream.finished then { stream with pieces := [] }
  else
    { stream with
      pieces := []
      issues := stream.issues ++ stream.conditions.unclosed
      finished := true }

/-- Reads the given pieces up to the first token that can be seen. -/
def seek (stream : TokenStream) : List Piece → Option Token × TokenStream
  | [] => (none, stream.finish)
  | piece :: pieces =>
      match stream.conditions.visible? piece with
      | some token => (some token, stream.pass piece pieces)
      | none => (stream.pass piece pieces).seek pieces

/-- Takes the next token, if there is one. -/
def read (stream : TokenStream) : Option Token × TokenStream :=
  match stream.lookahead with
  | some token => (token, { stream with lookahead := none })
  | none => stream.seek stream.pieces

/-- Looks at the next token, if there is one. -/
def peek (stream : TokenStream) : Option Token × TokenStream :=
  match stream.lookahead with
  | some token => (token, stream)
  | none =>
      let (token, later) := stream.seek stream.pieces
      (token, { later with lookahead := some token })

/-- Whether no token is left. -/
def isAtEnd (stream : TokenStream) : Bool × TokenStream :=
  let (token, later) := stream.peek
  (token.isNone, later)

/-- The symbols as the directives read so far have left them. -/
def symbols (stream : TokenStream) : SymbolTable := stream.conditions.symbols

/-- The line that has been reached. -/
def line (stream : TokenStream) : UInt32 := stream.reached.position.line

/-- A bound on the number of tokens left. -/
def size (stream : TokenStream) : Nat :=
  stream.pieces.length + if stream.lookahead.isSome then 1 else 0

/-- Seeking passes the piece of the token that it finds. -/
theorem size_seek_lt {stream : TokenStream} {pieces : List Piece} {token : Token}
    (empty : stream.lookahead = none)
    (found : (stream.seek pieces).1 = some token) :
    (stream.seek pieces).2.size < pieces.length := by
  induction pieces generalizing stream with
  | nil => simp [seek] at found
  | cons piece pieces ih =>
      unfold seek at found ⊢
      split
      · simp [size, pass, empty]
      · rename_i hidden
        simp only [hidden] at found
        have shorter := @ih (stream.pass piece pieces) empty found
        simp only [List.length_cons]
        omega

/-- Taking a token leaves fewer to come. -/
theorem size_read_lt {stream : TokenStream} {token : Token}
    (found : stream.read.1 = some token) : stream.read.2.size < stream.size := by
  unfold read at found ⊢
  split
  · rename_i looked
    simp [size, looked]
  · rename_i empty
    simp only [empty] at found
    have shorter := size_seek_lt empty found
    simpa [size, empty] using shorter

/-- Takes all tokens that are left. -/
def drain (stream : TokenStream) (found : List Token) : List Token × TokenStream :=
  match isNext : stream.read with
  | (none, later) => (found.reverse, later)
  | (some token, later) =>
      have : later.size < stream.size := by
        have shorter := size_read_lt (congrArg Prod.fst isNext)
        rwa [isNext] at shorter
      later.drain (token :: found)
termination_by stream.size

end TokenStream

end ObjectIds
