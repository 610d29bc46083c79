import ObjectIds.Proofs.IssueSites

/-!
# Looking ahead

A token stream that is asked for tokens, in any order of taking them and looking at them, is
an iterator over the list of its remaining tokens: taking a token gives the head of that list
and leaves its tail, and looking at one gives the head and leaves the list.  The directives
that a search for a token goes through, and the notes at the end, come earlier when a token is
looked at first, but none of them is lost or comes twice.
-/

namespace ObjectIds

namespace TokenStream

/-- Takes the next item of an iteration over the tokens. -/
def next (stream : TokenStream) : Option Token × TokenStream := stream.read

inductive Call where
  | read
  | next
  | peek
  | isAtEnd
deriving DecidableEq, Repr

namespace Call

/-- Whether a call takes the next token. -/
def takes : Call → Bool
  | read | next => true
  | peek | isAtEnd => false

end Call

def afterCall (stream : TokenStream) : Call → TokenStream
  | .read => stream.read.2
  | .next => stream.next.2
  | .peek => stream.peek.2
  | .isAtEnd => stream.isAtEnd.2

def afterCalls (stream : TokenStream) (calls : List Call) : TokenStream :=
  calls.foldl afterCall stream

/-- The result of a call that takes a token. -/
def taken? (stream : TokenStream) : Call → Option (Option Token)
  | .read => some stream.read.1
  | .next => some stream.next.1
  | .peek | .isAtEnd => none

/-- The results of those calls that take a token. -/
def taken (stream : TokenStream) : List Call → List (Option Token)
  | [] => []
  | call :: calls => (stream.taken? call).toList ++ (stream.afterCall call).taken calls

/-- The tokens that a stream has still to give. -/
def remaining (stream : TokenStream) : List Token :=
  stream.lookahead.join.toList ++ stream.conditions.visibleTokens stream.pieces

/-- What a stream leaves: its symbols and its issues. -/
def parts (stream : TokenStream) : SymbolTable × List Issue := (stream.symbols, stream.issues)

/-- The conditions that a stream will have reached at its end. -/
def final (stream : TokenStream) : Conditions := stream.conditions.afterAll stream.pieces

variable {stream : TokenStream} {notes : List Issue}

theorem afterCalls_cons (stream : TokenStream) (call : Call) (calls : List Call) :
    stream.afterCalls (call :: calls) = (stream.afterCall call).afterCalls calls := rfl

/-- A search passes only pieces that show nothing, and looks ahead no further. -/
theorem seek_spec (stream : TokenStream) (pieces : List Piece) :
    let (token, later) := stream.seek pieces
    stream.conditions.visibleTokens pieces =
        token.toList ++ later.conditions.visibleTokens later.pieces ∧
      later.final = stream.conditions.afterAll pieces ∧
      later.lookahead = stream.lookahead := by
  induction pieces generalizing stream with
  | nil =>
      have noPieces : stream.finish.pieces = [] := by
        unfold finish
        split <;> rfl
      have sameLookahead : stream.finish.lookahead = stream.lookahead := by
        unfold finish
        split <;> rfl
      simp [seek, final, noPieces, sameLookahead]
  | cons piece pieces ih =>
      rw [seek, Conditions.visibleTokens_cons]
      cases visible : stream.conditions.visible? piece with
      | some token => exact ⟨rfl, rfl, rfl⟩
      | none => exact ih (stream.pass piece pieces)

section Read

/-- Taking a token takes it off the remaining ones. -/
theorem remaining_eq_read (stream : TokenStream) :
    stream.remaining = stream.read.1.toList ++ stream.read.2.remaining := by
  unfold read
  split
  · rename_i token looked
    simp [remaining, looked]
  · rename_i empty
    obtain ⟨sameTokens, -, sameLookahead⟩ := stream.seek_spec stream.pieces
    simp only [remaining, sameLookahead, empty]
    exact sameTokens

theorem final_read (stream : TokenStream) : stream.read.2.final = stream.final := by
  unfold read
  split
  · rfl
  · exact (stream.seek_spec stream.pieces).2.1

/-- Without a token to take the end has been reached. -/
theorem WillNote.finished_read (willNote : stream.WillNote notes)
    (noToken : stream.read.1 = none) : stream.read.2.finished = true := by
  unfold TokenStream.read at noToken ⊢
  split at noToken
  · rename_i token looked
    obtain rfl : token = none := noToken
    exact willNote.looked_beyond looked
  · exact finished_of_seek_eq_none noToken

theorem WillNote.remaining_read_eq_nil (willNote : stream.WillNote notes)
    (noToken : stream.read.1 = none) : stream.read.2.remaining = [] := by
  have noPieces := (willNote.read.at_end (willNote.finished_read noToken)).2
  have empty : stream.read.2.lookahead = none := by
    unfold TokenStream.read
    split
    · rfl
    · rename_i empty
      exact (stream.seek_spec stream.pieces).2.2.trans empty
  simp [remaining, noPieces, empty]

theorem WillNote.read_eq_head? (willNote : stream.WillNote notes) :
    stream.read.1 = stream.remaining.head? := by
  rw [stream.remaining_eq_read]
  cases isRead : stream.read.1 with
  | some token => rfl
  | none => simp [willNote.remaining_read_eq_nil isRead]

theorem WillNote.remaining_read (willNote : stream.WillNote notes) :
    stream.read.2.remaining = stream.remaining.tail := by
  rw [stream.remaining_eq_read]
  cases isRead : stream.read.1 with
  | some token => rfl
  | none => simp [willNote.remaining_read_eq_nil isRead]

end Read

section Peek

theorem peek_eq_read (stream : TokenStream) : stream.peek.1 = stream.read.1 := by
  unfold peek read
  split <;> rfl

theorem lookahead_peek (stream : TokenStream) :
    stream.peek.2.lookahead = some stream.peek.1 := by
  unfold peek
  split
  · assumption
  · rfl

theorem read_peek (stream : TokenStream) : stream.peek.2.read.1 = stream.peek.1 := by
  rw [read, lookahead_peek]

/-- Looking at a token leaves it among the remaining ones. -/
theorem remaining_peek (stream : TokenStream) : stream.peek.2.remaining = stream.remaining := by
  unfold peek
  split
  · rfl
  · rename_i empty
    obtain ⟨sameTokens, -, -⟩ := stream.seek_spec stream.pieces
    simp only [remaining, empty]
    exact sameTokens.symm

theorem final_peek (stream : TokenStream) : stream.peek.2.final = stream.final := by
  unfold peek
  split
  · rfl
  · exact (stream.seek_spec stream.pieces).2.1

theorem finished_peek (stream : TokenStream) :
    stream.peek.2.finished = stream.read.2.finished := by
  unfold peek read
  split <;> rfl

end Peek

section Calls

theorem final_afterCalls (stream : TokenStream) (calls : List Call) :
    (stream.afterCalls calls).final = stream.final := by
  induction calls generalizing stream with
  | nil => rfl
  | cons call calls ih =>
      rw [afterCalls_cons, ih]
      cases call with
      | read | next => exact stream.final_read
      | peek | isAtEnd => exact stream.final_peek

theorem WillNote.afterCall (willNote : stream.WillNote notes) (call : Call) :
    (stream.afterCall call).WillNote notes := by
  cases call with
  | read | next => exact willNote.read
  | peek | isAtEnd => exact willNote.peek

theorem WillNote.afterCalls (willNote : stream.WillNote notes) (calls : List Call) :
    (stream.afterCalls calls).WillNote notes := by
  induction calls generalizing stream with
  | nil => exact willNote
  | cons call calls ih => exact ih (willNote.afterCall call)

theorem WillNote.remaining_afterCalls (willNote : stream.WillNote notes) (calls : List Call) :
    (stream.afterCalls calls).remaining = stream.remaining.drop (calls.countP Call.takes) := by
  induction calls generalizing stream with
  | nil => rfl
  | cons call calls ih =>
      rw [afterCalls_cons, ih (willNote.afterCall call), List.countP_cons]
      cases call with
      | read | next =>
          show List.drop _ stream.read.2.remaining = _
          rw [willNote.remaining_read, List.drop_tail]
          rfl
      | peek | isAtEnd =>
          show List.drop _ stream.peek.2.remaining = _
          rw [stream.remaining_peek]
          rfl

/-- The calls that take tokens give the remaining ones in order, and then none. -/
theorem WillNote.taken_eq (willNote : stream.WillNote notes) (calls : List Call) :
    let takes := calls.countP Call.takes
    stream.taken calls =
      (stream.remaining.take takes).map some ++
        List.replicate (takes - stream.remaining.length) none := by
  induction calls generalizing stream with
  | nil => simp [taken]
  | cons call calls ih =>
      simp only [taken, List.countP_cons]
      rw [ih (willNote.afterCall call)]
      cases call with
      | read | next =>
          show stream.read.1 :: (List.map some (List.take _ stream.read.2.remaining) ++
            List.replicate (_ - stream.read.2.remaining.length) none) = _
          rw [willNote.read_eq_head?, willNote.remaining_read]
          cases stream.remaining with
          | nil => simp [Call.takes, List.replicate_succ]
          | cons token tokens => simp [Call.takes]
      | peek | isAtEnd =>
          show List.map some (List.take _ stream.peek.2.remaining) ++
            List.replicate (_ - stream.peek.2.remaining.length) none = _
          rw [stream.remaining_peek]
          rfl

/-- A stream that has reached its end has its last symbols and all its notes. -/
theorem WillNote.parts_eq (willNote : stream.WillNote notes) (finished : stream.finished = true) :
    stream.parts = (stream.final.symbols, notes) := by
  obtain ⟨noted, noPieces⟩ := willNote.at_end finished
  rw [parts, noted, final, noPieces]
  rfl

theorem finished_afterCalls (finished : stream.finished = true) (calls : List Call) :
    (stream.afterCalls calls).finished = true := by
  induction calls generalizing stream with
  | nil => exact finished
  | cons call calls ih =>
      cases call with
      | read | next => exact ih (finished_after .read finished)
      | peek | isAtEnd => exact ih (finished_after .peek finished)

/-- More calls change neither the symbols nor the notes of a stream at its end. -/
theorem WillNote.parts_afterCalls (willNote : stream.WillNote notes)
    (finished : stream.finished = true) (calls : List Call) :
    (stream.afterCalls calls).parts = (stream.final.symbols, notes) := by
  rw [← stream.final_afterCalls calls]
  exact (willNote.afterCalls calls).parts_eq (finished_afterCalls finished calls)

theorem drain_of_read_eq_none {found : List Token} (noToken : stream.read.1 = none) :
    stream.drain found = (found.reverse, stream.read.2) := by
  rw [TokenStream.drain]
  split
  · rename_i later isNext
    rw [isNext]
  · rename_i token later isNext
    rw [isNext] at noToken
    contradiction

theorem drain_of_read_eq_some {found : List Token} {token : Token}
    (isToken : stream.read.1 = some token) :
    stream.drain found = stream.read.2.drain (token :: found) := by
  rw [TokenStream.drain]
  split
  · rename_i later isNext
    rw [isNext] at isToken
    contradiction
  · rename_i other later isNext
    obtain rfl : other = token := by simpa [isNext] using isToken
    obtain rfl : stream.read.2 = later := congrArg Prod.snd isNext
    rfl

/-- Draining a stream takes its remaining tokens and reaches its end. -/
theorem WillNote.drain (willNote : stream.WillNote notes) (found : List Token) :
    let drained := stream.drain found
    drained.1 = found.reverse ++ stream.remaining ∧ drained.2.WillNote notes ∧
      drained.2.finished = true ∧ drained.2.final = stream.final := by
  induction stream, found using TokenStream.drain.induct with
  | case1 stream found later isNext =>
      have noToken : stream.read.1 = none := congrArg Prod.fst isNext
      rw [drain_of_read_eq_none noToken]
      refine ⟨?_, willNote.read, willNote.finished_read noToken, stream.final_read⟩
      rw [stream.remaining_eq_read, noToken, willNote.remaining_read_eq_nil noToken]
      exact (List.append_nil _).symm
  | case2 stream found token later isNext shorter ih =>
      have isToken : stream.read.1 = some token := congrArg Prod.fst isNext
      obtain rfl : stream.read.2 = later := congrArg Prod.snd isNext
      obtain ⟨isDrained, willNoteDrained, finished, sameFinal⟩ := ih willNote.read
      rw [drain_of_read_eq_some isToken]
      refine ⟨?_, willNoteDrained, finished, sameFinal.trans stream.final_read⟩
      rw [isDrained, stream.remaining_eq_read, isToken, List.reverse_cons, List.append_assoc]
      rfl

end Calls

end TokenStream

/-- Whatever tokens have been looked at, those taken are the tokens of a plain run in order,
and then none.  Looking at a token gives the one that is taken next.  At the end, in whatever
way and however often it is reached, a stream leaves the symbols and the issues of the plain
run.  These issues are noted at different pieces of the text, so that no two of them are equal
when 32 bits can count the text. -/
theorem lookahead_unobservable (source : String) (symbols : SymbolTable)
    (calls : List TokenStream.Call) :
    let start := TokenStream.ofText source symbols
    let plain := start.drain []
    let takes := calls.countP TokenStream.Call.takes
    let reached := start.afterCalls calls
    start.taken calls =
        (plain.1.take takes).map some ++ List.replicate (takes - plain.1.length) none ∧
      (reached.peek.1 = reached.read.1 ∧ reached.peek.2.read.1 = reached.read.1) ∧
      (reached.isAtEnd.1 = reached.read.1.isNone ∧
        reached.isAtEnd.2.read.1 = reached.read.1) ∧
      (reached.drain []).1 = plain.1.drop takes ∧
      (∀ further, ((reached.drain []).2.afterCalls further).parts = plain.2.parts) ∧
      (reached.read.1 = none → ∀ further,
        (reached.read.2.afterCalls further).parts = plain.2.parts ∧
          (reached.peek.2.afterCalls further).parts = plain.2.parts) ∧
      (∃ sites : List (Piece × Issue), sites.map Prod.snd = plain.2.issues ∧
        (∀ site ∈ sites, site.1.CanNote site.2) ∧
          (sites.map Prod.fst).Subperm (Piece.listOfText source)) ∧
      (source.utf8ByteSize < UInt32.size → plain.2.issues.Nodup) := by
  intro start plain takes reached
  -- Every stream here will note the same issues and end with the same conditions.
  let notes := (Preprocessed.ofText source symbols).issues
  have willNote : start.WillNote notes := TokenStream.willNote_ofText source symbols
  have willNoteReached : reached.WillNote notes := willNote.afterCalls calls
  have sameFinal : reached.final = start.final := start.final_afterCalls calls
  obtain ⟨plainTokens, willNotePlain, plainFinished, plainFinal⟩ := willNote.drain []
  have isPlain : plain.1 = start.remaining := plainTokens
  have plainParts : plain.2.parts = (start.final.symbols, notes) := by
    rw [willNotePlain.parts_eq plainFinished, plainFinal]
  have plainNotes : plain.2.issues = notes := congrArg Prod.snd plainParts
  rw [isPlain, plainParts, plainNotes]
  refine ⟨willNote.taken_eq calls, ⟨reached.peek_eq_read, ?_⟩, ⟨?_, ?_⟩, ?_, ?_, ?_, ?_, ?_⟩
  · exact reached.read_peek.trans reached.peek_eq_read
  · exact congrArg Option.isNone reached.peek_eq_read
  · exact reached.read_peek.trans reached.peek_eq_read
  · exact (willNoteReached.drain []).1.trans (willNote.remaining_afterCalls calls)
  · intro further
    obtain ⟨-, willNoteDrained, finished, drainedFinal⟩ := willNoteReached.drain []
    rw [willNoteDrained.parts_afterCalls finished, drainedFinal, sameFinal]
  · intro noToken further
    have readFinished := willNoteReached.finished_read noToken
    have peekFinished := reached.finished_peek.trans readFinished
    rw [willNoteReached.read.parts_afterCalls readFinished,
      willNoteReached.peek.parts_afterCalls peekFinished, reached.final_read,
      reached.final_peek, sameFinal]
    exact ⟨rfl, rfl⟩
  · exact Preprocessed.exists_sites source symbols
  · exact Preprocessed.nodup_issues symbols

/-- Looking at the second token passes three directives, and looking at the end notes the open
conditional. -/
theorem lookahead_unobservable_past_end :
    let source := "x\n#else\n#define A\n#if A\ny"
    let start := TokenStream.ofText source .empty
    let plain := start.drain []
    let calls : List TokenStream.Call :=
      [.peek, .isAtEnd, .next, .peek, .peek, .read, .isAtEnd, .peek, .read, .next]
    (start.taken calls).map (·.map Token.text) = [some "x", some "y", none, none] ∧
      ((start.afterCalls calls).read.2.afterCalls [.peek, .read]).parts = plain.2.parts ∧
      plain.2.issues = [⟨.unmatchedElse, ⟨2, 7⟩⟩, ⟨.unclosedConditional, ⟨18, 23⟩⟩] ∧
      plain.2.issues.Nodup := by
  intro source start plain calls
  have short : source.utf8ByteSize < UInt32.size := by decide +kernel
  have noToken : (start.afterCalls calls).read.1 = none := by decide +kernel
  obtain ⟨isTaken, -, -, -, -, atEnd, -, nodup⟩ := lookahead_unobservable source .empty calls
  refine ⟨?_, (atEnd noToken [.peek, .read]).1, ?_, nodup short⟩
  · rw [isTaken]
    decide +kernel
  · decide +kernel

end ObjectIds
