import ObjectIds.Proofs.HeaderSpelling

/-!
# The steps of headers

A header is read in steps, one for each part up to the first that is not there.  A step
looks at most at one token that it leaves unread.  So long as no step of a scan breaks off
because the tokens are at an end, tokens on further lines can follow, and the declarations
among them are found as if they stood alone.
-/

namespace ObjectIds

namespace Header

/-- The steps in which parts of a header are read, the last of which may have failed. -/
def steps (declaration : Declaration) (tokens : List Token) :
    List HeaderPart → List Reading
  | [] => []
  | part :: parts =>
      let reading := readPart part declaration tokens
      reading :: if reading.found then steps reading.declaration reading.rest parts else []

/-- A step that goes well, or fails on a token that is there. -/
def Reading.StaysInside (reading : Reading) : Prop :=
  reading.found = false → reading.rest ≠ []

instance (reading : Reading) : Decidable reading.StaysInside :=
  inferInstanceAs (Decidable (_ → _))

/-- A step with more tokens to come after it. -/
def Reading.append (reading : Reading) (more : List Token) : Reading :=
  { reading with rest := reading.rest ++ more }

variable {declaration : Declaration} {tokens : List Token}

theorem readId_append (more : List Token)
    (inside : (readId declaration tokens).StaysInside) :
    readId declaration (tokens ++ more) = (readId declaration tokens).append more := by
  cases tokens with
  | nil => exact (inside rfl rfl).elim
  | cons token rest =>
      simp only [readId, List.cons_append]
      cases objectId? token <;> rfl

theorem readName_append (more : List Token)
    (inside : (readName declaration tokens).StaysInside) :
    readName declaration (tokens ++ more) = (readName declaration tokens).append more := by
  cases tokens with
  | nil => exact (inside rfl rfl).elim
  | cons token rest =>
      cases isName : token.isIdentifier with
      | false => simp [readName, isName, Reading.append]
      | true => simp [readName, isName, Reading.append]

/-- A list of names that leaves a token does not go on in what comes later. -/
theorem readNames_append (more : List Token) (leaves : (readNames tokens).rest ≠ []) :
    readNames (tokens ++ more) =
      ⟨(readNames tokens).found, (readNames tokens).names,
        (readNames tokens).rest ++ more⟩ := by
  fun_induction readNames tokens with
  | case1 => exact (leaves rfl).elim
  | case2 token isName => exact (leaves rfl).elim
  | case3 token noName =>
      cases more <;> simp [readNames, noName]
  | case4 token comma rest isName isComma later ih =>
      have laterEq := ih leaves
      simp [readNames, isName, isComma, laterEq, later]
  | case5 token comma rest isName noComma => simp [readNames, isName, noComma]
  | case6 token comma rest noName => simp [readNames, noName]

theorem readInterfaces_append (more : List Token)
    (leaves : (readInterfaces declaration tokens).rest ≠ []) :
    readInterfaces declaration (tokens ++ more) =
      (readInterfaces declaration tokens).append more := by
  cases tokens with
  | nil => exact (leaves rfl).elim
  | cons token rest =>
      cases isClause : token.isKeyword "implements" with
      | false => simp [readInterfaces, isClause, Reading.append]
      | true =>
          have namesLeave : (readNames rest).rest ≠ [] := by
            simpa [readInterfaces, isClause] using leaves
          simp [readInterfaces, isClause, Reading.append, readNames_append more namesLeave]

theorem readTarget_append (keyword : String) (more : List Token)
    (inside : (readTarget keyword declaration tokens).StaysInside) :
    readTarget keyword declaration (tokens ++ more) =
      (readTarget keyword declaration tokens).append more := by
  cases tokens with
  | nil => exact (inside rfl rfl).elim
  | cons token rest =>
      cases isClause : token.isKeyword keyword with
      | false => simp [readTarget, isClause, Reading.append]
      | true =>
          cases rest with
          | nil => exact (inside (by simp [readTarget, isClause])
              (by simp [readTarget, isClause])).elim
          | cons name others =>
              cases isName : name.isIdentifier with
              | false => simp [readTarget, isClause, isName, Reading.append]
              | true => simp [readTarget, isClause, isName, Reading.append]

/-- A closed body is closed whatever comes after it. -/
theorem skipToClosing_append_of_found {depth : Nat} (more : List Token)
    (found : (skipToClosing depth tokens).1 = true) :
    skipToClosing depth (tokens ++ more) = (true, (skipToClosing depth tokens).2 ++ more) := by
  fun_induction skipToClosing depth tokens with
  | case1 depth => contradiction
  | case2 depth token rest opens ih => simpa [skipToClosing, opens] using ih found
  | case3 token rest noOpening closes => simp [skipToClosing, noOpening, closes]
  | case4 token rest noOpening closes depth ih =>
      simpa [skipToClosing, noOpening, closes] using ih found
  | case5 depth token rest noOpening noClosing ih =>
      simpa [skipToClosing, noOpening, noClosing] using ih found

/-- A body that is not closed takes all tokens. -/
theorem skipToClosing_rest_of_not_found {depth : Nat}
    (notFound : (skipToClosing depth tokens).1 = false) :
    (skipToClosing depth tokens).2 = [] := by
  fun_induction skipToClosing depth tokens with
  | case1 depth => rfl
  | case2 depth token rest opens ih => exact ih notFound
  | case3 token rest noOpening closes => contradiction
  | case4 token rest noOpening closes depth ih => exact ih notFound
  | case5 depth token rest noOpening noClosing ih => exact ih notFound

theorem skipBody_append (more : List Token)
    (inside : (skipBody tokens).1 = false → (skipBody tokens).2 ≠ []) :
    skipBody (tokens ++ more) = ((skipBody tokens).1, (skipBody tokens).2 ++ more) := by
  cases tokens with
  | nil => exact (inside rfl rfl).elim
  | cons token rest =>
      cases opens : token.isSymbol "\x7b" with
      | false => simp [skipBody, opens]
      | true =>
          simp only [skipBody, opens, List.cons_append, if_true] at inside ⊢
          cases found : (skipToClosing 0 rest).1 with
          | true => exact skipToClosing_append_of_found more found
          | false => exact (inside found (skipToClosing_rest_of_not_found found)).elim

/-- A step does not depend on what comes later, except that interfaces can go on where no
token is left. -/
theorem readPart_append {part : HeaderPart} (more : List Token)
    (inside : (readPart part declaration tokens).StaysInside)
    (leaves : part = .interfaces → (readPart part declaration tokens).rest ≠ []) :
    readPart part declaration (tokens ++ more) =
      (readPart part declaration tokens).append more := by
  cases part with
  | id => exact readId_append more inside
  | name => exact readName_append more inside
  | interfaces => exact readInterfaces_append more (leaves rfl)
  | target keyword => exact readTarget_append keyword more inside
  | body =>
      have skipped := skipBody_append more inside
      simp only [readPart, skipped]
      rfl

/-- Without tokens some step fails at the end, because a header ends with a body. -/
theorem exists_step_at_end (declaration : Declaration) {parts : List HeaderPart}
    (endsWithBody : parts.getLast? = some .body) :
    ∃ step ∈ steps declaration [] parts, ¬step.StaysInside := by
  induction parts generalizing declaration with
  | nil => contradiction
  | cons part parts ih =>
      cases part with
      | interfaces =>
          have laterEnds : parts.getLast? = some .body := by
            cases parts with
            | nil => simp at endsWithBody
            | cons next parts => rwa [List.getLast?_cons_cons] at endsWithBody
          obtain ⟨step, member, atEnd⟩ := ih declaration laterEnds
          exact ⟨step, List.mem_cons_of_mem _ member, atEnd⟩
      | _ => exact ⟨_, List.mem_cons_self, fun inside => inside rfl rfl⟩

/-- A header none of whose steps fails at the end is read in the same way when more tokens
come after it. -/
theorem readParts_append {parts : List HeaderPart} (more : List Token)
    (endsWithBody : parts ≠ [] → parts.getLast? = some .body)
    (inside : ∀ step ∈ steps declaration tokens parts, step.StaysInside) :
    readParts declaration (tokens ++ more) parts =
      ((readParts declaration tokens parts).1,
        (readParts declaration tokens parts).2 ++ more) := by
  induction parts generalizing declaration tokens with
  | nil => rfl
  | cons part parts ih =>
      rw [steps, List.forall_mem_cons] at inside
      obtain ⟨thisInside, laterInside⟩ := inside
      have laterEnds : parts ≠ [] → parts.getLast? = some .body := by
        intro isMore
        obtain ⟨next, others, rfl⟩ := List.exists_cons_of_ne_nil isMore
        rw [← endsWithBody (List.cons_ne_nil _ _), List.getLast?_cons_cons]
      have leaves : part = .interfaces → (readPart part declaration tokens).rest ≠ [] := by
        rintro rfl isEmpty
        -- The body is still to be read, and its step would fail at the end.
        cases found : (readPart .interfaces declaration tokens).found with
        | false => exact thisInside found isEmpty
        | true =>
            have isMore : parts ≠ [] := by
              rintro rfl
              simp at endsWithBody
            obtain ⟨step, member, atEnd⟩ := exists_step_at_end
              (readPart .interfaces declaration tokens).declaration (laterEnds isMore)
            rw [if_pos found, isEmpty] at laterInside
            exact atEnd (laterInside step member)
      simp only [readParts, readPart_append more thisInside leaves, Reading.append]
      cases found : (readPart part declaration tokens).found with
      | false => rfl
      | true =>
          rw [if_pos found] at laterInside
          exact ih laterEnds laterInside

theorem endsWithBody : ∀ kind ∈ ObjectKind.all, kind.parts.getLast? = some .body := by
  decide

end Header

namespace Declaration

/-- The steps of all headers that a scan of tokens reads. -/
def steps (tokens : List Token) : List Header.Reading :=
  match tokens with
  | [] => []
  | token :: rest =>
      match ObjectKind.ofToken? token with
      | some kind =>
          have := (Header.read_suffix kind token rest).length_le
          Header.steps (started kind token.position) rest kind.parts ++
            steps (Header.read kind token rest).2
      | none =>
          have := (afterLine_suffix token.position.line rest).length_le
          steps (afterLine token.position.line rest)
termination_by tokens.length

/-- A keyword is followed by the declaration of its header, if that is complete, and then by
the declarations after the header. -/
theorem listOfTokens_of_keyword {token : Token} {kind : ObjectKind} (rest : List Token)
    (isKind : ObjectKind.ofToken? token = some kind) :
    listOfTokens (token :: rest) =
      (if (Header.read kind token rest).1.isComplete kind then
        [(Header.read kind token rest).1] else []) ++
        listOfTokens (Header.read kind token rest).2 := by
  rw [listOfTokens_eq, next, isKind]
  cases complete : (Header.read kind token rest).1.isComplete kind with
  | true => simp [complete]
  | false =>
      simp only [complete]
      exact (listOfTokens_eq _).symm

theorem listOfTokens_of_noise {token : Token} (rest : List Token)
    (noKind : ObjectKind.ofToken? token = none) :
    listOfTokens (token :: rest) = listOfTokens (afterLine token.position.line rest) := by
  rw [listOfTokens_eq, next, noKind]
  exact (listOfTokens_eq _).symm

/-- Skipping a line stops before tokens on other lines. -/
theorem afterLine_append {line : UInt32} (tokens : List Token) {more : List Token}
    (apart : ∀ token ∈ more, token.position.line ≠ line) :
    afterLine line (tokens ++ more) = afterLine line tokens ++ more := by
  have stays : afterLine line more = more := by
    cases more with
    | nil => rfl
    | cons next more => simp [afterLine, apart next List.mem_cons_self]
  rw [afterLine, List.dropWhile_append]
  split
  · rename_i allDropped
    rw [List.isEmpty_iff] at allDropped
    rw [afterLine, allDropped]
    exact stays
  · rfl

/-- Tokens on further lines are scanned by themselves, so long as no step of a header before
them fails at the end. -/
theorem listOfTokens_append (tokens : List Token) {more : List Token}
    (inside : ∀ step ∈ steps tokens, step.StaysInside)
    (apart : ∀ token ∈ tokens, ∀ later ∈ more, later.position.line ≠ token.position.line) :
    listOfTokens (tokens ++ more) = listOfTokens tokens ++ listOfTokens more := by
  fun_induction steps tokens with
  | case1 => simp [listOfTokens_eq [], next]
  | case2 token rest kind isKind shorter ih =>
      rw [List.forall_mem_append] at inside
      have inTable := (Header.keyword_of_ofToken? isKind).1
      have isRead : Header.read kind token (rest ++ more) = _ :=
        Header.readParts_append more (fun _ => Header.endsWithBody kind inTable) inside.1
      have laterApart : ∀ other ∈ (Header.read kind token rest).2, ∀ later ∈ more,
          later.position.line ≠ other.position.line := by
        intro other member
        have isLater := (Header.read_suffix kind token rest).mem member
        exact apart other (List.mem_cons_of_mem _ isLater)
      rw [List.cons_append, listOfTokens_of_keyword _ isKind, isRead,
        listOfTokens_of_keyword _ isKind, List.append_assoc]
      exact congrArg _ (ih inside.2 laterApart)
  | case3 token rest noKind shorter ih =>
      have laterApart : ∀ other ∈ afterLine token.position.line rest, ∀ later ∈ more,
          later.position.line ≠ other.position.line := by
        intro other member
        have isLater := (afterLine_suffix token.position.line rest).mem member
        exact apart other (List.mem_cons_of_mem _ isLater)
      rw [List.cons_append, listOfTokens_of_noise _ noKind, listOfTokens_of_noise _ noKind,
        afterLine_append rest (apart token List.mem_cons_self)]
      exact ih inside laterApart

end Declaration

end ObjectIds
