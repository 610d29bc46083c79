import ObjectIds.Proofs.OpaqueBodies

/-!
# Enclosed bodies

A body goes from an opening brace to the brace that closes it, and that is the first point at
which as many braces have been closed as opened.  Skipping a body counts the braces that are
open.  It stops at that point, or, if there is none, at the end of the tokens.
-/

namespace ObjectIds

namespace Token

/-- The first of some tokens is an opening brace. -/
def OpensWithBrace (tokens : List Token) : Prop :=
  ∃ brace ∈ tokens.head?, brace.isSymbol "\x7b" = true

/-- Tokens from an opening brace to the brace that closes it, where for the first time as many
braces have been closed as opened. -/
structure Enclosed (body : List Token) : Prop where
  opens : OpensWithBrace body
  closed_eq : closed body = opened body
  shortest : ∀ part, part <+: body → part ≠ [] → closed part = opened part → part = body

/-- Tokens of which no part at their start closes as many braces as it opens. -/
def Unclosed (tokens : List Token) : Prop :=
  ∀ part, part <+: tokens → part ≠ [] → closed part ≠ opened part

theorem opensWithBrace_cons {token : Token} {tokens : List Token} :
    OpensWithBrace (token :: tokens) ↔ token.isSymbol "\x7b" = true := by
  simp [OpensWithBrace]

instance (tokens : List Token) : Decidable (OpensWithBrace tokens) :=
  match tokens with
  | [] => isFalse (by simp [OpensWithBrace])
  | _ :: _ => decidable_of_iff' _ opensWithBrace_cons

theorem closed_append (first second : List Token) :
    closed (first ++ second) = closed first + closed second := List.countP_append

theorem opened_append (first second : List Token) :
    opened (first ++ second) = opened first + opened second := List.countP_append

theorem counts_cons_of_opening {token : Token} (opens : token.isSymbol "\x7b" = true)
    (tokens : List Token) :
    closed (token :: tokens) = closed tokens ∧
      opened (token :: tokens) = opened tokens + 1 := by
  simp [closed_cons, opened_cons, opens, not_closing_of_opening opens]

theorem counts_cons_of_closing {token : Token} (closes : token.isSymbol "\x7d" = true)
    (tokens : List Token) :
    closed (token :: tokens) = closed tokens + 1 ∧
      opened (token :: tokens) = opened tokens := by
  have noOpening : token.isSymbol "\x7b" = false := by
    cases opens : token.isSymbol "\x7b" with
    | false => rfl
    | true => simp [not_closing_of_opening opens] at closes
  simp [closed_cons, opened_cons, closes, noOpening]

/-- No more braces are closed than `depth` and those that are opened, at any point. -/
def StaysOpen (depth : Nat) (tokens : List Token) : Prop :=
  ∀ count, closed (tokens.take count) ≤ depth + opened (tokens.take count)

theorem staysOpen_nil (depth : Nat) : StaysOpen depth [] := by
  intro count
  simp [closed]

theorem StaysOpen.cons {depth later : Nat} {token : Token} {tokens : List Token}
    (staysOpen : StaysOpen later tokens)
    (passes : closed [token] + later ≤ depth + opened [token]) :
    StaysOpen depth (token :: tokens) := by
  intro count
  cases count with
  | zero => simp [closed]
  | succ count =>
      have bound := staysOpen count
      rw [List.take_succ_cons, ← List.singleton_append, closed_append, opened_append]
      omega

theorem StaysOpen.closed_le {depth : Nat} {tokens part : List Token}
    (staysOpen : StaysOpen depth tokens) (isPart : part <+: tokens) :
    closed part ≤ depth + opened part := by
  rw [List.prefix_iff_eq_take.1 isPart]
  exact staysOpen part.length

theorem StaysOpen.of_prefix {depth : Nat} {tokens part : List Token}
    (staysOpen : StaysOpen depth tokens) (isPart : part <+: tokens) : StaysOpen depth part :=
  fun _ => staysOpen.closed_le ((List.take_prefix _ _).trans isPart)

/-- Either the braces stay open to the end, or some brace is the first to close more than is
open. -/
theorem exists_closing (depth : Nat) (tokens : List Token) :
    StaysOpen depth tokens ∨
      ∃ inner brace rest, tokens = inner ++ brace :: rest ∧ StaysOpen depth inner ∧
        closed inner = depth + opened inner ∧ brace.isSymbol "\x7d" = true := by
  induction tokens generalizing depth with
  | nil => exact Or.inl (staysOpen_nil depth)
  | cons token tokens ih =>
      have goesOn (later : Nat) (passes : closed [token] + later = depth + opened [token]) :
          StaysOpen depth (token :: tokens) ∨
            ∃ inner brace rest, token :: tokens = inner ++ brace :: rest ∧
              StaysOpen depth inner ∧ closed inner = depth + opened inner ∧
              brace.isSymbol "\x7d" = true := by
        rcases ih later with staysOpen | ⟨inner, brace, rest, rfl, staysOpen, balance, closes⟩
        · exact Or.inl (staysOpen.cons passes.le)
        · refine Or.inr ⟨token :: inner, brace, rest, rfl, staysOpen.cons passes.le, ?_, closes⟩
          rw [← List.singleton_append, closed_append, opened_append]
          omega
      cases closes : token.isSymbol "\x7d" with
      | false =>
          have noClosing : closed [token] = 0 := by simp [closed, closes]
          exact goesOn (depth + opened [token]) (by omega)
      | true =>
          obtain ⟨oneClosing, noOpening⟩ := counts_cons_of_closing closes []
          cases depth with
          | zero => exact Or.inr ⟨[], token, tokens, rfl, staysOpen_nil 0, rfl, closes⟩
          | succ depth =>
              refine goesOn depth ?_
              rw [oneClosing, noOpening]
              simp [closed, opened, Nat.add_comm]

/-- The first brace to close more than is open encloses what is before it. -/
theorem StaysOpen.enclosed {opening closing : Token} {inner : List Token}
    (staysOpen : StaysOpen 0 inner) (balance : closed inner = opened inner)
    (opens : opening.isSymbol "\x7b" = true) (closes : closing.isSymbol "\x7d" = true) :
    Enclosed (opening :: (inner ++ [closing])) := by
  refine ⟨⟨opening, rfl, opens⟩, ?_, fun part isPart notEmpty isEven => ?_⟩
  · obtain ⟨oneClosing, noOpening⟩ := counts_cons_of_closing closes []
    obtain ⟨noClosing, oneOpening⟩ := counts_cons_of_opening opens (inner ++ [closing])
    rw [noClosing, oneOpening, closed_append, opened_append, oneClosing, noOpening, balance]
    rfl
  · obtain rfl | ⟨later, rfl, isLater⟩ := List.prefix_cons_iff.1 isPart
    · contradiction
    · rcases List.prefix_concat_iff.1 isLater with rfl | isInside
      · rfl
      · have bound := staysOpen.closed_le isInside
        obtain ⟨noClosing, oneOpening⟩ := counts_cons_of_opening opens later
        omega

theorem StaysOpen.unclosed {opening : Token} {tokens : List Token}
    (staysOpen : StaysOpen 0 tokens) (opens : opening.isSymbol "\x7b" = true) :
    Unclosed (opening :: tokens) := by
  intro part isPart notEmpty isEven
  obtain rfl | ⟨later, rfl, isLater⟩ := List.prefix_cons_iff.1 isPart
  · contradiction
  · have bound := staysOpen.closed_le isLater
    obtain ⟨noClosing, oneOpening⟩ := counts_cons_of_opening opens later
    omega

theorem Enclosed.ne_nil {body : List Token} (enclosed : Enclosed body) : body ≠ [] := by
  rintro rfl
  obtain ⟨brace, isHead, -⟩ := enclosed.opens
  simp at isHead

/-- A body ends at one place only. -/
theorem Enclosed.eq_of_append_eq {first second left rest : List Token}
    (isFirst : Enclosed first) (isSecond : Enclosed second)
    (same : first ++ left = second ++ rest) : first = second ∧ left = rest := by
  have sameBody : first = second := by
    rcases List.prefix_or_prefix_of_prefix ⟨left, same⟩ ⟨rest, rfl⟩ with isPart | isPart
    · exact isSecond.shortest first isPart isFirst.ne_nil isFirst.closed_eq
    · exact (isFirst.shortest second isPart isSecond.ne_nil isSecond.closed_eq).symm
  subst sameBody
  exact ⟨rfl, List.append_cancel_left same⟩

end Token

namespace Header

theorem skipBody_of_not_opening {tokens : List Token}
    (noOpening : ¬Token.OpensWithBrace tokens) : skipBody tokens = (false, tokens) := by
  cases tokens with
  | nil => rfl
  | cons token rest =>
      rw [Token.opensWithBrace_cons] at noOpening
      simp [skipBody, noOpening]

/-- Skipping goes to the end if the braces stay open, and else past the first brace to close
more than is open. -/
theorem skipBody_cons {opening : Token} (tokens : List Token)
    (opens : opening.isSymbol "\x7b" = true) :
    (Token.StaysOpen 0 tokens ∧ skipBody (opening :: tokens) = (false, [])) ∨
      ∃ inner closing rest, tokens = inner ++ closing :: rest ∧ Token.StaysOpen 0 inner ∧
        Token.closed inner = Token.opened inner ∧ closing.isSymbol "\x7d" = true ∧
        skipBody (opening :: tokens) = (true, rest) := by
  rcases Token.exists_closing 0 tokens with staysOpen |
    ⟨inner, closing, rest, rfl, staysOpen, balance, closes⟩
  · have skipped := skipToClosing_append [] staysOpen
    rw [List.append_nil] at skipped
    exact Or.inl ⟨staysOpen, by simp [skipBody, opens, skipped, skipToClosing]⟩
  · rw [Nat.zero_add] at balance
    refine Or.inr ⟨inner, closing, rest, rfl, staysOpen, balance, closes, ?_⟩
    rw [skipBody, if_pos opens, skipToClosing_append _ staysOpen, balance, Nat.zero_add,
      Nat.sub_self]
    exact (skipToClosing_of_closing closes 0 rest).2

/-- Every text after an opening brace is a body and a rest, or it is not closed. -/
theorem exists_skipBody {opening : Token} (tokens : List Token)
    (opens : opening.isSymbol "\x7b" = true) :
    (Token.Unclosed (opening :: tokens) ∧ skipBody (opening :: tokens) = (false, [])) ∨
      ∃ body rest, opening :: tokens = body ++ rest ∧ Token.Enclosed body ∧
        skipBody (opening :: tokens) = (true, rest) := by
  rcases skipBody_cons tokens opens with ⟨staysOpen, isSkipped⟩ |
    ⟨inner, closing, rest, rfl, staysOpen, balance, closes, isSkipped⟩
  · exact Or.inl ⟨staysOpen.unclosed opens, isSkipped⟩
  · exact Or.inr ⟨opening :: (inner ++ [closing]), rest, by simp,
      staysOpen.enclosed balance opens closes, isSkipped⟩

/-- A part with as many closing as opening braces starts with the body that is skipped. -/
theorem exists_skipBody_of_even {tokens part : List Token} (opens : Token.OpensWithBrace tokens)
    (isPart : part <+: tokens) (notEmpty : part ≠ [])
    (isEven : Token.closed part = Token.opened part) :
    ∃ body rest, tokens = body ++ rest ∧ Token.Enclosed body ∧ body <+: part ∧
      skipBody tokens = (true, rest) := by
  obtain ⟨opening, isHead, isOpening⟩ := opens
  obtain ⟨tokens, rfl⟩ := List.head?_eq_some_iff.1 isHead
  rcases exists_skipBody tokens isOpening with ⟨unclosed, -⟩ |
    ⟨body, rest, same, enclosed, isSkipped⟩
  · exact absurd isEven (unclosed part isPart notEmpty)
  · refine ⟨body, rest, same, enclosed, ?_, isSkipped⟩
    rcases List.prefix_or_prefix_of_prefix isPart ⟨rest, same.symm⟩ with isShorter | isLonger
    · obtain rfl := enclosed.shortest part isShorter notEmpty isEven
      exact List.prefix_refl part
    · exact isLonger

theorem skipBody_of_enclosed {body : List Token} (rest : List Token)
    (enclosed : Token.Enclosed body) : skipBody (body ++ rest) = (true, rest) := by
  obtain ⟨opening, isHead, isOpening⟩ := enclosed.opens
  have opens : Token.OpensWithBrace (body ++ rest) :=
    ⟨opening, by simp [List.head?_append, Option.mem_def.1 isHead], isOpening⟩
  obtain ⟨other, left, same, isOther, -, isSkipped⟩ := exists_skipBody_of_even opens
    (List.prefix_append body rest) enclosed.ne_nil enclosed.closed_eq
  obtain ⟨-, rfl⟩ := enclosed.eq_of_append_eq isOther same
  exact isSkipped

theorem skipBody_of_unclosed {tokens : List Token}
    (opens : Token.OpensWithBrace tokens)
    (unclosed : Token.Unclosed tokens) : skipBody tokens = (false, []) := by
  obtain ⟨opening, isHead, opens⟩ := opens
  obtain ⟨rest, rfl⟩ := List.head?_eq_some_iff.1 isHead
  rcases exists_skipBody rest opens with ⟨-, isSkipped⟩ | ⟨body, left, same, enclosed, -⟩
  · exact isSkipped
  · exact absurd enclosed.closed_eq (unclosed body ⟨left, same.symm⟩ enclosed.ne_nil)

/-- Inside a body more braces have been opened than closed, and skipping goes on with their
difference, less the one for the brace that it looks for. -/
theorem skipBody_inside {part more rest : List Token} {found : Bool}
    (isSkipped : skipBody (part ++ (more ++ rest)) = (found, rest)) (begun : part ≠ [])
    (goesOn : found = true → more ≠ []) :
    Token.closed part < Token.opened part ∧
      skipToClosing (Token.opened part - Token.closed part - 1) (more ++ rest) =
        (found, rest) := by
  obtain ⟨opening, part, rfl⟩ := List.exists_cons_of_ne_nil begun
  cases opens : opening.isSymbol "\x7b" with
  | false =>
      rw [List.cons_append,
        skipBody_of_not_opening (by simp [Token.opensWithBrace_cons, opens])] at isSkipped
      have lengths := congrArg (fun skipped => skipped.2.length) isSkipped
      simp only [List.length_cons, List.length_append] at lengths
      omega
  | true =>
      have staysOpen : Token.StaysOpen 0 part := by
        rcases skipBody_cons (part ++ (more ++ rest)) opens with ⟨staysOpen, -⟩ |
          ⟨inner, closing, left, same, staysOpen, -, -, isLeft⟩
        · exact staysOpen.of_prefix (List.prefix_append part _)
        · obtain ⟨isFound, rfl⟩ := Prod.mk.inj (isSkipped.symm.trans isLeft)
          have isBody : part ++ more = inner ++ [closing] :=
            List.append_cancel_right (by simpa using same)
          rcases List.prefix_concat_iff.1 ⟨more, isBody⟩ with rfl | isInside
          · exact absurd (List.append_right_eq_self.1 isBody) (goesOn isFound)
          · exact staysOpen.of_prefix isInside
      obtain ⟨noClosing, oneOpening⟩ := Token.counts_cons_of_opening opens part
      have bound := staysOpen.closed_le (List.prefix_refl part)
      refine ⟨by omega, ?_⟩
      rw [← isSkipped, List.cons_append, skipBody, if_pos opens, skipToClosing_append _ staysOpen]
      congr 1
      omega

end Header

end ObjectIds
