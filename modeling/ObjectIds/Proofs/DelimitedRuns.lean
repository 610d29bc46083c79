import ObjectIds.Text.Delimited

/-!
# Where delimited runs end

A text after an opening delimiter can be read in exactly one way.  Either it is a
quoted text, a delimiter and a rest that does not start with another delimiter, or it
is a quoted text to its end.  The reader of runs and the reader of values both stop at
that delimiter.  In the same way a block comment is decided by the first `*/`.
-/

namespace ObjectIds

namespace Text

@[simp]
theorem quote_nil (delimiter : Char) : quote delimiter [] = [] := rfl

theorem quote_cons_self (delimiter : Char) (text : List Char) :
    quote delimiter (delimiter :: text) =
      delimiter :: delimiter :: quote delimiter text := by
  simp [quote]

theorem quote_cons_of_ne {delimiter character : Char} (different : character ≠ delimiter)
    (text : List Char) :
    quote delimiter (character :: text) = character :: quote delimiter text := by
  simp [quote, different]

section Quoted

variable {delimiter : Char}

theorem quotedRunAfter_cons_of_ne {character : Char} (different : character ≠ delimiter)
    (found text : List Char) :
    quotedRunAfter delimiter found (character :: text) =
      quotedRunAfter delimiter (character :: found) text := by
  cases text with
  | nil => simp [quotedRunAfter, different]
  | cons next rest => simp [quotedRunAfter, different]

theorem quotedRunAfter_double (found text : List Char) :
    quotedRunAfter delimiter found (delimiter :: delimiter :: text) =
      quotedRunAfter delimiter (delimiter :: delimiter :: found) text := by
  simp [quotedRunAfter]

theorem quotedRunAfter_delimiter (found : List Char) {rest : List Char}
    (alone : rest.head? ≠ some delimiter) :
    quotedRunAfter delimiter found (delimiter :: rest) =
      ⟨(delimiter :: found).reverse, true, rest⟩ := by
  cases rest with
  | nil => simp [quotedRunAfter]
  | cons next rest =>
      have different : next ≠ delimiter := fun same => alone (by simp [same])
      simp [quotedRunAfter, different]

theorem quotedRunAfter_quote_append (found value rest : List Char) :
    quotedRunAfter delimiter found (quote delimiter value ++ rest) =
      quotedRunAfter delimiter ((quote delimiter value).reverse ++ found) rest := by
  induction value generalizing found with
  | nil => rfl
  | cons character value ih =>
      by_cases same : character = delimiter
      · subst character
        rw [quote_cons_self, List.cons_append, List.cons_append, quotedRunAfter_double, ih]
        simp
      · rw [quote_cons_of_ne same, List.cons_append, quotedRunAfter_cons_of_ne same, ih]
        simp

/-- A quoted text ends at the first delimiter that stands alone. -/
theorem quotedRun_closed (value : List Char) {rest : List Char}
    (alone : rest.head? ≠ some delimiter) :
    quotedRun delimiter (quote delimiter value ++ delimiter :: rest) =
      ⟨quote delimiter value ++ [delimiter], true, rest⟩ := by
  rw [quotedRun, quotedRunAfter_quote_append, quotedRunAfter_delimiter _ alone]
  simp

/-- A quoted text without such a delimiter runs to the end. -/
theorem quotedRun_open (value : List Char) :
    quotedRun delimiter (quote delimiter value) =
      ⟨quote delimiter value, false, []⟩ := by
  have run := @quotedRunAfter_quote_append delimiter [] value []
  rw [List.append_nil] at run
  rw [quotedRun, run]
  simp [quotedRunAfter]

/-- Every text after an opening delimiter is of one of these two forms. -/
theorem exists_quote (delimiter : Char) (text : List Char) :
    ∃ value, text = quote delimiter value ∨
      ∃ rest, text = quote delimiter value ++ delimiter :: rest ∧
        rest.head? ≠ some delimiter := by
  match text with
  | [] => exact ⟨[], Or.inl rfl⟩
  | [character] =>
      by_cases same : character = delimiter
      · exact ⟨[], Or.inr ⟨[], by simp [same], by simp⟩⟩
      · exact ⟨[character], Or.inl (by simp [quote_cons_of_ne same])⟩
  | character :: next :: rest =>
      by_cases same : character = delimiter
      · by_cases doubled : next = delimiter
        · -- A doubled delimiter stands for one character of the value.
          obtain ⟨value, isRest⟩ := exists_quote delimiter rest
          refine ⟨delimiter :: value, ?_⟩
          rw [quote_cons_self, same, doubled]
          rcases isRest with rfl | ⟨later, rfl, alone⟩
          · exact Or.inl rfl
          · exact Or.inr ⟨later, rfl, alone⟩
        · exact ⟨[], Or.inr ⟨next :: rest, by simp [same], by simp [doubled]⟩⟩
      · obtain ⟨value, isRest⟩ := exists_quote delimiter (next :: rest)
        refine ⟨character :: value, ?_⟩
        rw [quote_cons_of_ne same]
        rcases isRest with isQuote | ⟨later, isClosed, alone⟩
        · exact Or.inl (by rw [isQuote])
        · exact Or.inr ⟨later, by rw [isClosed]; rfl, alone⟩

theorem unquoteAfter_quote_append (found value rest : List Char) :
    unquoteAfter delimiter found (quote delimiter value ++ rest) =
      unquoteAfter delimiter (value.reverse ++ found) rest := by
  induction value generalizing found with
  | nil => rfl
  | cons character value ih =>
      by_cases same : character = delimiter
      · subst character
        rw [quote_cons_self]
        simp only [List.cons_append, unquoteAfter, if_pos]
        rw [ih]
        simp
      · rw [quote_cons_of_ne same]
        have step : unquoteAfter delimiter found
              (character :: (quote delimiter value ++ rest)) =
            unquoteAfter delimiter (character :: found)
              (quote delimiter value ++ rest) := by
          cases quote delimiter value ++ rest with
          | nil => simp [unquoteAfter, same]
          | cons next others => simp [unquoteAfter, same]
        rw [List.cons_append, step, ih]
        simp

/-- Reading a written text gives the text back, whether or not it is closed. -/
theorem unquote_quote (value : List Char) :
    unquote delimiter (quote delimiter value ++ [delimiter]) = value ∧
      unquote delimiter (quote delimiter value) = value := by
  constructor
  · rw [unquote, unquoteAfter_quote_append]
    simp [unquoteAfter]
  · have read := @unquoteAfter_quote_append delimiter [] value []
    rw [List.append_nil] at read
    rw [unquote, read]
    simp [unquoteAfter]

end Quoted

section Comments

theorem commentRunAfter_of_not_infix (found body : List Char)
    (inside : ¬['*', '/'] <:+: body) :
    commentRunAfter found body = ⟨found.reverse ++ body, false, []⟩ := by
  fun_induction commentRunAfter found body with
  | case1 found => simp
  | case2 found character => simp
  | case3 found character next rest ends =>
      obtain ⟨rfl, rfl⟩ := ends
      exact (inside ⟨[], rest, rfl⟩).elim
  | case4 found character next rest goesOn ih =>
      rw [ih fun later => inside (List.infix_cons later)]
      simp

theorem commentRunAfter_append_of_not_infix (found body rest : List Char)
    (inside : ¬['*', '/'] <:+: body ++ ['*']) :
    commentRunAfter found (body ++ '*' :: '/' :: rest) =
      ⟨found.reverse ++ body ++ ['*', '/'], true, rest⟩ := by
  induction body generalizing found with
  | nil => simp [commentRunAfter]
  | cons character body ih =>
      have later : ¬['*', '/'] <:+: body ++ ['*'] :=
        fun ends => inside (List.infix_cons ends)
      -- The next character is the first of the rest of the body or the star after it.
      have notEnd : ¬(character = '*' ∧ (body ++ ['*']).head? = some '/') := by
        rintro ⟨rfl, isSlash⟩
        obtain ⟨others, isBody⟩ := List.head?_eq_some_iff.1 isSlash
        exact inside ⟨[], others, by simp [isBody]⟩
      have step : commentRunAfter found (character :: (body ++ '*' :: '/' :: rest)) =
          commentRunAfter (character :: found) (body ++ '*' :: '/' :: rest) := by
        cases body with
        | nil => simp [commentRunAfter]
        | cons next body =>
            have goesOn : ¬(character = '*' ∧ next = '/') := by simpa using notEnd
            simp [commentRunAfter, goesOn]
      rw [List.cons_append, step, ih _ later]
      simp

/-- A comment ends with the first `*/`. -/
theorem commentRun_closed {body : List Char} (rest : List Char)
    (inside : ¬['*', '/'] <:+: body ++ ['*']) :
    commentRun (body ++ '*' :: '/' :: rest) = ⟨body ++ ['*', '/'], true, rest⟩ := by
  simpa [commentRun] using commentRunAfter_append_of_not_infix [] body rest inside

/-- A comment without `*/` runs to the end. -/
theorem commentRun_open {body : List Char} (inside : ¬['*', '/'] <:+: body) :
    commentRun body = ⟨body, false, []⟩ := by
  simpa [commentRun] using commentRunAfter_of_not_infix [] body inside

/-- Every text after the start of a comment is of one of these two forms. -/
theorem exists_comment (text : List Char) :
    ¬['*', '/'] <:+: text ∨
      ∃ body rest, text = body ++ '*' :: '/' :: rest ∧
        ¬['*', '/'] <:+: body ++ ['*'] := by
  induction text with
  | nil => exact Or.inl (by simp)
  | cons character text ih =>
      by_cases ends : ['*', '/'] <+: character :: text
      · obtain ⟨rest, isText⟩ := ends
        exact Or.inr ⟨[], rest, isText.symm, by decide⟩
      · rcases ih with inside | ⟨body, rest, rfl, inside⟩
        · left
          rw [List.infix_cons_iff]
          exact fun found => found.elim ends inside
        · right
          refine ⟨character :: body, rest, rfl, ?_⟩
          rw [List.cons_append, List.infix_cons_iff]
          rintro (early | later)
          · apply ends
            exact early.trans ⟨'/' :: rest, by simp⟩
          · exact inside later

end Comments

end Text

end ObjectIds
