import MonkeySyntax.Proofs.Pieces
import MonkeySyntax.Scanner.Request

/-!
# Where a cursor stands

A cursor can be asked for anything wherever it stands: for a word in the middle of a number, for a
string where there is no quote, for one more token behind the last one. It never looks back, and
still it always knows its place. Whatever has been asked for before, it is to go on to the position
behind its own, the characters that it shows are those of these two positions, and the line and the
column that it has counted are those of the text before it (`Scanner.Cursor.KnowsPlace`).

That is so since a cursor moves in one way only: every request is answered by a number of single
steps (`Scanner.Cursor.exists_perform_eq_advanceBy`). What has been passed between two requests is
therefore the text between the two positions, and at the end of the text there is no step left.
-/

namespace MonkeySyntax.Scanner

/-- The characters of a text from one position up to another. -/
def between (source : String) (start stop : Nat) : List Char :=
  (source.toList.take stop).drop start

namespace Cursor

variable {source : String} {c : Cursor}

/-! ### Every request is a number of steps -/

theorem exists_nextToken_eq_advanceBy (c : Cursor) : ∃ n, c.nextToken.2 = c.advanceBy n := by
  cases hr : c.skipSpaces.rest with
  | nil =>
    refine ⟨(c.run isSpace).length, ?_⟩
    rw [nextToken, tokenHere_of_nil hr]
    rfl
  | cons ch rest =>
    refine ⟨(c.run isSpace).length + (Lexeme.ofChars ch rest).width, ?_⟩
    rw [nextToken, tokenHere_of_cons hr, advanceBy_add]
    rfl

theorem exists_takeUpTo_eq_advanceBy (k : Nat) (c : Cursor) :
    ∃ n, (TokenStream.takeUpTo k c).2 = c.advanceBy n := by
  induction k generalizing c with
  | zero => exact ⟨0, rfl⟩
  | succ k ih =>
    obtain ⟨n, hn⟩ := c.exists_nextToken_eq_advanceBy
    rw [TokenStream.takeUpTo]
    split
    · exact ⟨n, hn⟩
    · -- The tokens behind the first one begin where this one has ended.
      obtain ⟨m, hm⟩ := ih c.nextToken.2
      refine ⟨n + m, ?_⟩
      rw [advanceBy_add, ← hn]
      exact hm

/-- **A cursor moves step by step**, whatever it is asked for. -/
theorem exists_perform_eq_advanceBy (request : Request) (c : Cursor) :
    ∃ n, (c.perform request).2 = c.advanceBy n := by
  cases request with
  | advance => exact ⟨1, rfl⟩
  | lookahead => exact ⟨0, rfl⟩
  | atEnd => exact ⟨0, rfl⟩
  | skipSpaces => exact ⟨_, rfl⟩
  | readWord => exact ⟨_, rfl⟩
  | readNumber => exact ⟨_, rfl⟩
  | readString => exact ⟨_ + 1, rfl⟩
  | nextToken => exact c.exists_nextToken_eq_advanceBy
  | tokens => exact exists_takeUpTo_eq_advanceBy _ c

/-! ### Standing in a text -/

/-- The cursor stands in the text: some of its characters have been passed, and the others are
ahead. -/
def StandsIn (source : String) (c : Cursor) : Prop :=
  ∃ passed, passed ++ c.rest = source.toList ∧ c.HasPassed passed

theorem standsIn_ofString (source : String) : (ofString source).StandsIn source :=
  ⟨[], rfl, hasPassed_ofString source⟩

theorem StandsIn.advanceBy (h : c.StandsIn source) (n : Nat) : (c.advanceBy n).StandsIn source := by
  obtain ⟨passed, htext, hpassed⟩ := h
  refine ⟨passed ++ c.rest.take n, ?_, hpassed.advanceBy n⟩
  rw [rest_advanceBy, List.append_assoc, List.take_append_drop, htext]

theorem StandsIn.perform (h : c.StandsIn source) (request : Request) :
    (c.perform request).2.StandsIn source := by
  obtain ⟨n, hn⟩ := exists_perform_eq_advanceBy request c
  rw [hn]
  exact h.advanceBy n

theorem StandsIn.performAll (h : c.StandsIn source) (requests : List Request) :
    (c.performAll requests).StandsIn source := by
  induction requests generalizing c with
  | nil => exact h
  | cons request requests ih => exact ih (h.perform request)

theorem StandsIn.position_le_perform (h : c.StandsIn source) (request : Request) :
    c.position ≤ (c.perform request).2.position := by
  obtain ⟨passed, -, hpassed⟩ := h
  obtain ⟨n, hn⟩ := exists_perform_eq_advanceBy request c
  rw [hn, (hpassed.advanceBy n).position_eq, hpassed.position_eq, List.length_append]
  exact Nat.le_add_right _ _

/-- **What is passed in some steps** is the text between the two positions. -/
theorem StandsIn.between_advanceBy (h : c.StandsIn source) (n : Nat) :
    between source c.position (c.advanceBy n).position = c.rest.take n := by
  obtain ⟨passed, htext, hpassed⟩ := h
  have hsplit : passed ++ c.rest.take n ++ c.rest.drop n = source.toList := by
    rw [List.append_assoc, List.take_append_drop, htext]
  rw [between, (hpassed.advanceBy n).position_eq, hpassed.position_eq, ← hsplit, List.take_left,
    List.drop_left]

theorem StandsIn.rest_eq_nil (h : c.StandsIn source) (hend : c.position = source.length) :
    c.rest = [] := by
  obtain ⟨passed, htext, hpassed⟩ := h
  have hlength := congrArg List.length htext
  rw [List.length_append, ← hpassed.position_eq, hend, String.length_toList] at hlength
  exact List.eq_nil_of_length_eq_zero (by omega)

/-! ### What a cursor knows, and what it answers -/

/-- What a cursor shows and counts is what there is at its position of the text. -/
structure KnowsPlace (source : String) (c : Cursor) : Prop where
  position_le : c.position ≤ source.length
  /-- This is so at the end as well, where no step is left. -/
  nextPosition_eq : c.nextPosition = c.position + 1
  /-- There is nothing to show at the end. -/
  current_eq : c.current? = source.toList[c.position]?
  /-- The cursor looks one character further than it stands. -/
  lookahead_eq : c.lookahead? = source.toList[c.position + 1]?
  line_eq : c.line = lineBehind (source.toList.take c.position)
  column_eq : c.column = columnBehind (source.toList.take c.position)

theorem StandsIn.knowsPlace (h : c.StandsIn source) : c.KnowsPlace source := by
  obtain ⟨passed, htext, hposition, hnextLength, hcurrent, hline, hcolumn⟩ := h
  have htake : source.toList.take c.position = passed := by rw [← htext, hposition, List.take_left]
  have hget (i : Nat) : source.toList[c.position + i]? = c.rest[i]? := by
    rw [← htext, hposition, List.getElem?_append_right (Nat.le_add_right _ _),
      Nat.add_sub_cancel_left]
  have hnext : c.nextPosition = c.position + 1 := by rw [hnextLength, hposition]
  refine
    { position_le := ?_
      nextPosition_eq := hnext
      current_eq := ?_
      lookahead_eq := ?_
      line_eq := by rw [htake, hline]
      column_eq := by rw [htake, hcolumn] }
  · rw [← String.length_toList, ← htext, hposition, List.length_append]
    exact Nat.le_add_right _ _
  · rw [hcurrent, List.head?_eq_getElem?]
    exact (hget 0).symm
  · rw [lookahead?, hnext, Nat.add_sub_cancel_left]
    exact (hget 1).symm

/-- What becomes of a request to a cursor in a text. -/
structure AnswersIn (source : String) (c : Cursor) : Prop where
  /-- No request moves the cursor back. -/
  position_le : ∀ request, c.position ≤ (c.perform request).2.position
  /-- A word is what has been passed. -/
  readWord_eq : (c.perform .readWord).1 =
    .text (String.ofList (between source c.position (c.perform .readWord).2.position))
  /-- A number is what has been passed. -/
  readNumber_eq : (c.perform .readNumber).1 =
    .text (String.ofList (between source c.position (c.perform .readNumber).2.position))
  /-- A string is what has been passed behind the first character. -/
  readString_eq : (c.perform .readString).1 =
    .text (String.ofList ((between source c.position (c.perform .readString).2.position).drop 1))
  /-- At the end nothing changes any more, and the next token is the end token of this place. -/
  atEnd : c.position = source.length →
    (∀ requests, c.performAll requests = c) ∧
      (c.perform .nextToken).1 = .token ⟨.eof, "", c.line, c.column⟩

/-- The longest run of characters of a class is what is passed by skipping it. -/
theorem StandsIn.between_skipWhile (h : c.StandsIn source) (p : Char → Bool) :
    between source c.position (c.skipWhile p).position = c.run p := by
  rw [skipWhile, h.between_advanceBy]
  exact Lexeme.take_length_takeWhile p c.rest

theorem StandsIn.drop_between_readString (h : c.StandsIn source) :
    (between source c.position c.readString.2.position).drop 1 =
      c.advance.run (· ≠ '\x22') := by
  have hsteps : c.readString.2 = c.advanceBy ((c.advance.run (· ≠ '\x22')).length + 1) := rfl
  -- One step is for the first character, whatever it is.
  rw [hsteps, h.between_advanceBy, List.drop_take, Nat.add_sub_cancel, List.drop_one, run,
    rest_advance]
  exact Lexeme.take_length_takeWhile _ c.rest.tail

/-- Where nothing is left, no request changes anything. -/
theorem performAll_of_rest_nil (h : c.rest = []) (requests : List Request) :
    c.performAll requests = c := by
  induction requests with
  | nil => rfl
  | cons request requests ih =>
    obtain ⟨n, hn⟩ := exists_perform_eq_advanceBy request c
    rw [performAll_cons, hn, advanceBy_of_rest_nil h, ih]

theorem StandsIn.answersIn (h : c.StandsIn source) : c.AnswersIn source where
  position_le := h.position_le_perform
  readWord_eq := congrArg (Answer.text <| String.ofList ·) (h.between_skipWhile _).symm
  readNumber_eq := congrArg (Answer.text <| String.ofList ·) (h.between_skipWhile _).symm
  readString_eq := congrArg (Answer.text <| String.ofList ·) h.drop_between_readString.symm
  atEnd hend := by
    have hnil := h.rest_eq_nil hend
    refine ⟨performAll_of_rest_nil hnil, ?_⟩
    have hspaces : c.skipSpaces = c := skipSpaces_of_nil hnil
    have htoken : c.nextToken.1 = ⟨.eof, "", c.line, c.column⟩ := by
      rw [nextToken, hspaces, tokenHere_of_nil hnil]
    exact congrArg Answer.token htoken

/-- **A cursor always knows its place.** Whatever has been asked of a cursor on a text, in any
order, it shows the character at its position and the one after it, its next position is one more
than its position, its line is one more than the newlines before it, and its column one more than
its distance from the last of them or from the start. Whatever is asked next, it does not move back;
words, numbers and strings are what it passes in reading them, strings without the first character;
and at the end of the text it stays as it is and yields the same end token for ever. -/
theorem knows_place_and_answers (source : String) (requests : List Request) :
    ((ofString source).performAll requests).KnowsPlace source ∧
      ((ofString source).performAll requests).AnswersIn source :=
  have h := (standsIn_ofString source).performAll requests
  ⟨h.knowsPlace, h.answersIn⟩

/-- A word is asked for in the middle of a number, and a string where there is no quote. -/
example : ((ofString "12ab\ncd").performAll [.advance, .readWord, .readString]) =
    { rest := [], current? := none, position := 7, nextPosition := 8, line := 2, column := 3 } := by
  decide +kernel

end Cursor

end MonkeySyntax.Scanner
