import MonkeySyntax.CommandLine.Invocation

/-!
# Sessions go line by line

A session and a run of the front end are two programs that treat the same texts, and this module
says how they agree. A line of a session is answered with what a strict run on the trimmed line
would print (`Session.reply_eq_output`), unless the line is empty or speaks to the session itself.

What a session remembers from one line to the next is a single bit, whether tokens are listed, and
it is turned over by each line that asks for it (`Session.listingAfter`). So the answers can be told
one by one from the input (`Session.GoesLineByLine`), up to the first line of leave-taking or the
first interrupt; and when one line is replaced by another, the other answers stay as they were.
-/

namespace MonkeySyntax.Session

open MonkeySyntax.CommandLine (Action)

/-! ### What a line is to the session -/

namespace Input

/-- The session is left here: at a word of leave-taking, or at an interrupt. -/
def isLast : Input → Bool
  | line text => Text.trim text = "exit" || Text.trim text = "quit"
  | interrupt => true

/-- The line turns the listing of tokens on or off. -/
def isToggle : Input → Bool
  | line text => (Text.trim text).toList.map Char.toLower = "verbose-mode".toList
  | interrupt => false

end Input

/-- Whether tokens are listed behind these lines: each line that asks for it has turned the mode
over. -/
def listingAfter (verbose : Bool) (before : List Input) : Bool :=
  before.foldl (fun listing input => if input.isToggle then !listing else listing) verbose

@[simp] theorem listingAfter_nil (verbose : Bool) : listingAfter verbose [] = verbose := rfl

@[simp] theorem listingAfter_cons (verbose : Bool) (first : Input) (before : List Input) :
    listingAfter verbose (first :: before) =
      listingAfter (if first.isToggle then !verbose else verbose) before := rfl

/-- The answer to a line at which the session goes on. A line with a program is answered as a strict
run on the program, given as it is, would print it. -/
def answerTo (files : FileView) (listing : Bool) (text : String) : String :=
  if Text.trim text = "" then ""
  else if (Input.line text).isToggle then modeLine !listing
  else ((Action.run ⟨true, listing, false, true⟩ (Text.trim text)).perform files []).output

/-- The answer where the session is left. The end of the input is treated as an interrupt. -/
def answerToLast : Option Input → String
  | some (.line _) => farewell
  | _ => "\n" ++ farewell

/-! ### Two ways of answering -/

/-- **A program is answered as by a strict run**: with the tokens if they are wanted, and then with
the program or with the diagnostics. -/
theorem reply_eq_output (files : FileView) (listing : Bool) (source : String) :
    reply listing source =
      ((Action.run ⟨true, listing, false, true⟩ source).perform files []).output := by
  have hrun : FrontEnd.run files ⟨true, listing, false, true⟩ source =
      FrontEnd.runText ⟨true, listing, false, true⟩ source := rfl
  rw [Action.perform, hrun, FrontEnd.runText, reply]
  -- Both sides ask whether there are diagnostics.
  cases (parse source).diagnostics.isEmpty with
  | true => rfl
  | false => rfl

/-- **One line** at which the session goes on: it is answered, and may change the mode. -/
theorem run_line (files : FileView) {text : String} (h : (Input.line text).isLast = false)
    (verbose : Bool) (rest : List Input) :
    run verbose (.line text :: rest) =
      (run (if (Input.line text).isToggle then !verbose else verbose) rest).cons
        (answerTo files verbose text) := by
  have hleave : ¬ (Text.trim text = "exit" ∨ Text.trim text = "quit") := by
    simpa [Input.isLast] using h
  rw [run, Command.ofLine, answerTo]
  by_cases hempty : Text.trim text = ""
  · -- The empty line is none that asks for the listing.
    have htoggle : (Input.line text).isToggle = false := by
      rw [Input.isToggle, hempty]
      rfl
    simp only [hempty, htoggle, if_true, Bool.false_eq_true, if_false]
  · simp only [if_neg hempty, if_neg hleave]
    by_cases htoggle : (Text.trim text).toList.map Char.toLower = "verbose-mode".toList
    · have hmode : (Input.line text).isToggle = true := by simpa [Input.isToggle] using htoggle
      simp only [if_pos htoggle, hmode, if_true]
    · have hmode : (Input.line text).isToggle = false := by simpa [Input.isToggle] using htoggle
      simp only [if_neg htoggle, hmode, Bool.false_eq_true, if_false, reply_eq_output files]

/-- Where the session is left, whatever comes behind is not read. -/
theorem run_last {last : Input} (h : last.isLast = true) (verbose : Bool) (rest : List Input) :
    run verbose (last :: rest) = ⟨[answerToLast (some last)], rest.length⟩ := by
  cases last with
  | interrupt => rfl
  | line text =>
    have hleave : Text.trim text = "exit" ∨ Text.trim text = "quit" := by
      simpa [Input.isLast] using h
    have hempty : Text.trim text ≠ "" := by
      rcases hleave with h | h <;> simp [h]
    rw [run, Command.ofLine]
    simp only [if_neg hempty, if_pos hleave]
    rfl

@[simp] theorem answers_cons (answer : String) (t : Transcript) :
    (t.cons answer).answers = answer :: t.answers := rfl

@[simp] theorem unread_cons (answer : String) (t : Transcript) :
    (t.cons answer).unread = t.unread := rfl

/-- A session goes on only behind lines. -/
theorem Input.exists_line {input : Input} (h : input.isLast = false) :
    ∃ text, input = line text := by
  cases input with
  | line text => exact ⟨text, rfl⟩
  | interrupt => cases h

/-! ### The answers, one by one -/

/-- The transcript of a session on this input: it is left at the first input that asks for it, or
else at the end; nothing behind is read; and every line before is answered by itself, in the mode
that the lines before it have led to. -/
structure GoesLineByLine (files : FileView) (verbose : Bool) (input : List Input)
    (t : Transcript) : Prop where
  /-- There is one answer to each line, and one when the session is left. -/
  length_answers : t.answers.length = input.findIdx Input.isLast + 1
  unread_eq : t.unread = input.length - (input.findIdx Input.isLast + 1)
  answer_eq : ∀ i < input.findIdx Input.isLast, ∃ text, input[i]? = some (.line text) ∧
    t.answers[i]? = some (answerTo files (listingAfter verbose (input.take i)) text)
  last_eq : t.answers[input.findIdx Input.isLast]? =
    some (answerToLast input[input.findIdx Input.isLast]?)

theorem run_goesLineByLine (files : FileView) (verbose : Bool) (input : List Input) :
    GoesLineByLine files verbose input (run verbose input) := by
  induction input generalizing verbose with
  | nil => exact ⟨rfl, rfl, fun i hi => absurd hi (Nat.not_lt_zero i), rfl⟩
  | cons first rest ih =>
    cases hlast : first.isLast with
    | true =>
      have hindex : (first :: rest).findIdx Input.isLast = 0 := by simp [List.findIdx_cons, hlast]
      rw [run_last hlast]
      refine ⟨?_, ?_, fun i hi => ?_, ?_⟩
      · rw [hindex]
        rfl
      · rw [hindex, List.length_cons, Nat.add_sub_cancel]
      · rw [hindex] at hi
        exact absurd hi (Nat.not_lt_zero i)
      · rw [hindex]
        rfl
    | false =>
      obtain ⟨text, rfl⟩ := Input.exists_line hlast
      have hindex : (Input.line text :: rest).findIdx Input.isLast =
          rest.findIdx Input.isLast + 1 := by
        simp [List.findIdx_cons, hlast]
      obtain ⟨hlength, hunread, hanswer, hleft⟩ :=
        ih (if (Input.line text).isToggle then !verbose else verbose)
      rw [run_line files hlast]
      refine ⟨?_, ?_, fun i hi => ?_, ?_⟩
      · rw [hindex, answers_cons, List.length_cons, hlength]
      · rw [hindex, unread_cons, List.length_cons, hunread, Nat.add_sub_add_right]
      · cases i with
        | zero =>
          refine ⟨text, rfl, ?_⟩
          rw [answers_cons, List.getElem?_cons_zero, List.take_zero, listingAfter_nil]
        | succ i =>
          rw [hindex] at hi
          rw [answers_cons, List.getElem?_cons_succ, List.getElem?_cons_succ, List.take_succ_cons,
            listingAfter_cons]
          exact hanswer i (Nat.lt_of_succ_lt_succ hi)
      · rw [hindex, answers_cons, List.getElem?_cons_succ, List.getElem?_cons_succ]
        exact hleft

/-! ### What one line changes -/

/-- What comes behind the end of a session changes no answer. -/
theorem answers_of_last {last : Input} (h : last.isLast = true) (verbose : Bool)
    (before rest rest' : List Input) :
    (run verbose (before ++ last :: rest)).answers =
      (run verbose (before ++ last :: rest')).answers := by
  induction before generalizing verbose with
  | nil => rw [List.nil_append, List.nil_append, run_last h, run_last h]
  | cons first before ih =>
    cases hlast : first.isLast with
    | true => rw [List.cons_append, List.cons_append, run_last hlast, run_last hlast]
    | false =>
      obtain ⟨text, rfl⟩ := Input.exists_line hlast
      have hline := run_line FileTree.empty.view hlast
      rw [List.cons_append, List.cons_append, hline, hline, answers_cons, answers_cons, ih]

/-- The line neither ends the session nor changes its mode. -/
def IsPlain (text : String) : Prop :=
  (Input.line text).isLast = false ∧ (Input.line text).isToggle = false

/-- **One line for another.** All other answers stay as they are, and the session reads as far as
before. -/
theorem run_replace {text text' : String} (h : IsPlain text) (h' : IsPlain text')
    (verbose : Bool) (before after : List Input) :
    (run verbose (before ++ .line text :: after)).unread =
        (run verbose (before ++ .line text' :: after)).unread ∧
      ∀ i ≠ before.length, (run verbose (before ++ .line text :: after)).answers[i]? =
        (run verbose (before ++ .line text' :: after)).answers[i]? := by
  induction before generalizing verbose with
  | nil =>
    rw [List.nil_append, List.nil_append, run_line FileTree.empty.view h.1,
      run_line FileTree.empty.view h'.1, h.2, h'.2]
    refine ⟨by rw [unread_cons, unread_cons], fun i hi => ?_⟩
    cases i with
    | zero => exact absurd rfl hi
    | succ i => rw [answers_cons, answers_cons, List.getElem?_cons_succ, List.getElem?_cons_succ]
  | cons first before ih =>
    cases hlast : first.isLast with
    | true =>
      rw [List.cons_append, List.cons_append, run_last hlast, run_last hlast]
      refine ⟨?_, fun i _ => rfl⟩
      rw [List.length_append, List.length_append, List.length_cons, List.length_cons]
    | false =>
      obtain ⟨line, rfl⟩ := Input.exists_line hlast
      have hline := run_line FileTree.empty.view hlast
      rw [List.cons_append, List.cons_append, hline, hline]
      obtain ⟨hunread, hanswers⟩ := ih (if (Input.line line).isToggle then !verbose else verbose)
      refine ⟨hunread, fun i hi => ?_⟩
      rw [answers_cons, answers_cons]
      cases i with
      | zero => rw [List.getElem?_cons_zero, List.getElem?_cons_zero]
      | succ i =>
        rw [List.getElem?_cons_succ, List.getElem?_cons_succ]
        exact hanswers i fun heq => hi (congrArg Nat.succ heq)

/-! ### Everything printed -/

/-- Texts each of which but the last is followed by a prompt are texts each of which but the first
comes behind one. -/
theorem join_prompts (p : String) {answers : List String} (h : answers ≠ []) :
    p ++ String.join (answers.dropLast.map (· ++ p) ++ answers.getLast?.toList) =
      String.join (answers.map (p ++ ·)) := by
  induction answers with
  | nil => exact absurd rfl h
  | cons first rest ih =>
    cases rest with
    | nil => simp
    | cons second rest =>
      have hrest := ih (List.cons_ne_nil second rest)
      rw [List.map_cons, String.join_cons, ← hrest]
      simp [String.append_assoc]

/-- Everything that a session prints: the greeting, and then for each answer the prompt and the
answer. -/
theorem printed_eq (t : Transcript) (h : t.answers ≠ []) :
    t.printed = greeting ++ String.join (t.answers.map (prompt ++ ·)) := by
  rw [Transcript.printed, Transcript.segments, String.join_cons, String.append_assoc,
    join_prompts prompt h]

/-- **A session goes line by line**, and answers its lines as strict runs would. It is left at the
first line that trims to a word of leave-taking, at the first interrupt, or at the end of the input,
and reads nothing behind. What it prints is the greeting and, behind one prompt each, the answers.
What comes behind the end changes none of them, and neither does replacing another line, as long as
none of the two lines ends the session or changes its mode. -/
theorem session_goes_line_by_line (files : FileView) (verbose : Bool) (input : List Input) :
    GoesLineByLine files verbose input (run verbose input) ∧
      (run verbose input).printed =
        greeting ++ String.join ((run verbose input).answers.map (prompt ++ ·)) ∧
      (∀ before last behind, input = before ++ last :: behind → last.isLast = true →
        ∀ other, (run verbose (before ++ last :: other)).answers = (run verbose input).answers) ∧
      ∀ before text behind, input = before ++ .line text :: behind → IsPlain text →
        ∀ other, IsPlain other →
          (run verbose (before ++ .line other :: behind)).unread = (run verbose input).unread ∧
          ∀ i ≠ before.length, (run verbose (before ++ .line other :: behind)).answers[i]? =
            (run verbose input).answers[i]? := by
  have hgoes := run_goesLineByLine files verbose input
  refine ⟨hgoes, printed_eq _ ?_, ?_, ?_⟩
  · rw [← List.length_pos_iff, hgoes.length_answers]
    exact Nat.succ_pos _
  · rintro before last behind rfl hlast other
    exact answers_of_last hlast verbose before other behind
  · rintro before text behind rfl htext other hother
    exact run_replace hother htext verbose before behind

/-- The mode is changed and changed back; a word of leave-taking counts when it stands alone. -/
example : run false [.line " Verbose-MODE ", .line "", .line "verbose-mode", .line "quit\t",
      .line "exit"] =
    ⟨["[mode] >>> Verbose mode ON\n", "", "[mode] >>> Verbose mode OFF\n",
      "Exiting Monkey REPL.\n"], 1⟩ := by
  decide +kernel

end MonkeySyntax.Session
