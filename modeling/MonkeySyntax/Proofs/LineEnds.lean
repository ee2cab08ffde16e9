import MonkeySyntax.Proofs.ExitStatus

/-!
# Reading from a file

A program in a file is treated as the text that the file holds would be if it were given directly,
but for the ends of its lines (`FrontEnd.run_file_eq_run_text`). Of the three ways in which a line
may end, two are replaced: first every carriage return with a line feed behind it, and then every
carriage return that is left. The reader does both in one pass, wherever the carriage returns stand
(`Text.joinLineEnds_eq_replaceLineEnds`). Nothing else is changed on the way from the bytes to the
scanner, be it a byte order mark at the beginning or a U+0000.
-/

namespace MonkeySyntax

/-! ### Replacing -/

namespace Text

/-- A text in which every occurrence of one text is replaced by another. The occurrences are
looked for from left to right, and do not overlap. The text to be replaced is given by its first
character and the characters behind it. -/
def replaceAll (first : Char) (others new : List Char) : List Char → List Char
  | [] => []
  | c :: cs =>
    if first :: others <+: c :: cs then
      new ++ replaceAll first others new (cs.drop others.length)
    else c :: replaceAll first others new cs
termination_by cs => cs.length
decreasing_by all_goals grind

/-- The line ends of a text made uniform in two steps. -/
def replaceLineEnds (cs : List Char) : List Char :=
  replaceAll '\r' [] ['\n'] (replaceAll '\r' ['\n'] ['\n'] cs)

variable {first c : Char} {others new cs rest : List Char}

theorem replaceAll_nil : replaceAll first others new [] = [] := by
  rw [replaceAll]

theorem replaceAll_of_append_eq (h : others ++ rest = cs) :
    replaceAll first others new (first :: cs) = new ++ replaceAll first others new rest := by
  rw [← h, replaceAll, if_pos (by simp), List.drop_left]

theorem replaceAll_cons_of_not_prefix (h : ¬ first :: others <+: c :: cs) :
    replaceAll first others new (c :: cs) = c :: replaceAll first others new cs := by
  rw [replaceAll, if_neg h]

theorem replaceAll_cons_of_ne (h : c ≠ first) :
    replaceAll first others new (c :: cs) = c :: replaceAll first others new cs :=
  replaceAll_cons_of_not_prefix fun hprefix => h (List.cons_prefix_cons.1 hprefix).1.symm

/-- **One pass replaces what the two steps do.** -/
theorem joinLineEnds_eq_replaceLineEnds (cs : List Char) :
    joinLineEnds cs = replaceLineEnds cs := by
  unfold replaceLineEnds
  fun_induction joinLineEnds cs with
  | case1 => rw [replaceAll_nil, replaceAll_nil]
  | case2 rest ih =>
    -- The first step takes the pair, and the second one lets the line feed be.
    rw [ih, replaceAll_of_append_eq List.singleton_append, List.singleton_append,
      replaceAll_cons_of_ne (by decide)]
  | case3 rest hrest ih =>
    -- The first step lets the carriage return be, and the second one takes it.
    have hnot : ¬ ['\r', '\n'] <+: '\r' :: rest := by
      rintro ⟨tail, htail⟩
      exact hrest tail (List.cons.inj htail).2.symm
    rw [ih, replaceAll_cons_of_not_prefix hnot, replaceAll_of_append_eq (List.nil_append _),
      List.singleton_append]
  | case4 c rest _ hc ih =>
    have hne : c ≠ '\r' := hc
    rw [ih, replaceAll_cons_of_ne hne, replaceAll_cons_of_ne hne]

end Text

/-! ### Running -/

namespace FrontEnd

open Text (replaceLineEnds)

/-- A run on a text ends with a status or with a refusal. -/
theorem runText_ending_ne (options : RunOptions) (source : String) (e : ReadError) :
    (runText options source).ending ≠ .unreadable e := by
  unfold runText
  dsimp only
  split_ifs <;> simp

/-- **A file is run like the text in it.** Let a file have a name that ends in `.monkey` and hold the
encoding of a text. Whatever the options, to run on this file is to run on the text itself, with
line feeds for its line ends: the same is printed, and the run ends in the same way, with the same
status or refused for the same messages. A U+0000 is allowed in the text, and only in the names of
files there is none. -/
theorem run_file_eq_run_text {files : FileView} {name : String}
    (hname : ".monkey".toList <:+ name.toList) (hnul : '\x00' ∉ name.toList) (text : String)
    (h : files name = .ok (Text.Utf8.encode text.toList)) (tokens json strict : Bool) :
    (∀ others : FileView, run files ⟨false, tokens, json, strict⟩ name =
      run others ⟨true, tokens, json, strict⟩ (String.ofList (replaceLineEnds text.toList))) ∧
    ∀ e, (run files ⟨false, tokens, json, strict⟩ name).ending ≠ .unreadable e := by
  have hread : readSource files false name =
      .ok (String.ofList (replaceLineEnds text.toList)) := by
    rw [← Text.joinLineEnds_eq_replaceLineEnds]
    exact readSource_of_standsFor (.file hname hnul h)
  have hfile : run files ⟨false, tokens, json, strict⟩ name =
      runText ⟨false, tokens, json, strict⟩ (String.ofList (replaceLineEnds text.toList)) := by
    rw [run, hread]
  rw [hfile]
  exact ⟨fun others => rfl, runText_ending_ne _ _⟩

/-- A text with line ends of all three kinds, some of them inside a string, between a byte order mark
and a U+0000. -/
def mixedLineEnds : String :=
  "\ufefflet s =\r\n\x22a\r\r\nb\n\x22;\r\x00"

/-- A directory with one file, which holds this text. -/
def mixedLineEndsTree : FileTree :=
  .directory [("s.monkey", .file (Text.Utf8.encode mixedLineEnds.toList))]

/-- The mark and the U+0000 are refused in the file as they are in the text, and the latter is found
on the same line. -/
theorem run_file_eq_run_text_mixedLineEnds :
    (".monkey".toList <:+ "s.monkey".toList ∧ '\x00' ∉ "s.monkey".toList ∧
      mixedLineEndsTree.view "s.monkey" = .ok (Text.Utf8.encode mixedLineEnds.toList)) ∧
    run mixedLineEndsTree.view ⟨false, true, false, true⟩ "s.monkey" =
      run FileTree.empty.view ⟨true, true, false, true⟩
        "\ufefflet s =\n\x22a\n\nb\n\x22;\n\x00" ∧
    (run mixedLineEndsTree.view ⟨false, true, false, true⟩ "s.monkey").ending =
      .refused ["no prefix parse function for ILLEGAL found at line 1, col 1",
        "no prefix parse function for ILLEGAL found at line 6, col 1"] := by
  have hname : ".monkey".toList <:+ "s.monkey".toList := by decide
  have hnul : '\x00' ∉ "s.monkey".toList := by decide
  have hfile : mixedLineEndsTree.view "s.monkey" = .ok (Text.Utf8.encode mixedLineEnds.toList) :=
    rfl
  have hreplaced : String.ofList (replaceLineEnds mixedLineEnds.toList) =
      "\ufefflet s =\n\x22a\n\nb\n\x22;\n\x00" := by
    rw [← Text.joinLineEnds_eq_replaceLineEnds]
    rfl
  have hrun := (run_file_eq_run_text hname hnul mixedLineEnds hfile true false true).1
    FileTree.empty.view
  rw [hreplaced] at hrun
  refine ⟨⟨hname, hnul, hfile⟩, hrun, ?_⟩
  rw [hrun]
  rfl

end FrontEnd

end MonkeySyntax
