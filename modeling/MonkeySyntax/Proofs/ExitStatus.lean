import MonkeySyntax.CommandLine.Invocation
import MonkeySyntax.Proofs.Encoding

/-!
# Exit status, strictness and output

What an invocation with a source comes to (`CommandLine.report_settled`). It fails, with status two,
nothing on standard output and a message on standard error, exactly if no text can be had from the
source; and otherwise the text alone decides between the statuses zero and one. Options choose what
is printed and never what is found.

The statement needs two notions of its own, because the program only has a reader that tries one
thing after another. `SourceFile.Unreadable` lists what may be wrong with a file, in no order, and
`SourceFile.StandsFor` says which text a source is, where bytes stand for a text by being its UTF-8
encoding. Between the two there is no third case, and the reader agrees with both
(`FrontEnd.readSource_eq_ok_iff`, `FrontEnd.readSource_eq_error_iff`).

A strict run reads the text like any other and only ends differently: it hands its diagnostics to
the caller before a program is printed, and the caller lists them. So the same lines come out, less
the program (`CommandLine.Settled`).
-/

namespace MonkeySyntax

open Text.Utf8 (encode)

variable {files : FileView} {source name text : String} {inline tokens json : Bool}

/-! ### Which text a source is -/

namespace SourceFile

/-- The file of this name gives no text. -/
inductive Unreadable (files : FileView) (name : String) : Prop where
  /-- The name does not end in `.monkey`. -/
  | otherName (h : ¬ ".monkey".toList <:+ name.toList)
  /-- The name contains the character U+0000. -/
  | nulInName (h : '\x00' ∈ name.toList)
  /-- There is nothing of this name. -/
  | missing {fault : OpenFault} (h : files name = .error fault) (hf : fault ≠ .isDirectory)
  /-- There is a directory of this name. -/
  | directory (h : files name = .error .isDirectory)
  /-- The bytes in the file are the encoding of no text. -/
  | notText {bytes : List UInt8} (h : files name = .ok bytes) (ht : ∀ cs, bytes ≠ encode cs)

/-- The text that a source is: itself, or what the file of this name holds, with uniform line
ends. -/
inductive StandsFor (files : FileView) (source : String) : (inline : Bool) → String → Prop where
  | inline : StandsFor files source true source
  | file {cs : List Char} (hname : ".monkey".toList <:+ source.toList)
      (hnul : '\x00' ∉ source.toList) (h : files source = .ok (encode cs)) :
      StandsFor files source false (String.ofList (Text.joinLineEnds cs))

theorem isSupported_iff : isSupported name = true ↔ ".monkey".toList <:+ name.toList :=
  List.isSuffixOf_iff_suffix

theorem ofBytes_encode (cs : List Char) :
    ofBytes (encode cs) = .ok (String.ofList (Text.joinLineEnds cs)) := by
  rw [ofBytes, Text.Utf8.decode_eq_ok_iff.mpr rfl]

theorem ofBytes_eq_error {bytes : List UInt8} (h : ∀ cs, bytes ≠ encode cs) :
    ∃ e, ofBytes bytes = .error (.undecodable e) := by
  cases hd : Text.Utf8.decode bytes with
  | ok cs => exact absurd (Text.Utf8.decode_eq_ok_iff.mp hd) (h cs)
  | error e => exact ⟨e, by rw [ofBytes, hd]⟩

/-- A name that gives no text is refused. Which fault is reported depends on the order in which the
reader looks for them; that there is one does not. -/
theorem read_of_unreadable (h : Unreadable files name) : ∃ e, read files name = .error e := by
  unfold read
  split_ifs with hname hnul
  · exact ⟨_, rfl⟩
  · exact ⟨_, rfl⟩
  · cases h with
    | otherName h => exact absurd (isSupported_iff.mp (by simpa using hname)) h
    | nulInName h => exact absurd h hnul
    | missing h | directory h => exact ⟨_, by rw [h]⟩
    | notText h ht =>
      obtain ⟨e, he⟩ := ofBytes_eq_error ht
      exact ⟨_, by rw [h]; exact he⟩

/-- A name that gives no fault gives a text. -/
theorem unreadable_or_standsFor (files : FileView) (name : String) :
    Unreadable files name ∨ ∃ text, StandsFor files name false text := by
  by_cases hname : ".monkey".toList <:+ name.toList
  case neg => exact .inl (.otherName hname)
  by_cases hnul : '\x00' ∈ name.toList
  case pos => exact .inl (.nulInName hnul)
  match h : files name with
  | .error fault =>
    by_cases hf : fault = .isDirectory
    · exact .inl (.directory (hf ▸ h))
    · exact .inl (.missing h hf)
  | .ok bytes =>
    by_cases ht : ∃ cs, bytes = encode cs
    · obtain ⟨cs, rfl⟩ := ht
      exact .inr ⟨_, .file hname hnul h⟩
    · exact .inl (.notText h (not_exists.mp ht))

end SourceFile

namespace FileTree

variable {tree : FileTree}

/-- Going along a path never stops for being at a directory. -/
theorem walk_ne_isDirectory (enclosing : List FileTree) (here : FileTree) (parts : List String) :
    walk enclosing here parts ≠ .error .isDirectory := by
  fun_induction walk <;> simp_all

theorem find_ne_isDirectory (tree : FileTree) (name : String) :
    tree.find name ≠ .error .isDirectory := by
  unfold find
  split_ifs
  · simp
  · simp
  · exact walk_ne_isDirectory _ _ _
  · exact walk_ne_isDirectory _ _ _

/-- In a tree, the fault that makes a name that of a directory is that it leads to one. -/
theorem view_eq_isDirectory_iff :
    tree.view name = .error .isDirectory ↔ ∃ entries, tree.find name = .ok (directory entries) := by
  have hne := find_ne_isDirectory tree name
  unfold view
  split <;> simp_all

/-- Every other fault is that it leads nowhere. -/
theorem view_eq_missing_iff :
    (∃ fault, tree.view name = .error fault ∧ fault ≠ .isDirectory) ↔
      ∀ entry, tree.find name ≠ .ok entry := by
  have hne := find_ne_isDirectory tree name
  unfold view
  split <;> simp_all

end FileTree

open SourceFile (Unreadable StandsFor)

namespace FrontEnd

theorem readSource_of_standsFor (h : StandsFor files source inline text) :
    readSource files inline source = .ok text := by
  cases h with
  | inline => rfl
  | file hname hnul h =>
    simp [readSource, SourceFile.read, SourceFile.isSupported_iff.mpr hname, hnul, h,
      SourceFile.ofBytes_encode]

/-- Whatever the source, it is a text or there is none to be had. -/
theorem noText_or_standsFor (files : FileView) (source : String) (inline : Bool) :
    (inline = false ∧ Unreadable files source) ∨ ∃ text, StandsFor files source inline text := by
  cases inline with
  | true => exact .inr ⟨source, .inline⟩
  | false =>
    obtain h | h := SourceFile.unreadable_or_standsFor files source
    · exact .inl ⟨rfl, h⟩
    · exact .inr h

/-- **A source that is no text is refused**, and no other. -/
theorem readSource_eq_error_iff :
    (∃ e, readSource files inline source = .error e) ↔
      inline = false ∧ Unreadable files source := by
  constructor
  · rintro ⟨e, he⟩
    refine (noText_or_standsFor files source inline).resolve_right ?_
    rintro ⟨text, ht⟩
    simp [readSource_of_standsFor ht] at he
  · rintro ⟨rfl, h⟩
    exact SourceFile.read_of_unreadable h

/-- **A source is read as the text that it is.** -/
theorem readSource_eq_ok_iff :
    readSource files inline source = .ok text ↔ StandsFor files source inline text := by
  refine ⟨fun h => ?_, readSource_of_standsFor⟩
  obtain hno | ⟨text', ht⟩ := noText_or_standsFor files source inline
  · obtain ⟨e, he⟩ := readSource_eq_error_iff.mpr hno
    simp [h] at he
  · have heq := readSource_of_standsFor ht
    rw [h] at heq
    cases heq
    exact ht

end FrontEnd

/-! ### What is reported -/

namespace CommandLine

/-- What an invocation with a source leaves behind, when it is not asked to hold a session. -/
def report (files : FileView) (input : List Session.Input) (verbose : Bool) (source : String)
    (inline tokens json strict : Bool) : Report :=
  (Options.action ⟨some source, inline, tokens, json, strict, false, verbose⟩).perform files input

/-- A report of a run that could not begin. -/
structure Report.Failed (r : Report) : Prop where
  status : r.status = some 2
  output : r.output = ""
  errors : ∃ e : ReadError, r.errors = "[error] >>> " ++ e.message ++ "\n"

/-- What invocations on one text leave behind, as a function of whether they list tokens, print
JSON, and are strict. -/
structure Settled (text : String) (report : (tokens json strict : Bool) → Report) : Prop where
  /-- Nothing goes to standard error. -/
  errors : ∀ tokens json strict, (report tokens json strict).errors = ""
  /-- The status is one if the text has diagnostics. -/
  status_one : ∀ tokens json strict,
    (report tokens json strict).status = some 1 ↔ (parse text).diagnostics ≠ []
  /-- The status is zero if it has none. -/
  status_zero : ∀ tokens json strict,
    (report tokens json strict).status = some 0 ↔ (parse text).diagnostics = []
  /-- A strict run prints the tokens, and then what strict reading gives: the program, or the
  diagnostics that it is refused for. -/
  strict_output : ∀ tokens json, (report tokens json true).output =
    FrontEnd.tokenPart tokens text ++
      match parseStrict text with
      | .ok program => FrontEnd.programText json program ++ "\n"
      | .error diagnostics => Listing.ofMessages (diagnostics.map Diagnostic.message)
  /-- Without diagnostics it makes no difference whether a run is strict. -/
  output_of_zero : ∀ tokens json, (report tokens json false).status = some 0 →
    (report tokens json true).output = (report tokens json false).output
  /-- With diagnostics a strict run leaves out the program, between the tokens and the diagnostics,
  and nothing else. -/
  output_of_one : ∀ tokens json, (report tokens json false).status = some 1 →
    (report tokens json false).output =
        FrontEnd.tokenPart tokens text ++
          (FrontEnd.programText json (parse text).program ++ "\n") ++
          Listing.ofMessages (parse text).messages ∧
      (report tokens json true).output =
        FrontEnd.tokenPart tokens text ++ Listing.ofMessages (parse text).messages

variable {options : RunOptions} {input : List Session.Input} {verbose strict : Bool}

theorem ofRun_runText_of_nil (h : (parse text).diagnostics = []) :
    Report.ofRun (FrontEnd.runText options text) =
      ⟨FrontEnd.tokenPart options.tokens text ++
        (FrontEnd.programText options.json (parse text).program ++ "\n"), "", some 0⟩ := by
  simp [FrontEnd.runText, h, Report.ofRun]

theorem ofRun_runText_of_ne_nil (h : (parse text).diagnostics ≠ []) :
    Report.ofRun (FrontEnd.runText options text) =
      ⟨FrontEnd.tokenPart options.tokens text ++
        (if options.strict then "" else
          FrontEnd.programText options.json (parse text).program ++ "\n") ++
        Listing.ofMessages (parse text).messages, "", some 1⟩ := by
  cases hs : options.strict <;> simp [FrontEnd.runText, h, Report.ofRun, hs]

theorem report_of_standsFor (h : StandsFor files source inline text) :
    report files input verbose source inline tokens json strict =
      Report.ofRun (FrontEnd.runText ⟨inline, tokens, json, strict⟩ text) := by
  simp [report, Options.action, Action.perform, FrontEnd.run, FrontEnd.readSource_of_standsFor h]

theorem failed_of_noText (h : inline = false ∧ Unreadable files source) :
    (report files input verbose source inline tokens json strict).Failed := by
  obtain ⟨e, he⟩ := FrontEnd.readSource_eq_error_iff.mpr h
  have hr : report files input verbose source inline tokens json strict =
      ⟨"", "[error] >>> " ++ e.message ++ "\n", some 2⟩ := by
    simp [report, Options.action, Action.perform, FrontEnd.run, he, Report.ofRun]
  rw [hr]
  exact ⟨rfl, rfl, e, rfl⟩

theorem settled_of_nil (hd : (parse text).diagnostics = []) :
    Settled text fun tokens json strict =>
      Report.ofRun (FrontEnd.runText ⟨inline, tokens, json, strict⟩ text) where
  errors _ _ _ := by rw [ofRun_runText_of_nil hd]
  status_one _ _ _ := by simp [ofRun_runText_of_nil hd, hd]
  status_zero _ _ _ := by simp [ofRun_runText_of_nil hd, hd]
  strict_output _ _ := by simp [ofRun_runText_of_nil hd, parseStrict, Reading.strict, hd]
  output_of_zero _ _ _ := by simp only [ofRun_runText_of_nil hd]
  output_of_one _ _ h := by simp [ofRun_runText_of_nil hd] at h

theorem settled_of_ne_nil (hd : (parse text).diagnostics ≠ []) :
    Settled text fun tokens json strict =>
      Report.ofRun (FrontEnd.runText ⟨inline, tokens, json, strict⟩ text) where
  errors _ _ _ := by rw [ofRun_runText_of_ne_nil hd]
  status_one _ _ _ := by simp [ofRun_runText_of_ne_nil hd, hd]
  status_zero _ _ _ := by simp [ofRun_runText_of_ne_nil hd, hd]
  strict_output _ _ := by
    simp [ofRun_runText_of_ne_nil hd, parseStrict, Reading.strict, Reading.messages, hd]
  output_of_zero _ _ h := by simp [ofRun_runText_of_ne_nil hd] at h
  output_of_one _ _ _ := by simp [ofRun_runText_of_ne_nil hd]

theorem settled_of_standsFor (h : StandsFor files source inline text) :
    Settled text (report files input verbose source inline) := by
  have hreport : report files input verbose source inline = fun tokens json strict =>
      Report.ofRun (FrontEnd.runText ⟨inline, tokens, json, strict⟩ text) := by
    funext tokens json strict
    exact report_of_standsFor h
  rw [hreport]
  by_cases hd : (parse text).diagnostics = []
  · exact settled_of_nil hd
  · exact settled_of_ne_nil hd

/-- **Status, strictness and output agree.** For every source, every file system and all options, an
invocation fails exactly if the source is the name of a file that gives no text: a name that does
not end in `.monkey` or contains U+0000, or that of nothing, of a directory, or of bytes that are
not UTF-8. Every other source is a text, and then the text alone decides between the statuses zero
and one, and a strict run prints what any other does, less the program if there are diagnostics. -/
theorem report_settled (files : FileView) (input : List Session.Input) (verbose : Bool)
    (source : String) (inline : Bool) :
    (∀ tokens json strict, (report files input verbose source inline tokens json strict).Failed ↔
      inline = false ∧ Unreadable files source) ∧
    ((inline = false ∧ Unreadable files source) ∨
      ∃ text, StandsFor files source inline text ∧
        Settled text (report files input verbose source inline)) := by
  constructor
  · intro tokens json strict
    refine ⟨fun hfailed => ?_, failed_of_noText⟩
    refine (FrontEnd.noText_or_standsFor files source inline).resolve_right ?_
    rintro ⟨text, ht⟩
    obtain ⟨e, he⟩ := hfailed.errors
    simp [(settled_of_standsFor ht).errors] at he
  · exact (FrontEnd.noText_or_standsFor files source inline).imp_right fun ⟨text, ht⟩ =>
      ⟨text, ht, settled_of_standsFor ht⟩

end CommandLine

end MonkeySyntax
