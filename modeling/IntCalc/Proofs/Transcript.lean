import IntCalc.CommandLine.Run
import IntCalc.Proofs.Dialogue
import IntCalc.Proofs.Pieces
import IntCalc.Proofs.Reports

/-!
# What a run prints and saves

An expression is evaluated by a session with a cache, which answers as its calculator does
without one, so what is printed depends on the expressions alone. A report is saved after
everything has been printed, with a library of which only what is documented is known. `Prints`
says what a run does with its expressions (`prints_of_ofStream?`).

An input that cannot be read prints nothing and leaves the files as they are
(`runOptions_of_no_expressions`). A file that is no text can be read all the same if a quit
command stands in front of the mistake and ends in an earlier piece, so a run may print
something (`exists_run_output_of_no_text`). If the results are saved to the place of the standard
output, the report appears there too.
-/

namespace IntCalc.CommandLine

variable {library : TableLibrary} {o : Options} {level : Log.Level} {stdin stream : TextStream}
  {files : FileArea} {expressions : List String}

/-! ## Saving -/

/-- What saving a report on the outcomes leaves of the files, and how the run ends. -/
def saved (library : TableLibrary) (o : Options) (outcomes : List Outcome) (files : FileArea) :
    FileArea × Ending :=
  if o.saveResults then
    match Report.ofOutcomes library outcomes with
    | .error e => (files, .reporting e)
    | .ok rows =>
      let saving := library.save files o.resultsPath (library.csv rows)
      (saving.files, saving.failure.elim (.exit 0) .saving)
  else (files, .exit 0)

/-- Nothing is saved, or the report cannot be made, or it is saved under its path. -/
theorem saved_cases (library : TableLibrary) (o : Options) (outcomes : List Outcome)
    (files : FileArea) :
    (saved library o outcomes files = (files, .exit 0)) ∨
    (o.saveResults = true ∧ ∃ e, Report.ofOutcomes library outcomes = .error e ∧
      saved library o outcomes files = (files, .reporting e)) ∨
    (o.saveResults = true ∧ ∃ text,
      saved library o outcomes files = ((library.save files o.resultsPath text).files,
        (library.save files o.resultsPath text).failure.elim (.exit 0) .saving)) := by
  unfold saved
  split
  · next hsave =>
    split
    · next e he => exact Or.inr (Or.inl ⟨hsave, e, he, rfl⟩)
    · next rows hrows => exact Or.inr (Or.inr ⟨hsave, library.csv rows, rfl⟩)
  · exact Or.inl rfl

/-- A report that cannot be made is one on a very long text. -/
theorem exists_long_of_saved (hlibrary : library.Tables) {e : TableError}
    (h : (saved library o (expressions.map ({} : Calculator).outcome) files).2 = .reporting e) :
    ∃ expression ∈ expressions, 9007199254740992 ≤ expression.length + 1 := by
  by_contra hnone
  obtain ⟨rows, hrows⟩ := Calculator.exists_ofOutcomes (c := {}) hlibrary (by decide)
    fun expression hmem => Nat.lt_of_not_le fun hle => hnone ⟨expression, hmem, hle⟩
  rcases saved_cases library o (expressions.map ({} : Calculator).outcome) files with
    heq | ⟨-, e', he, -⟩ | ⟨-, text, heq⟩
  · rw [heq] at h
    cases h
  · rw [hrows] at he
    cases he
  · rw [heq] at h
    dsimp only at h
    generalize (library.save files o.resultsPath text).failure = failure at h
    cases failure <;> cases h

/-! ## Runs -/

/-- The run prints the message of every expression, evaluated without a cache, each with a
newline behind it. After that the results are saved, if that is asked for, and unless it fails
the run ends well. A report can be made unless an expression is very long. -/
def Prints (library : TableLibrary) (o : Options) (files : FileArea) (expressions : List String)
    (t : Transcript) : Prop :=
  ∃ outcomes, expressions.mapM ({} : Calculator).evaluate = .ok outcomes ∧
    t.output = String.join (outcomes.map fun outcome => outcome.message ++ "\n") ∧
    (t.files, t.ending) = saved library o outcomes files ∧
    ∀ e, t.ending = .reporting e →
      ∃ expression ∈ expressions, 9007199254740992 ≤ expression.length + 1

/-- An expression is evaluated as if there were no cache, and reported on after that. -/
theorem evaluate_eq_report (library : TableLibrary) (o : Options) (expressions : List String) :
    ∃ log, evaluate library o expressions =
      report library o (expressions.map ({} : Calculator).outcome)
        { ending := .exit 0
          lines := (expressions.map ({} : Calculator).outcome).map Outcome.message
          log := log } := by
  have hsession := Session.evaluateAll_eq_ok (s := {})
    (Cache.agrees_empty ({} : Calculator).outcome Settings.default.cacheSize) expressions
  simp only [evaluate, hsession]
  exact ⟨_, rfl⟩

/-- The log apart, what is done with a stream depends on its expressions and on what is to be
saved. -/
theorem process_of_ofStream? (library : TableLibrary) (o : Options)
    (h : Input.ofStream? Settings.default.quitCommands stream = some expressions) :
    let outcomes := expressions.map ({} : Calculator).outcome
    ∃ log log', process library o (.ok stream) =
      { report library o outcomes
          { ending := .exit 0, lines := outcomes.map Outcome.message, log := log } with
        log := log' } := by
  intro outcomes
  obtain ⟨log, heval⟩ := evaluate_eq_report library o expressions
  refine ⟨log, (process library o (.ok stream)).log, ?_⟩
  simp only [process, h, heval, outcomes]

/-- A run on a stream that has expressions prints them and saves their report. -/
theorem runOptions_of_ofStream? (library : TableLibrary) (level : Log.Level)
    (hinput : input o stdin files = .ok stream)
    (h : Input.ofStream? Settings.default.quitCommands stream = some expressions) :
    let outcomes := expressions.map ({} : Calculator).outcome
    ∃ log, runOptions library o level stdin files =
      ⟨(saved library o outcomes files).2, printed (outcomes.map Outcome.message), log,
        (saved library o outcomes files).1⟩ := by
  intro outcomes
  obtain ⟨log, log', hprocess⟩ := process_of_ofStream? library o h
  unfold runOptions saved
  rw [hinput, hprocess]
  unfold report
  cases o.saveResults with
  | false => exact ⟨_, rfl⟩
  | true => cases Report.ofOutcomes library outcomes <;> exact ⟨_, rfl⟩

theorem prints_of_ofStream? (hlibrary : library.Tables) (level : Log.Level)
    (hinput : input o stdin files = .ok stream)
    (h : Input.ofStream? Settings.default.quitCommands stream = some expressions) :
    Prints library o files expressions (runOptions library o level stdin files) := by
  obtain ⟨log, hrun⟩ := runOptions_of_ofStream? library level hinput h
  rw [hrun]
  refine ⟨_, Command.mapM_evaluate {} expressions, ?_, rfl, fun e he => ?_⟩
  · rw [printed, List.map_map]
    rfl
  · exact exists_long_of_saved hlibrary he

/-- If the input has no expressions, nothing is printed and nothing is saved. -/
theorem runOptions_of_no_expressions (level : Log.Level)
    (h : ∀ stream, input o stdin files = .ok stream →
      Input.ofStream? Settings.default.quitCommands stream = none) :
    (runOptions library o level stdin files).output = "" ∧
      (runOptions library o level stdin files).files = files := by
  have hprocess : (process library o (input o stdin files)).lines = [] ∧
      (process library o (input o stdin files)).report = none := by
    cases hinput : input o stdin files with
    | error e => cases e <;> exact ⟨rfl, rfl⟩
    | ok stream => simp [process, h stream hinput]
  simp [runOptions, hprocess, printed]

/-- The files are those in front of the run, or those after a text has been saved to the path of
the results. -/
theorem files_runOptions (library : TableLibrary) (o : Options) (level : Log.Level)
    (stdin : TextStream) (files : FileArea) :
    (runOptions library o level stdin files).files = files ∨
      o.saveResults = true ∧ ∃ text, (runOptions library o level stdin files).files =
        (library.save files o.resultsPath text).files := by
  by_cases hread : ∃ stream expressions, input o stdin files = .ok stream ∧
      Input.ofStream? Settings.default.quitCommands stream = some expressions
  · obtain ⟨stream, expressions, hinput, hexpressions⟩ := hread
    obtain ⟨log, hrun⟩ := runOptions_of_ofStream? library level hinput hexpressions
    rw [hrun]
    rcases saved_cases library o (expressions.map ({} : Calculator).outcome) files with
      heq | ⟨-, e, -, heq⟩ | ⟨hsave, text, heq⟩
    · exact Or.inl (congrArg Prod.fst heq)
    · exact Or.inl (congrArg Prod.fst heq)
    · exact Or.inr ⟨hsave, text, congrArg Prod.fst heq⟩
  · refine Or.inl (runOptions_of_no_expressions level fun stream hinput => ?_).2
    exact Option.eq_none_iff_forall_ne_some.2 fun expressions hexpressions =>
      hread ⟨stream, expressions, hinput, hexpressions⟩

/-- The pieces in front of what is no text finish a quit command. -/
def QuitsEarly (quit : List String) (stream : TextStream) (cs : List Char) : Prop :=
  ∃ front back r, stream.pieces = front ++ back ∧
    Utf8.decode none front.flatten = some (cs, r) ∧ Input.Quits quit stream.newlines cs

/-- Whatever the other options are, a run on a text prints the message of every expression and
then saves the results. It does so as well if the input is no text, but begins with one of which
a quit command is known to be finished before the rest is read. Of any other input nothing is
printed and nothing is saved. Nothing but the place of the results ever changes, and nothing but
the messages is ever written to the standard output, unless it is that place. -/
theorem run_transcript (htables : library.Tables) (hsaves : library.Saves)
    {arguments : List String} (hrequest : Request.ofArguments arguments = .run o)
    (hlevel : o.logLevel = some level) (stdin : TextStream) (files : FileArea) :
    let t := run library arguments stdin files
    let quit := Settings.default.quitCommands
    (∀ stream, input o stdin files = .ok stream →
      (∀ text : String, stream.bytes = text.toUTF8.data.toList →
        Prints library o files (Input.ofText quit (stream.newlines.translate text.toList)) t) ∧
      (∀ cs, QuitsEarly quit stream cs →
        Prints library o files (Input.ofText quit (stream.newlines.translate cs)) t) ∧
      ((∀ text : String, stream.bytes ≠ text.toUTF8.data.toList) →
        (∀ cs, ¬ QuitsEarly quit stream cs) → t.output = "" ∧ t.files = files)) ∧
    ((∀ stream, input o stdin files ≠ .ok stream) → t.output = "" ∧ t.files = files) ∧
    (∀ place, t.files.node? place ≠ files.node? place →
      o.saveResults = true ∧ files.place (files.expandHome o.resultsPath) = .ok place) ∧
    (t.files.output ≠ files.output →
      o.saveResults = true ∧ ∃ place, files.place (files.expandHome o.resultsPath) = .ok place ∧
        files.node? place = some .output) := by
  intro t quit
  have ht : t = runOptions library o level stdin files := by
    simp only [t, run, hrequest, hlevel]
  rw [ht]
  refine ⟨fun stream hinput => ⟨fun text htext => ?_, fun cs hquits => ?_, fun htext hquits => ?_⟩,
    fun hinput => ?_, fun place hplace => ?_, fun houtput => ?_⟩
  · exact prints_of_ofStream? htables level hinput
      (Input.ofStream?_of_decode quit (Utf8.decode_eq_some_iff.2 htext))
  · obtain ⟨front, back, r, hpieces, hdecode, hquits⟩ := hquits
    exact prints_of_ofStream? htables level hinput
      (Input.ofStream?_of_quits hpieces hdecode hquits)
  · refine runOptions_of_no_expressions level fun stream' hinput' => ?_
    obtain rfl := Except.ok.inj (hinput.symm.trans hinput')
    refine Option.eq_none_iff_forall_ne_some.2 fun expressions hexpressions => ?_
    rcases Input.exists_of_ofStream? hexpressions with ⟨cs, hcs⟩ | ⟨front, back, cs, r, hearly⟩
    · refine htext (String.ofList cs) (Utf8.decode_eq_some_iff.1 ?_)
      rw [hcs, String.toList_ofList]
    · exact hquits cs ⟨front, back, r, hearly⟩
  · exact runOptions_of_no_expressions level fun stream h => absurd h (hinput stream)
  · rcases files_runOptions library o level stdin files with hfiles | ⟨hsave, text, hfiles⟩ <;>
      rw [hfiles] at hplace
    · exact absurd rfl hplace
    · exact ⟨hsave, hsaves.place hplace⟩
  · rcases files_runOptions library o level stdin files with hfiles | ⟨hsave, text, hfiles⟩ <;>
      rw [hfiles] at houtput
    · exact absurd rfl houtput
    · exact ⟨hsave, hsaves.output houtput⟩

/-- Two lines that arrive in two pieces, and a quit command. The results are saved. -/
theorem run_transcript_two_lines :
    let stdin : TextStream :=
      ⟨["1+2\n(".toUTF8.data.toList, "3\r\nq\n4".toUTF8.data.toList], .newlineOnly⟩
    let t := run .reference ["--save_results", "--log_level=ERROR"] stdin {}
    t.output = "3\nMissing closing \")\" at column (3)!\n" ∧
      (∀ place, t.files.node? place ≠ ({} : FileArea).node? place →
        ({} : FileArea).place "bares_results.csv" = .ok place) ∧
      t.files.output = .empty := by
  intro stdin t
  have hrequest : Request.ofArguments ["--save_results", "--log_level=ERROR"] =
      .run { saveResults := true, logLevel := some .error } := by decide +kernel
  obtain ⟨hread, -, hplace, houtput⟩ := run_transcript TableLibrary.reference_tables
    TableLibrary.reference_saves hrequest rfl stdin {}
  have hbytes : stdin.bytes = "1+2\n(3\r\nq\n4".toUTF8.data.toList := by decide +kernel
  obtain ⟨outcomes, houtcomes, hprinted, -⟩ := (hread stdin rfl).1 _ hbytes
  have hlines : Input.ofText Settings.default.quitCommands
      (stdin.newlines.translate "1+2\n(3\r\nq\n4".toList) = ["1+2", "(3"] := by decide +kernel
  rw [hlines, Command.mapM_evaluate] at houtcomes
  rw [← Except.ok.inj houtcomes] at hprinted
  have hresults : ({} : FileArea).expandHome Settings.default.resultsPath =
      "bares_results.csv" := by decide +kernel
  refine ⟨hprinted.trans (by decide +kernel), fun place hne => ?_, ?_⟩
  · rw [← hresults]
    exact (hplace place hne).2
  · by_contra hne
    obtain ⟨-, place, -, hnode⟩ := houtput hne
    have hempty : ({} : FileArea).node? place ≠ some .output := by
      unfold FileArea.node?
      split
      · exact fun h => nomatch h
      · exact fun h => nomatch h
    exact hempty hnode

/-! ## Runs that print although the input is no text -/

theorem length_encode_replicate (n : Nat) : (Utf8.encode (List.replicate n 'x')).length = n := by
  have hletter : String.utf8EncodeChar 'x' = [120] := by decide
  rw [Utf8.encode, List.flatMap_replicate, hletter, List.length_flatten, List.map_replicate,
    List.sum_replicate_nat]
  exact Nat.mul_one n

/-- An area with one file. -/
def areaOf (bytes : ByteArray) : FileArea :=
  { nodes := [(["f"], .file bytes)] }

theorem read_areaOf (bytes : ByteArray) : (areaOf bytes).read "f" = .ok bytes := by
  have hcheck : Path.check "f" = .ok () := by decide +kernel
  have habsolute : Path.isAbsolute "f" = false := by decide +kernel
  have hsteps : Path.steps "f" = ["f"] := by decide +kernel
  have hslash : Path.endsInSlash "f" = false := by decide +kernel
  have hname : ¬ Path.maxNameBytes < "f".utf8ByteSize := by decide +kernel
  have hstep : FileArea.next [] "f" = ["f"] := by decide +kernel
  have hplace : (areaOf bytes).place "f" = .ok ["f"] := by
    rw [FileArea.place, hcheck, habsolute, hsteps]
    simp only [ok_bind, FileArea.follow, if_neg hname, if_true, Bool.false_eq_true, if_false,
      areaOf, hstep]
  rw [FileArea.read, hplace]
  simp [areaOf, FileArea.node?, hslash]

/-- The run on a file that has expressions prints their messages. -/
theorem output_areaOf {bytes : ByteArray} (stdin : TextStream)
    (h : Input.ofBytes? Settings.default.quitCommands bytes = some expressions) :
    (run library ["--input_path", "f"] stdin (areaOf bytes)).output =
      printed ((expressions.map ({} : Calculator).outcome).map Outcome.message) := by
  have hrequest : Request.ofArguments ["--input_path", "f"] = .run { inputPath := some "f" } := by
    decide +kernel
  have hinput : input { inputPath := some "f" } stdin (areaOf bytes) = .ok (.ofFile bytes) :=
    congrArg (Except.map TextStream.ofFile) (read_areaOf bytes)
  obtain ⟨log, hrun⟩ := runOptions_of_ofStream? library .warning hinput h
  have hoptions : run library ["--input_path", "f"] stdin (areaOf bytes) =
      runOptions library { inputPath := some "f" } .warning stdin (areaOf bytes) := by
    simp only [run, hrequest]
  rw [hoptions, hrun]

/-- A quit command in the first piece of a file keeps a later byte that is no text from being
read. And a report that is saved to the place of the standard output appears there. -/
theorem exists_run_output_of_no_text :
    let front := "1+1\nq\n".toList ++ List.replicate 8186 'x'
    let bytes : ByteArray := ⟨(Utf8.encode front ++ [0xff]).toArray⟩
    let device : FileArea := { nodes := [(["dev"], .directory), (["dev", "stdout"], .output)] }
    ((∀ text : String, bytes ≠ text.toUTF8) ∧
      ∀ stdin, (run .reference ["--input_path", "f"] stdin (areaOf bytes)).output = "2\n") ∧
    (run .reference ["--save_results", "--results_path=/dev/stdout"]
        ⟨["1".toUTF8.data.toList], .newlineOnly⟩ device).files.output.data ≠ #[] := by
  intro front bytes device
  refine ⟨⟨fun text htext => ?_, fun stdin => ?_⟩, by decide +kernel⟩
  · have hdecode : Utf8.decode none (Utf8.encode front ++ [0xff]) = some (text.toList, none) :=
      Utf8.decode_eq_some_iff.2 (congrArg (fun b => b.data.toList) htext)
    rw [Utf8.decode_append, Utf8.decode_encode] at hdecode
    cases hdecode
  · have hline : (Utf8.encode "1+1\nq\n".toList).length = 6 := by decide +kernel
    have happend : Utf8.encode front =
        Utf8.encode "1+1\nq\n".toList ++ Utf8.encode (List.replicate 8186 'x') :=
      List.flatMap_append
    have hlength : (Utf8.encode front).length = TextStream.pieceSize := by
      rw [happend, List.length_append, hline, length_encode_replicate]
      rfl
    have hpieces : (TextStream.ofFile bytes).pieces =
        [Utf8.encode front] ++ TextStream.cut TextStream.pieceSize [0xff] :=
      Input.cut_append (by decide) hlength _
    have hdecode : Utf8.decode none [Utf8.encode front].flatten = some (front, none) := by
      rw [List.flatten_singleton, Utf8.decode_encode]
    have hquits : Input.Quits Settings.default.quitCommands .universal "1+1\nq\n".toList := by
      decide +kernel
    have hexpressions : Input.ofBytes? Settings.default.quitCommands bytes = some ["1+1"] := by
      rw [Input.ofBytes?, Input.ofStream?_of_quits hpieces hdecode (hquits.append _)]
      exact congrArg some ((Input.ofText_translate_append hquits _).trans (by decide +kernel))
    rw [output_areaOf stdin hexpressions]
    decide +kernel

end IntCalc.CommandLine
