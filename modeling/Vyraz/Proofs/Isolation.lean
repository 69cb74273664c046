import Vyraz.Program
import Vyraz.Proofs.Bytes
import Vyraz.Proofs.Turn

namespace Vyraz

namespace Text

theorem splitLines.go_eq (bytes line : List UInt8) (done : List (List UInt8)) :
    go bytes line done = done.reverse ++ go bytes line [] := by
  induction bytes generalizing line done with
  | nil => cases line <;> simp [go]
  | cons b bytes ih =>
    unfold go
    split
    . rw [ih, ih _ [_]]
      simp
    . exact ih _ _

theorem splitLines.go_append {line : List UInt8} (h : 10 ∉ line) (bytes soFar : List UInt8)
    (done : List (List UInt8)) :
    go (line ++ 10 :: bytes) soFar done =
      go bytes [] ((soFar.reverse ++ line ++ [10]) :: done) := by
  induction line generalizing soFar with
  | nil => simp [go]
  | cons b line ih =>
    simp only [List.mem_cons, not_or] at h
    rw [List.cons_append, go, if_neg (Ne.symm h.1), ih h.2]
    simp

theorem splitLines_append {line : List UInt8} (h : 10 ∉ line) (bytes : List UInt8) :
    splitLines (line ++ 10 :: bytes) = (line ++ [10]) :: splitLines bytes := by
  rw [splitLines, splitLines.go_append h, splitLines.go_eq]
  rfl

theorem lines_append {line : List Char} (h : '\n' ∉ line) (rest : List Char) :
    lines (String.ofList (line ++ '\n' :: rest)).toUTF8 =
      some (line ++ ['\n']) :: lines (String.ofList rest).toUTF8 := by
  have hlineFeed : String.utf8EncodeChar '\n' = [10] := by decide
  have hbytes : encode (line ++ '\n' :: rest) = encode line ++ 10 :: encode rest := by
    simp [encode, hlineFeed]
  have hline : encode (line ++ ['\n']) = encode line ++ [10] := by
    simp [encode, hlineFeed]
  rw [lines, lines, toList_toUTF8, toList_toUTF8, String.toList_ofList, String.toList_ofList,
    hbytes, splitLines_append (lineFeed_notMem_encode h), List.map_cons, ← hline, decode?_encode]

theorem cutLineEnd_of_notMem {cs : List Char} (h : '\r' ∉ cs) :
    cutLineEnd (cs ++ ['\n']) = (cs, ['\n']) := by
  unfold cutLineEnd
  split
  . next before heq =>
    simp only [List.reverse_append, List.reverse_singleton, List.singleton_append,
      List.cons.injEq, true_and] at heq
    exfalso
    apply h
    rw [← List.mem_reverse, heq]
    exact List.mem_cons_self
  . next before _ heq =>
    simp only [List.reverse_append, List.reverse_singleton, List.singleton_append,
      List.cons.injEq, true_and] at heq
    rw [← heq, List.reverse_reverse]
  . next hother =>
    exfalso
    apply hother cs.reverse
    simp

end Text

namespace Prompt

/--
A text without carriage returns that the prompt takes as one input: it is whole, but not if it ends
before one of its line feeds. Carrying it out neither ends the session nor crashes it.
-/
structure Standalone (text : String) : Prop where
  noReturn : '\r' ∉ text.toList
  complete : Balance.ofText text = .complete
  incomplete : ∀ before after, text.toList = before ++ '\n' :: after →
    Balance.ofText (String.ofList before) = .incomplete
  noExit : Session.isExit (Text.trim text.toList) = false
  noCrash : trimmed text ≠ "" → (execute (trimmed text)).crashed = false

def prompting (plain : Bool) : Transcript :=
  if plain then .ofOutput Session.question else .empty

def answer (plain : Bool) (input : String) : Transcript :=
  prompting plain ++ if trimmed input ≠ "" then execute (trimmed input) else .empty

def answers (plain : Bool) (inputs : List String) : List Transcript :=
  inputs.map (answer plain)

def written (plain : Bool) (inputs : List String) : Transcript :=
  ⟨String.join ((answers plain inputs).map Transcript.output),
    String.join ((answers plain inputs).map Transcript.errors), false⟩

theorem trimmed_ne_empty {text : String} : trimmed text ≠ "" ↔ Text.trim text.toList ≠ [] := by
  simp [trimmed]

theorem written_cons (plain : Bool) (text : String) (inputs : List String) :
    written plain (text :: inputs) = answer plain text ++ written plain inputs := by
  simp only [written, answers, List.map_cons, String.join_cons]
  rfl

theorem incomplete_of_line {text : String} (h : '\n' ∉ text.toList) (before after : List Char)
    (htext : text.toList = before ++ '\n' :: after) :
    Balance.ofText (String.ofList before) = .incomplete := by
  exfalso
  apply h
  rw [htext]
  simp

namespace Session

theorem ask_start (history : History) (plain : Bool) :
    (start history).ask plain = prompting plain := by
  cases plain with
  | false => rfl
  | true => rfl

theorem ask_of_ne_nil {s : Session} (h : s.buffer ≠ []) (plain : Bool) : s.ask plain = .empty := by
  simp [ask, h]

section

variable {text : String} {history : History}

theorem accept_of_standalone (h : Standalone text) :
    accept history text.toList =
      ⟨if trimmed text ≠ "" then execute (trimmed text) else .empty,
        .goesOn (start (history.add text.toList))⟩ := by
  by_cases hblank : trimmed text = ""
  . rw [if_neg (by simpa using hblank), accept_of_blank]
    simpa [trimmed] using hblank
  . have hcrash := h.noCrash hblank
    rw [trimmed] at hcrash
    rw [accept_of_command _ (trimmed_ne_empty.1 hblank) h.noExit, if_pos hblank, hcrash]
    rfl

theorem feed_of_standalone (h : Standalone text) (hbackspace : Text.backspace ∉ text.toList)
    {before line : List Char} (hfront : before ++ line <+: text.toList) :
    (Session.mk before history).feed (some (line ++ ['\n'])) =
      judge history (before ++ line) ['\n'] := by
  have hreturn : '\r' ∉ before ++ line := fun hmem => h.noReturn (hfront.subset hmem)
  have hbackspace : Text.backspace ∉ before ++ (line ++ ['\n']) := by
    rw [← List.append_assoc, List.mem_append, not_or]
    exact ⟨fun hmem => hbackspace (hfront.subset hmem), by decide⟩
  rw [feed, feedText_of_notMem hbackspace, ← List.append_assoc, Text.cutLineEnd_of_notMem hreturn]

theorem run_of_standalone (h : Standalone text) (hbackspace : Text.backspace ∉ text.toList)
    (plain : Bool) {before after : List Char} (htext : text.toList = before ++ after)
    (rest : List Char) :
    (Session.mk before history).run plain
        (Text.lines (String.ofList (after ++ '\n' :: rest)).toUTF8) =
      ((Session.mk before history).ask plain
          ++ ((accept history text.toList).transcript
            ++ ((start (history.add text.toList)).run plain
              (Text.lines (String.ofList rest).toUTF8)).1),
        ((start (history.add text.toList)).run plain
          (Text.lines (String.ofList rest).toUTF8)).2) := by
  -- The next line is not the last one of the input and is kept in the buffer, or it is the last.
  by_cases hmem : '\n' ∈ after
  . rcases List.eq_append_cons_of_mem hmem with ⟨line, after', rfl, hline⟩
    have hfeed :
        (Session.mk before history).feed (some (line ++ ['\n'])) =
          ⟨.empty, .goesOn ⟨before ++ line ++ ['\n'], history⟩⟩ := by
      rw [feed_of_standalone h hbackspace ⟨'\n' :: after', by simp [htext]⟩]
      apply judge_of_incomplete
      exact h.incomplete _ after' (by simp [htext])
    have hrest : text.toList = before ++ line ++ ['\n'] ++ after' := by simp [htext]
    rw [List.append_assoc, List.cons_append, Text.lines_append hline,
      run_of_goesOn (by rw [hfeed]), hfeed, run_of_standalone h hbackspace plain hrest,
      ask_of_ne_nil (s := ⟨before ++ line ++ ['\n'], history⟩) (by simp)]
    simp [Transcript.append_assoc]
  . have hfeed :
        (Session.mk before history).feed (some (after ++ ['\n'])) =
          accept history text.toList := by
      rw [feed_of_standalone h hbackspace ⟨[], by simp [htext]⟩, ← htext]
      apply judge_of_complete
      rw [String.ofList_toList]
      exact h.complete
    rw [Text.lines_append hmem, run_of_goesOn (by rw [hfeed, accept_of_standalone h]), hfeed,
      Transcript.append_assoc]
termination_by after.length

theorem run_inputs {inputs : List String} (h : ∀ text ∈ inputs, Standalone text)
    (hbackspace : ∀ text ∈ inputs, Text.backspace ∉ text.toList) (plain : Bool)
    (history : History) :
    (start history).run plain (Text.lines (String.join (inputs.map (· ++ "\n"))).toUTF8) =
      (written plain inputs ++ (prompting plain ++ .ofOutput "\nExiting.\n"),
        some (inputs.foldl (fun history text => history.add text.toList) history)) := by
  induction inputs generalizing history with
  | nil =>
    have hlines : Text.lines (String.join []).toUTF8 = [] := by decide +kernel
    rw [List.map_nil, hlines, run_nil, ask_start]
    cases plain with
    | false => rfl
    | true => rfl
  | cons text inputs ih =>
    rw [List.forall_mem_cons] at h hbackspace
    have hjoin :
        String.join ((text :: inputs).map (· ++ "\n")) =
          String.ofList
            (text.toList ++ '\n' :: (String.join (inputs.map (· ++ "\n"))).toList) := by
      apply String.toList_inj.1
      simp [String.join_cons]
    rw [hjoin, start, run_of_standalone h.1 hbackspace.1 plain (List.nil_append _).symm,
      String.ofList_toList, ih h.2 hbackspace.2, accept_of_standalone h.1, written_cons, answer,
      ← ask_start history, List.foldl_cons]
    simp [Transcript.append_assoc, start]

end

end Session

end Prompt

namespace Program

open Prompt

theorem save_of_none (path : String) (t : Transcript) (history : History) :
    (save path none t history).exitCode = 0
      ∧ (save path none t history).output = t.output
      ∧ (save path none t history).errors = t.errors := by
  unfold save
  split
  . exact ⟨rfl, rfl, rfl⟩
  . exact ⟨rfl, rfl, rfl⟩

theorem run_of_session {s : Surroundings} {t : Transcript} {history : History}
    (harguments : s.arguments = [])
    (hpath : s.refusal? (Settings.ofVariables s.editMode s.historyFile).historyFile = none)
    (hsession :
      (Session.start
            (loadHistory
              (s.read (Settings.ofVariables s.editMode s.historyFile).historyFile)).1).run
          (isPlain s.terminal) (Text.lines s.input) =
        (t, some history)) :
    (run s).exitCode = 0
      ∧ (run s).output =
          greeting
              (loadHistory (s.read (Settings.ofVariables s.editMode s.historyFile).historyFile)).2
            ++ t.output
      ∧ (run s).errors = t.errors := by
  have hrun : run s = runPrompt s := by
    rw [run, harguments]
  rw [hrun, runPrompt]
  dsimp only
  rw [hpath, hsession]
  dsimp only
  rcases save_of_none (Settings.ofVariables s.editMode s.historyFile).historyFile _ _ with
    ⟨hexit, houtput, herrors⟩
  refine ⟨hexit, houtput, ?_⟩
  rw [herrors]
  simp [Transcript.ofOutput]

/--
Inputs at the prompt do not hang on one another: what is written for each is what carrying it out
alone writes, whatever is wrong with the others. The inputs have no backspaces, and on a plain
terminal the prompt is in front of each of them and of the end.
-/
theorem run_inputs_in_order {s : Surroundings} {inputs : List String}
    (harguments : s.arguments = [])
    (hpath : s.refusal? (Settings.ofVariables s.editMode s.historyFile).historyFile = none)
    (hinput : s.input = (String.join (inputs.map (· ++ "\n"))).toUTF8)
    (hinputs : ∀ text ∈ inputs, Standalone text)
    (hbackspace : ∀ text ∈ inputs, Text.backspace ∉ text.toList) :
    (run s).exitCode = 0
      ∧ (run s).output =
          greeting
              (loadHistory (s.read (Settings.ofVariables s.editMode s.historyFile).historyFile)).2
            ++ String.join ((answers (isPlain s.terminal) inputs).map Transcript.output)
            ++ (prompting (isPlain s.terminal)).output ++ "\nExiting.\n"
      ∧ (run s).errors =
          String.join ((answers (isPlain s.terminal) inputs).map Transcript.errors) := by
  rcases run_of_session harguments hpath
      (by rw [hinput, Session.run_inputs hinputs hbackspace]) with
    ⟨hexit, houtput, herrors⟩
  refine ⟨hexit, ?_, ?_⟩
  . rw [houtput]
    simp [Transcript.ofOutput, written, String.append_assoc]
  . rw [herrors]
    cases isPlain s.terminal with
    | false => simp [Transcript.ofOutput, Transcript.empty, written, prompting]
    | true => simp [Transcript.ofOutput, written, prompting]

def mixedInputs : List String := ["(// )\n\"(\n\")", "@", " \t", "\"б\""]

def surroundings (terminal : Option String) (inputs : List String) : Surroundings where
  arguments := []
  editMode := none
  historyFile := none
  terminal := terminal
  input := (String.join (inputs.map (· ++ "\n"))).toUTF8
  read := fun _ => .error .notFound
  refusal? := fun _ => none

def mixedReport : String :=
  "Error: [line 1] Unexpected character.\n  at REPL:1:1\n"
    ++ "  label: '@' is not part of the language\n"

theorem answers_mixedInputs :
    answers false mixedInputs =
      [.ofOutput "(\n\n", .ofErrors mixedReport, .empty, .ofOutput "б\n"] := by
  decide +kernel

theorem answers_mixedInputs_plain :
    answers true mixedInputs =
      [.ofOutput "> (\n\n", ⟨"> ", mixedReport, false⟩, .ofOutput "> ", .ofOutput "> б\n"] := by
  decide +kernel

theorem standalone_of_mem_mixedInputs : ∀ text ∈ mixedInputs, Standalone text := by
  intro text hmem
  simp only [mixedInputs, List.mem_cons, List.not_mem_nil, or_false] at hmem
  rcases hmem with rfl | rfl | rfl | rfl
  . refine ⟨by decide, by decide +kernel, ?_, rfl, fun _ => by decide +kernel⟩
    intro before after htext
    have hplaces : ∀ n < 11, "(// )\n\"(\n\")".toList[n]? = some '\n' → n = 5 ∨ n = 8 := by decide
    have hlength : before.length < 11 := by
      have := congrArg List.length htext
      simp only [String.length_toList, List.length_append, List.length_cons] at this
      have : "(// )\n\"(\n\")".length = 11 := by decide
      omega
    have hbefore : before = "(// )\n\"(\n\")".toList.take before.length := by
      rw [htext, List.take_left]
    rcases hplaces before.length hlength (by rw [htext]; simp) with hplace | hplace
    . rw [hbefore, hplace]
      show Balance.ofText "(// )" = .incomplete
      decide +kernel
    . rw [hbefore, hplace]
      show Balance.ofText "(// )\n\"(" = .incomplete
      decide +kernel
  . exact ⟨by decide, by decide +kernel, incomplete_of_line (by decide), rfl,
      fun _ => by decide +kernel⟩
  . refine ⟨by decide, by decide +kernel, incomplete_of_line (by decide), rfl, ?_⟩
    intro hne
    exact absurd rfl hne
  . exact ⟨by decide, by decide +kernel, incomplete_of_line (by decide), rfl,
      fun _ => by decide +kernel⟩

theorem run_inputs_in_order_mixedInputs :
    (∀ text ∈ mixedInputs, Standalone text)
      ∧ (∀ text ∈ mixedInputs, Text.backspace ∉ text.toList)
      ∧ ((run (surroundings none mixedInputs)).exitCode = 0
        ∧ (run (surroundings none mixedInputs)).output =
            greeting false ++ "(\n\n" ++ "б\n" ++ "\nExiting.\n"
        ∧ (run (surroundings none mixedInputs)).errors = mixedReport)
      ∧ ((run (surroundings (some "Emacs") mixedInputs)).exitCode = 0
        ∧ (run (surroundings (some "Emacs") mixedInputs)).output =
            greeting false ++ "> (\n\n" ++ "> " ++ "> " ++ "> б\n" ++ "> \nExiting.\n"
        ∧ (run (surroundings (some "Emacs") mixedInputs)).errors = mixedReport) := by
  have hbackspace : ∀ text ∈ mixedInputs, Text.backspace ∉ text.toList := by decide
  have hplain : isPlain (some "Emacs") = true := by decide
  have hrun (terminal : Option String) :=
    @run_inputs_in_order (surroundings terminal mixedInputs) mixedInputs rfl rfl rfl
      standalone_of_mem_mixedInputs hbackspace
  refine ⟨standalone_of_mem_mixedInputs, hbackspace, ?_, ?_⟩
  . rcases hrun none with ⟨hexit, houtput, herrors⟩
    refine ⟨hexit, ?_, ?_⟩
    . rw [houtput]
      show _ ++ String.join ((answers false mixedInputs).map Transcript.output) ++ _ ++ _ = _
      rw [answers_mixedInputs]
      rfl
    . rw [herrors]
      show String.join ((answers false mixedInputs).map Transcript.errors) = _
      rw [answers_mixedInputs]
      rfl
  . rcases hrun (some "Emacs") with ⟨hexit, houtput, herrors⟩
    refine ⟨hexit, ?_, ?_⟩
    . rw [houtput]
      show _ ++ String.join ((answers (isPlain (some "Emacs")) mixedInputs).map Transcript.output)
        ++ (prompting (isPlain (some "Emacs"))).output ++ _ = _
      rw [hplain, answers_mixedInputs_plain]
      rfl
    . rw [herrors]
      show String.join
        ((answers (isPlain (some "Emacs")) mixedInputs).map Transcript.errors) = _
      rw [hplain, answers_mixedInputs_plain]
      rfl

/-- A backspace takes a faulty input back, and a plain terminal is written prompts. -/
theorem run_inputs_taken_back_and_prompted :
    (Standalone "@\x08"
        ∧ (execute (trimmed "@\x08")).errors ≠ ""
        ∧ (run (surroundings none ["@\x08"])).errors = "")
      ∧
    (Standalone "\"x\""
        ∧ (execute (trimmed "\"x\"")).output = "x\n"
        ∧ (run (surroundings (some "dumb") ["\"x\""])).output =
            greeting false ++ "> x\n> \nExiting.\n") := by
  have hfaulty : Standalone "@\x08" :=
    ⟨by decide, by decide +kernel, incomplete_of_line (by decide), rfl, fun _ => by decide +kernel⟩
  have hstring : Standalone "\"x\"" :=
    ⟨by decide, by decide +kernel, incomplete_of_line (by decide), rfl, fun _ => by decide +kernel⟩
  have hedit : Text.applyBackspaces? (Text.cutLineEnd ([] ++ "@\x08\n".toList)).1 = some [] := by
    decide
  have hfeed : (Session.start .empty).feed (some "@\x08\n".toList) =
      ⟨.empty, .goesOn (Session.start .empty)⟩ := by
    rw [Session.feed, Session.feedText_of_edited hedit]
    with_unfolding_all rfl
  have hlines : Text.lines (surroundings none ["@\x08"]).input = [some "@\x08\n".toList] := by
    decide +kernel
  have htakenBack : (Session.start .empty).run false
        (Text.lines (surroundings none ["@\x08"]).input) =
      (.ofOutput "\nExiting.\n", some .empty) := by
    rw [hlines, Session.run_of_goesOn (by rw [hfeed]), Session.run_nil, hfeed]
    rfl
  have hwritten : written true ["\"x\""] = .ofOutput "> x\n" := by decide +kernel
  have hprompted := @Session.run_inputs ["\"x\""] (by simpa using hstring) (by decide) true .empty
  rw [hwritten] at hprompted
  refine ⟨⟨hfaulty, by decide +kernel, ?_⟩, ⟨hstring, by decide +kernel, ?_⟩⟩
  . rw [(@run_of_session (surroundings none ["@\x08"]) _ _ rfl rfl htakenBack).2.2]
    rfl
  . rw [(@run_of_session (surroundings (some "dumb") ["\"x\""]) _ _ rfl rfl hprompted).2.1]
    rfl

end Program
end Vyraz
