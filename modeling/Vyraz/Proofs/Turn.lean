import Vyraz.Prompt.Session

namespace Vyraz.Prompt

namespace Transcript

@[simp]
theorem append_output (a b : Transcript) : (a ++ b).output = a.output ++ b.output := rfl

@[simp]
theorem append_errors (a b : Transcript) : (a ++ b).errors = a.errors ++ b.errors := rfl

@[simp]
theorem append_crashed (a b : Transcript) : (a ++ b).crashed = b.crashed := rfl

@[simp]
theorem empty_append (t : Transcript) : empty ++ t = t := by
  rcases t with ⟨output, errors, crashed⟩
  show Transcript.mk _ _ _ = _
  simp [empty]

theorem ofErrors_append (as bs : String) : ofErrors (as ++ bs) = ofErrors as ++ ofErrors bs := rfl

theorem append_assoc (a b c : Transcript) : a ++ b ++ c = a ++ (b ++ c) := by
  show Transcript.mk _ _ _ = Transcript.mk _ _ _
  simp [String.append_assoc]

end Transcript

def trimmed (text : String) : String :=
  String.ofList (Text.trim text.toList)

namespace Session

section

variable (history : History) {input : List Char}

theorem accept_of_blank (h : Text.trim input = []) :
    accept history input = ⟨.empty, .goesOn (start (history.add input))⟩ := by
  simp [accept, h]

theorem accept_of_exit (hne : Text.trim input ≠ []) (h : isExit (Text.trim input)) :
    accept history input = ⟨.empty, .ends (history.add input)⟩ := by
  simp [accept, hne, h]

theorem accept_of_command (hne : Text.trim input ≠ []) (h : isExit (Text.trim input) = false) :
    accept history input =
      ⟨execute (String.ofList (Text.trim input)),
        if (execute (String.ofList (Text.trim input))).crashed then
          .crashes
        else
          .goesOn (start (history.add input))⟩ := by
  unfold accept
  dsimp only
  rw [if_neg (by simpa using hne), if_neg (by simpa using h)]

end

section

variable {history : History} {buffer lineEnd : List Char}

theorem judge_of_complete (h : Balance.ofText (String.ofList buffer) = .complete) :
    judge history buffer lineEnd = accept history buffer := by
  simp [judge, h]

theorem judge_of_incomplete (h : Balance.ofText (String.ofList buffer) = .incomplete) :
    judge history buffer lineEnd = ⟨.empty, .goesOn ⟨buffer ++ lineEnd, history⟩⟩ := by
  simp [judge, h]

theorem judge_of_unmatched {offset : Nat}
    (h : Balance.ofText (String.ofList buffer) = .unmatched offset) :
    judge history buffer lineEnd =
      ⟨.ofErrors (((Balance.unmatched offset).complaint?).getD ""), .goesOn ⟨buffer, history⟩⟩ := by
  simp [judge, h]

end

section

variable {s s' : Session} {plain : Bool}

theorem feedText_of_edited {line buffer : List Char}
    (h : Text.applyBackspaces? (Text.cutLineEnd (s.buffer ++ line)).1 = some buffer) :
    s.feedText line = judge s.history buffer (Text.cutLineEnd (s.buffer ++ line)).2 := by
  unfold feedText
  dsimp only
  rw [h]

theorem feedText_of_notMem {line : List Char} (h : Text.backspace ∉ s.buffer ++ line) :
    s.feedText line =
      judge s.history (Text.cutLineEnd (s.buffer ++ line)).1
        (Text.cutLineEnd (s.buffer ++ line)).2 := by
  have hcut : Text.backspace ∉ (Text.cutLineEnd (s.buffer ++ line)).1 := by
    intro hmem
    apply h
    rw [← Text.cutLineEnd_append (s.buffer ++ line)]
    exact List.mem_append_left _ hmem
  exact feedText_of_edited (Text.applyBackspaces?_of_notMem hcut)

theorem run.go_eq (s : Session) (plain : Bool) (lines : List (Option (List Char)))
    (soFar : Transcript) :
    run.go plain s lines soFar = (soFar ++ (s.run plain lines).1, (s.run plain lines).2) := by
  unfold run
  induction lines generalizing s soFar with
  | nil => simp [go, Transcript.append_assoc]
  | cons line lines ih =>
    unfold go
    dsimp only
    cases (s.feed line).next with
    | goesOn s' =>
      dsimp only
      rw [ih, ih s' (.empty ++ s.ask plain ++ _)]
      simp [Transcript.append_assoc]
    | ends history => simp [Transcript.append_assoc]
    | crashes => simp [Transcript.append_assoc]

theorem run_nil : s.run plain [] = (s.ask plain ++ s.close.transcript, some s.history) := by
  simp [run, run.go]

theorem run_of_goesOn {line : Option (List Char)} (h : (s.feed line).next = .goesOn s')
    (lines : List (Option (List Char))) :
    s.run plain (line :: lines) =
      (s.ask plain ++ (s.feed line).transcript ++ (s'.run plain lines).1,
        (s'.run plain lines).2) := by
  rw [run, run.go, h]
  dsimp only
  rw [run.go_eq, Transcript.empty_append]

theorem run_of_ends {line : Option (List Char)} {history : History}
    (h : (s.feed line).next = .ends history) (lines : List (Option (List Char))) :
    s.run plain (line :: lines) = (s.ask plain ++ (s.feed line).transcript, some history) := by
  rw [run, run.go, h]
  simp

end

end Session
end Vyraz.Prompt
