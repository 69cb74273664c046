import Vyraz.Program
import Vyraz.Proofs.Provenance

namespace Vyraz

namespace Diagnostic

variable {d : Diagnostic} {source : List Char}

def PointsInto (d : Diagnostic) (source : List Char) : Prop :=
  ∃ before text after, d.span.Holds source before text after ∧ text ≠ []

theorem PointsInto.lastByte_succ (h : d.PointsInto source) : d.lastByte + 1 = d.span.stop := by
  rcases h with ⟨before, text, after, hholds, hne⟩
  have := hholds.start_lt_stop hne
  unfold lastByte
  omega

theorem PointsInto.lastByte_lt (h : d.PointsInto source) : d.lastByte < Text.size source := by
  have hlast := h.lastByte_succ
  rcases h with ⟨before, text, after, hholds, -⟩
  have := hholds.stop_le
  omega

theorem PointsInto.extent_eq (h : d.PointsInto source) : d.extent source = .full := by
  have hlast := h.lastByte_succ
  have hlt := h.lastByte_lt
  rcases h with ⟨before, text, after, hholds, hne⟩
  have hstart := hholds.start_lt_stop hne
  unfold extent
  dsimp only
  rw [hlast]
  rw [if_neg (by omega)]
  rw [if_neg (by simp [hholds.isBoundary_start])]
  rw [if_neg (by omega)]
  rw [if_neg (by simp [hholds.isBoundary_stop])]

theorem lastByte_eq_of_end (h : d.span = ⟨Text.size source, Text.size source⟩) :
    d.lastByte = Text.size source := by
  unfold lastByte
  rw [h]
  dsimp only
  omega

theorem extent_eq_of_end (h : d.span = ⟨Text.size source, Text.size source⟩) :
    d.extent source = .crash := by
  have hstart : Text.isBoundary (Text.size source) source := by
    simpa using Text.isBoundary_size_append source []
  have hbeyond : Text.isBoundary (Text.size source + 1) source = false := by
    rw [Bool.eq_false_iff]
    intro hboundary
    have := Text.le_size_of_isBoundary hboundary
    omega
  unfold extent
  dsimp only
  rw [lastByte_eq_of_end h, h]
  dsimp only
  rw [if_neg (by omega)]
  rw [if_neg (by simp [hstart])]
  rw [if_neg (by omega)]
  rw [if_pos (by simp [hbeyond])]

def fullText (d : Diagnostic) (name : String) (source : List Char) : String :=
  d.headerLine ++ d.placeLines name source

end Diagnostic

namespace Report

theorem ofDiagnostics.go_of_full {name : String} {source : List Char} {ds : List Diagnostic}
    (h : ∀ d ∈ ds, d.extent source = .full) (text : String) :
    ofDiagnostics.go name source text ds =
      ⟨text ++ String.join (ds.map fun d => d.fullText name source), false⟩ := by
  induction ds generalizing text with
  | nil => simp [go]
  | cons d ds ih =>
    rw [List.forall_mem_cons] at h
    have hprint : d.print name source = ⟨d.fullText name source, false⟩ := by
      unfold Diagnostic.print
      rw [h.1]
      rfl
    unfold go
    rw [hprint]
    dsimp only
    rw [if_neg (by simp), ih h.2]
    rw [List.map_cons, String.join_cons, String.append_assoc]

theorem ofDiagnostics_of_full {name : String} {source : List Char} {ds : List Diagnostic}
    (h : ∀ d ∈ ds, d.extent source = .full) :
    ofDiagnostics name source ds =
      ⟨String.join (ds.map fun d => d.fullText name source), false⟩ := by
  rw [ofDiagnostics, ofDiagnostics.go_of_full h, String.empty_append]

theorem ofDiagnostics_of_crash {name : String} {source : List Char} {d : Diagnostic}
    (h : d.extent source = .crash) : ofDiagnostics name source [d] = ⟨d.headerLine, true⟩ := by
  have hprint : d.print name source = ⟨d.headerLine, true⟩ := by
    unfold Diagnostic.print
    rw [h]
  unfold ofDiagnostics ofDiagnostics.go
  rw [hprint]
  simp

end Report

section

variable {source : String}

theorem pointsInto_of_mem_tokens {d : Diagnostic} {t : Token} (hspan : d.span = t.span)
    (h : t ∈ (scan source).tokens ∧ t.kind.isEof = false) : d.PointsInto source.toList := by
  rcases exists_cutFrom_of_mem_tokens h.1 h.2 with ⟨before, text, after, hfrom⟩
  refine ⟨before, text, after, ?_, hfrom.cut.text_ne_nil⟩
  rw [hspan]
  exact hfrom.holds

theorem pointsInto_of_mem_errors {e : LexError} (h : e ∈ (scan source).errors) :
    (e.diagnostic source.toList).PointsInto source.toList := by
  rcases exists_cutFrom_of_mem_errors h with ⟨before, text, after, hfrom⟩
  exact ⟨before, text, after, hfrom.holds, hfrom.cut.text_ne_nil⟩

def Failure.AtEnd : Failure → Prop
  | grammar e => e.token.kind = .eof
  | _ => False

theorem run_pointsInto {f : Failure} (h : run source = .error f) (hend : ¬f.AtEnd) :
    ∀ d ∈ f.diagnostics source.toList, d.PointsInto source.toList := by
  cases f with
  | lexical errors =>
    rw [Failure.diagnostics, List.forall_mem_map, ← (run_lexical_errors h).2]
    intro e he
    exact pointsInto_of_mem_errors he
  | grammar e =>
    rw [Failure.diagnostics, List.forall_mem_singleton]
    rcases run_grammar_token h with htoken | ⟨htoken, -⟩
    . exact pointsInto_of_mem_tokens rfl htoken
    . exact absurd (congrArg Token.kind htoken) hend
  | evaluation e =>
    rw [Failure.diagnostics, List.forall_mem_singleton]
    exact pointsInto_of_mem_tokens rfl (run_evaluation_token h)

theorem run_grammar_atEnd {e : ParseError} (h : run source = .error (.grammar e))
    (hend : e.token.kind = .eof) :
    (e.cause = .expectExpression ∨ e.cause = .unclosedGrouping)
      ∧ e.diagnostic.span = ⟨Text.size source.toList, Text.size source.toList⟩ := by
  rcases run_grammar_token h with ⟨-, hkind⟩ | ⟨htoken, hcause⟩
  . rw [hend] at hkind
    contradiction
  . refine ⟨hcause, ?_⟩
    rw [ParseError.diagnostic, htoken, endOf_span, Text.size_toList]

theorem run_lastByte {f : Failure} (h : run source = .error f) {d : Diagnostic}
    (hd : d ∈ f.diagnostics source.toList) :
    d.lastByte ≤ source.utf8ByteSize ∧ (d.lastByte = source.utf8ByteSize ↔ f.AtEnd) := by
  rw [← Text.size_toList]
  by_cases hend : f.AtEnd
  . cases f with
    | grammar e =>
      rw [Failure.diagnostics, List.mem_singleton] at hd
      have hlast := Diagnostic.lastByte_eq_of_end (run_grammar_atEnd h hend).2
      rw [hd]
      exact ⟨Nat.le_of_eq hlast, iff_of_true hlast hend⟩
    | lexical _ | evaluation _ => exact hend.elim
  . have hlt := (run_pointsInto h hend d hd).lastByte_lt
    exact ⟨Nat.le_of_lt hlt, iff_of_false (Nat.ne_of_lt hlt) hend⟩

theorem report_of_run {f : Failure} (h : run source = .error f) (hend : ¬f.AtEnd) (name : String) :
    f.report name source =
      ⟨String.join ((f.diagnostics source.toList).map fun d => d.fullText name source.toList),
        false⟩ := by
  apply Report.ofDiagnostics_of_full
  intro d hd
  exact (run_pointsInto h hend d hd).extent_eq

theorem report_of_run_atEnd {e : ParseError} (h : run source = .error (.grammar e))
    (hend : e.token.kind = .eof) (name : String) :
    (Failure.grammar e).report name source = ⟨e.diagnostic.headerLine, true⟩ := by
  apply Report.ofDiagnostics_of_crash
  exact Diagnostic.extent_eq_of_end (run_grammar_atEnd h hend).2

end

namespace Program

variable {path source : String}

theorem script_of_ok {v : Value} (h : Vyraz.run source = .ok v) :
    script path source = ⟨0, v.text ++ "\n", "", none⟩ := by
  rw [script, h]

theorem script_of_error {f : Failure} (h : Vyraz.run source = .error f) (hend : ¬f.AtEnd) :
    script path source =
      ⟨f.exitCode, "",
        String.join ((f.diagnostics source.toList).map fun d => d.fullText path source.toList),
        none⟩ := by
  rw [script, h]
  dsimp only
  rw [report_of_run h hend]
  rfl

theorem script_of_atEnd {e : ParseError} (h : Vyraz.run source = .error (.grammar e))
    (hend : e.token.kind = .eof) :
    script path source = ⟨crashCode, "", e.diagnostic.headerLine, none⟩ := by
  rw [script, h]
  dsimp only
  rw [report_of_run_atEnd h hend]
  rfl

theorem run_eq_script {s : Surroundings} (harguments : s.arguments = [path])
    (hread : s.read path = .ok source.toUTF8) : run s = script path source := by
  rw [run, harguments]
  dsimp only
  rw [hread]
  unfold runFile
  dsimp only
  rw [Text.fromUTF8?_toUTF8]

/--
A script that can be read prints its value, or it prints nothing and reports what is wrong. All
reports are full but that of an error at the end of the source: there its label would begin behind
the last byte, so nothing but the header is written. No label ever lies beyond that.
-/
theorem run_script_outcome (s : Surroundings) (path source : String)
    (harguments : s.arguments = [path]) (hread : s.read path = .ok source.toUTF8) :
    (∀ v, Vyraz.run source = .ok v → run s = ⟨0, v.text ++ "\n", "", none⟩)
      ∧ (∀ errors, Vyraz.run source = .error (.lexical errors) →
          errors = (scan source).errors ∧ errors ≠ []
            ∧ run s = ⟨65, "", String.join (errors.map fun e =>
                (e.diagnostic source.toList).fullText path source.toList), none⟩)
      ∧ (∀ e, Vyraz.run source = .error (.grammar e) → e.token.kind ≠ .eof →
          run s = ⟨65, "", e.diagnostic.fullText path source.toList, none⟩)
      ∧ (∀ e, Vyraz.run source = .error (.grammar e) → e.token.kind = .eof →
          (e.cause = .expectExpression ∨ e.cause = .unclosedGrouping)
            ∧ run s = ⟨101, "", e.diagnostic.headerLine, none⟩)
      ∧ (∀ e, Vyraz.run source = .error (.evaluation e) →
          run s = ⟨70, "", e.diagnostic.fullText path source.toList, none⟩)
      ∧ ∀ f, Vyraz.run source = .error f → ∀ d ∈ f.diagnostics source.toList,
          d.lastByte ≤ source.utf8ByteSize
            ∧ (d.lastByte = source.utf8ByteSize ↔ f.AtEnd) := by
  rw [run_eq_script harguments hread]
  refine ⟨?_, ?_, ?_, ?_, ?_, ?_⟩
  . intro v h
    exact script_of_ok h
  . intro errors h
    rcases run_lexical_errors h with ⟨hne, rfl⟩
    refine ⟨rfl, hne, ?_⟩
    rw [script_of_error h id, Failure.diagnostics, List.map_map]
    rfl
  . intro e h hend
    rw [script_of_error h hend, Failure.diagnostics]
    simp [Failure.exitCode, Failure.stage, Stage.exitCode, String.join_cons]
  . intro e h hend
    exact ⟨(run_grammar_atEnd h hend).1, script_of_atEnd h hend⟩
  . intro e h
    rw [script_of_error h id, Failure.diagnostics]
    simp [Failure.exitCode, Failure.stage, Stage.exitCode, String.join_cons]
  . intro f h d hd
    exact run_lastByte h hd

def callWith (path source : String) : Surroundings :=
  ⟨[path], none, none, none, .empty, fun _ => .ok source.toUTF8, fun _ => none⟩

theorem run_script_outcome_examples :
    run (callWith "a.mova" "\"а\" + \"б\"") = ⟨0, "аб\n", "", none⟩
      ∧ run (callWith "a.mova" "(\"ґ\"") =
          ⟨101, "", "Error: [line 1] Error at end: Expect ')' after expression.\n", none⟩
      ∧ run (callWith "a.mova" "-\"ґ\"") =
          ⟨70, "", "Error: [line 1] Operand must be a number.\n  at a.mova:1:1\n"
            ++ "  label: Operator '-' failed here\n", none⟩
      ∧ run (callWith "a.mova" "@\n€") =
          ⟨65, "", "Error: [line 1] Unexpected character.\n  at a.mova:1:1\n"
            ++ "  label: '@' is not part of the language\n"
            ++ "Error: [line 2] Unexpected character.\n  at a.mova:2:1\n"
            ++ "  label: '€' is not part of the language\n", none⟩ := by
  have houtcome (source : String) := run_script_outcome (callWith "a.mova" source) _ _ rfl rfl
  have hsum : Vyraz.run "\"а\" + \"б\"" = .ok (.string "аб") := by with_unfolding_all rfl
  have hopen : Vyraz.run "(\"ґ\"" = .error (.grammar ⟨.unclosedGrouping, .endOf "(\"ґ\""⟩) := by
    with_unfolding_all rfl
  have hsign : Vyraz.run "-\"ґ\"" =
      .error (.evaluation ⟨.operandNotNumber, ⟨.symbol .minus, "-", ⟨0, 1⟩, 1⟩⟩) := by
    with_unfolding_all rfl
  have hstrange : Vyraz.run "@\n€" =
      .error (.lexical [⟨.unexpectedCharacter, ⟨0, 1⟩, 1⟩, ⟨.unexpectedCharacter, ⟨2, 5⟩, 2⟩]) := by
    with_unfolding_all rfl
  refine ⟨?_, ?_, ?_, ?_⟩
  . exact (houtcome _).1 _ hsum
  . exact ((houtcome _).2.2.2.1 _ hopen rfl).2
  . exact (houtcome _).2.2.2.2.1 _ hsign
  . exact ((houtcome _).2.1 _ hstrange).2.2

end Program

end Vyraz
