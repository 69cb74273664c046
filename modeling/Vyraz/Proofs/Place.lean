import Mathlib.Data.List.DropRight
import Vyraz.Proofs.Outcome

/-!
This module contains the agreement of the two lines that a report names. One has been counted by
line feeds while the source was scanned, the other is that of a reader of the text, who ends a line
at seven characters. They are the same in a text whose lines end in line feeds only, whether or not
a carriage return is in front of these.
-/

namespace Vyraz

namespace Text

structure PlainLines (cs : List Char) : Prop where
  returns : ∀ i : Nat, cs[i]? = some '\r' → cs[i + 1]? = some '\n'
  others : ∀ c ∈ cs, c ∉ ['\x0b', '\x0c', '\u0085', '\u2028', '\u2029']

def placeBehind (before : List Char) : Location :=
  ⟨1 + before.count '\n', 1 + (before.rtakeWhile (· != '\n')).length⟩

theorem placeBehind_lineFeed (before : List Char) :
    placeBehind (before ++ ['\n']) = ⟨(placeBehind before).line + 1, 1⟩ := by
  simp [placeBehind, Nat.add_assoc]

theorem placeBehind_other {c : Char} (h : c ≠ '\n') (before : List Char) :
    placeBehind (before ++ [c]) =
      ⟨(placeBehind before).line, (placeBehind before).column + 1⟩ := by
  simp [placeBehind, List.count_append, h, Nat.add_assoc]

theorem PlainLines.endsLine_iff {before rest : List Char} {c : Char}
    (h : PlainLines (before ++ c :: rest)) : endsLine c rest ↔ c = '\n' := by
  have hother := h.others c (by simp)
  have hreturn : c = '\r' → rest.head? = some '\n' := by
    intro hc
    have hnext := h.returns before.length (by simp [hc])
    rw [List.getElem?_append_right (Nat.le_succ _)] at hnext
    simpa [List.head?_eq_getElem?] using hnext
  simp only [List.mem_cons, List.not_mem_nil, or_false, not_or] at hother
  constructor
  . intro hend
    simp only [endsLine, isLineEnd, hother, Bool.and_eq_true, Bool.or_eq_true, beq_iff_eq, or_false,
      Bool.not_eq_true', Bool.and_eq_false_imp] at hend
    rcases hend with ⟨hc | hc, hnext⟩
    . assumption
    . have := hnext hc
      simp [hreturn hc] at this
  . intro hc
    rw [hc]
    rfl

theorem locate.go_eq {done ahead after : List Char}
    (h : PlainLines (done ++ (ahead ++ after))) :
    locate.go (size (done ++ ahead)) (ahead ++ after) (size done) (placeBehind done) =
      placeBehind (done ++ ahead) := by
  induction ahead generalizing done with
  | nil =>
    rw [List.append_nil, List.nil_append]
    cases after with
    | nil => rfl
    | cons c after =>
      rw [go]
      rw [if_pos (Nat.le_refl _)]
  | cons c ahead ih =>
    have hdone : done ++ c :: ahead = done ++ [c] ++ ahead := by simp
    have hsize : size (done ++ [c]) = size done + c.utf8Size := by simp
    have hpos := c.utf8Size_pos
    have hrest : PlainLines (done ++ [c] ++ (ahead ++ after)) := by simpa using h
    have hend : endsLine c (ahead ++ after) ↔ c = '\n' := h.endsLine_iff
    rw [List.cons_append, go, hdone, ← hsize]
    rw [if_neg (by rw [size_append, hsize]; omega)]
    by_cases hc : c = '\n'
    . rw [if_pos (hend.2 hc), ← ih hrest, hc, placeBehind_lineFeed]
    . rw [if_neg (by rwa [hend]), ← ih hrest, placeBehind_other hc]

theorem locate_size {before after : List Char} (h : PlainLines (before ++ after)) :
    locate (size before) (before ++ after) = placeBehind before :=
  @locate.go_eq [] before after h

end Text

section

variable {source : String} {f : Failure} {d : Diagnostic}

theorem toString_text (s : String) : toString s = s := rfl

def Diagnostic.NamesLine (d : Diagnostic) (line : Nat) : Prop :=
  ∃ rest, d.header = s!"[line {line}]" ++ rest

theorem LexError.diagnostic_namesLine (e : LexError) (source : List Char) :
    (e.diagnostic source).NamesLine e.line := by
  refine ⟨" " ++ e.cause.message, ?_⟩
  simp [LexError.diagnostic, ← String.toList_inj, toString_text]

theorem ParseError.diagnostic_namesLine (e : ParseError) :
    e.diagnostic.NamesLine e.token.line := by
  refine ⟨s!" Error {e.location}: {e.cause.message}", ?_⟩
  simp [ParseError.diagnostic, ParseError.message, ← String.toList_inj, toString_text]

theorem EvalError.diagnostic_namesLine (e : EvalError) :
    e.diagnostic.NamesLine e.token.line := by
  refine ⟨" " ++ e.cause.message, ?_⟩
  simp [EvalError.diagnostic, ← String.toList_inj, toString_text]

theorem run_diagnostic_namesLine (h : run source = .error f) (hd : d ∈ f.diagnostics source.toList)
    (hfull : d.extent source.toList = .full) :
    ∃ before text after, d.span.Holds source.toList before text after
      ∧ d.NamesLine (1 + before.count '\n') := by
  cases f with
  | lexical errors =>
    rw [Failure.diagnostics, List.mem_map, ← (run_lexical_errors h).2] at hd
    rcases hd with ⟨e, he, rfl⟩
    rcases exists_cutFrom_of_mem_errors he with ⟨before, text, after, hfrom⟩
    refine ⟨before, text, after, hfrom.holds, ?_⟩
    rw [← hfrom.line]
    apply e.diagnostic_namesLine
  | grammar e =>
    rw [Failure.diagnostics, List.mem_singleton] at hd
    rcases run_grammar_token h with ⟨htoken, heof⟩ | ⟨htoken, -⟩
    . rcases exists_cutFrom_of_mem_tokens htoken heof with ⟨before, text, after, hfrom⟩
      refine ⟨before, text, after, ?_, ?_⟩
      . rw [hd]
        exact hfrom.holds
      . rw [← hfrom.line, hd]
        apply e.diagnostic_namesLine
    . -- At the end of the source there is nothing that could be reported in full.
      have hend := (run_grammar_atEnd h (by rw [htoken]; rfl)).2
      rw [hd, Diagnostic.extent_eq_of_end hend] at hfull
      contradiction
  | evaluation e =>
    rw [Failure.diagnostics, List.mem_singleton] at hd
    rcases run_evaluation_token h with ⟨htoken, heof⟩
    rcases exists_cutFrom_of_mem_tokens htoken heof with ⟨before, text, after, hfrom⟩
    refine ⟨before, text, after, ?_, ?_⟩
    . rw [hd]
      exact hfrom.holds
    . rw [← hfrom.line, hd]
      apply e.diagnostic_namesLine

theorem Diagnostic.print_of_full (hfull : d.extent source.toList = .full) {line column : Nat}
    {rest : String} (hheader : d.header = s!"[line {line}]" ++ rest)
    (hplace : Text.locate d.span.start source.toList = ⟨line, column⟩) (name : String) :
    d.print name source.toList =
      ⟨s!"Error: [line {line}]{rest}\n  at {name}:{line}:{column}\n  label: {d.label}\n",
        false⟩ := by
  unfold print
  rw [hfull]
  simp [headerLine, placeLines, hheader, hplace, ← String.toList_inj, toString_text]

/--
The two lines of a report are the same if the lines of the source are plain: that in the header,
which was counted by line feeds, and that of the place as a reader finds it. The column counts the
characters since the last line feed, or since the start of the source.
-/
theorem run_report_lines_agree (hlines : Text.PlainLines source.toList) (h : run source = .error f)
    (hd : d ∈ f.diagnostics source.toList) (hfull : d.extent source.toList = .full)
    (name : String) :
    ∃ before after line column rest,
      source.toList = before ++ after
        ∧ d.span.start = Text.size before
        ∧ d.header = s!"[line {line}]" ++ rest
        ∧ Text.locate d.span.start source.toList = ⟨line, column⟩
        ∧ column = 1 + (before.rtakeWhile (· != '\n')).length
        ∧ d.print name source.toList =
          ⟨s!"Error: [line {line}]{rest}\n  at {name}:{line}:{column}\n  label: {d.label}\n",
            false⟩ := by
  rcases run_diagnostic_namesLine h hd hfull with ⟨before, text, after, hholds, rest, hheader⟩
  have hplace : Text.locate d.span.start source.toList = Text.placeBehind before := by
    rw [hholds.split] at hlines
    rw [hholds.start, hholds.split]
    exact Text.locate_size hlines
  exact ⟨before, text ++ after, _, _, rest, hholds.split, hholds.start, hheader, hplace, rfl,
    Diagnostic.print_of_full hfull hheader hplace name⟩

end

def returnsSource : String := "\"а\r\n\"\r\n  - \"ї\""

def returnsError : EvalError :=
  ⟨.operandsNotNumbers, ⟨.symbol .minus, "-", ⟨10, 11⟩, 3⟩⟩

theorem toList_returnsSource : returnsSource.toList =
    ['"', 'а', '\r', '\n', '"', '\r', '\n', ' ', ' ', '-', ' ', '"', 'ї', '"'] := by
  decide +kernel

theorem plainLines_returnsSource : Text.PlainLines returnsSource.toList where
  returns := by
    intro i hi
    rw [toList_returnsSource] at *
    match i with
    | 2 | 5 => rfl
    | 0 | 1 | 3 | 4 | 6 | 7 | 8 | 9 | 10 | 11 | 12 | 13 | i + 14 => simp at hi
  others := by
    rw [toList_returnsSource]
    simp

theorem run_report_lines_agree_returnsSource :
    Text.PlainLines returnsSource.toList
      ∧ run returnsSource = .error (.evaluation returnsError)
      ∧ ∃ d ∈ (Failure.evaluation returnsError).diagnostics returnsSource.toList,
        d.extent returnsSource.toList = .full
          ∧ ∀ name, ∃ before after line column rest,
            returnsSource.toList = before ++ after
              ∧ d.span.start = Text.size before
              ∧ d.header = s!"[line {line}]" ++ rest
              ∧ Text.locate d.span.start returnsSource.toList = ⟨line, column⟩
              ∧ column = 1 + (before.rtakeWhile (· != '\n')).length
              ∧ d.print name returnsSource.toList =
                ⟨s!"Error: [line {line}]{rest}\n  at {name}:{line}:{column}\n  label: {d.label}\n",
                  false⟩ := by
  have hrun : run returnsSource = .error (.evaluation returnsError) := by with_unfolding_all rfl
  have hfull : returnsError.diagnostic.extent returnsSource.toList = .full := rfl
  have hd : returnsError.diagnostic ∈
      (Failure.evaluation returnsError).diagnostics returnsSource.toList := by
    apply List.mem_singleton_self
  refine ⟨plainLines_returnsSource, hrun, _, hd, hfull, ?_⟩
  exact run_report_lines_agree plainLines_returnsSource hrun hd hfull

end Vyraz
