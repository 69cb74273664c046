import Vyraz.Proofs.Compose
import Vyraz.Proofs.Ending
import Vyraz.Proofs.Outcome
import Vyraz.Proofs.Turn
import Vyraz.Proofs.Viable

namespace Vyraz

namespace Parse

open Prompt

variable {limit : Option Nat} {tokens : List Token} {s s' : State}

def State.groups : State → Nat
  | operand stack => Parse.groups stack
  | operator stack _ => Parse.groups stack

theorem groups_complete (stack : List Frame) (e : Expr) :
    (complete stack e).groups = groups stack := by
  rcases complete_eq_operator stack e with ⟨rest, whole, hcomplete, hgroups⟩
  rw [hcomplete]
  exact hgroups

theorem climb?_of_op {token : Token} {op : BinaryOp}
    (hop : BinaryOp.ofKind? token.kind = some op) (depth : Nat) :
    climb? depth token = some depth := by
  rw [BinaryOp.ofKind?_eq_some_iff] at hop
  apply climb?_other
  . rw [hop]
    cases op <;> simp [BinaryOp.symbol]
  . rw [hop]
    cases op <;> simp [BinaryOp.symbol]

theorem climb?_of_sign {token : Token} {op : UnaryOp}
    (hop : UnaryOp.ofKind? token.kind = some op) (depth : Nat) :
    climb? depth token = some depth := by
  rw [UnaryOp.ofKind?_eq_some_iff] at hop
  apply climb?_other
  . rw [hop]
    cases op <;> simp [UnaryOp.symbol]
  . rw [hop]
    cases op <;> simp [UnaryOp.symbol]

theorem climb?_of_literal {token : Token} {v : Value} (hkind : token.kind = v.kind) (depth : Nat) :
    climb? depth token = some depth := by
  have hsymbol (s : Symbol) : v.kind ≠ .symbol s := by
    cases v with
    | bool b => cases b <;> simp [Value.kind]
    | _ => simp [Value.kind]
  apply climb?_other
  . rw [hkind]
    apply hsymbol
  . rw [hkind]
    apply hsymbol

theorem Move.climb?_groups {token : Token} (h : Move limit token s s') :
    climb? s.groups token = some s'.groups := by
  cases h with
  | literal hkind => rw [climb?_of_literal hkind, groups_complete, State.groups]
  | openGroup hkind => rw [climb?_leftParen hkind, State.groups, State.groups, groups_group]
  | openUnary hop => rw [climb?_of_sign hop, State.groups, State.groups, groups_unary]
  | @operator stack rest left whole op hop hreduce =>
    have hgroups := groups_reduce op.precedence stack left
    rw [hreduce] at hgroups
    rw [climb?_of_op hop, State.groups, State.groups, groups_binary, hgroups]
  | @closeGroup stack rest left inner hkind hreduce =>
    have hgroups := groups_reduce 0 stack left
    rw [hreduce, groups_group] at hgroups
    rw [climb?_rightParen hkind, groups_complete, State.groups, ← hgroups]
    simp

theorem Leads.openBehind?_groups (h : Leads limit (.operand []) tokens s) :
    openBehind? 0 tokens = some s.groups := by
  have hstart : openBehind? 0 [] = some (State.operand []).groups := rfl
  refine h.invariant (P := fun taken s => openBehind? 0 taken = some s.groups) ?_ hstart
  intro taken token s s' hs hmove
  rw [openBehind?_append, hs, Option.bind_some, openBehind?_cons, hmove.climb?_groups]
  rfl

theorem openBehind?_of_within {e : Expr} (h : within limit tokens = .ok e) :
    openBehind? 0 (body tokens) = some 0 := by
  rcases within_eq_ok_iff.1 h with ⟨stack, left, hrun, hreduce⟩
  have hgroups := groups_reduce 0 stack left
  rw [hreduce] at hgroups
  rw [hrun.openBehind?_groups, State.groups, ← hgroups]
  rfl

theorem openBehind?_of_unclosed {err : ParseError} (h : within limit tokens = .error err)
    (hcause : err.cause = .unclosedGrouping) (heof : err.token.kind = .eof) :
    openBehind? 0 (body tokens) ≠ some 0 := by
  unfold within at h
  split at h
  . next s hrun =>
    have hrun : Leads limit (.operand []) (body tokens) s := hrun
    rw [hrun.openBehind?_groups]
    cases s with
    | operand stack =>
      cases h
      contradiction
    | operator stack left =>
      unfold finish at h
      dsimp only at h
      split at h
      . contradiction
      . next hrest =>
        -- The reader stops here since a frame is left when all operators are closed.
        rcases (reached_of_leads hrun).1.reduce_cases with ⟨-, hnil⟩ | ⟨rest, hgroups, -⟩
        . exact (hrest _ (Prod.ext hnil rfl)).elim
        . rw [State.groups, hgroups]
          simp
  . next hrun =>
    cases h
    have hmem := foldlM_error_token_mem hrun
    have : err.token.kind.isEof = false := by simpa using List.mem_takeWhile_imp hmem
    rw [heof] at this
    contradiction

end Parse

namespace Prompt

theorem ofText_of_parse {text : String} {e : Expr} (h : parse text = .ok e) :
    Balance.ofText text = .complete := by
  rcases parse_eq_ok_iff_ofTokens.1 h with ⟨herrors, hread⟩
  rw [Balance.ofText_eq_complete_iff_ofTokens, herrors, openBehind?_scan, ← body_scan]
  exact ⟨by simp, Parse.openBehind?_of_within hread⟩

theorem cause_of_complete {text : String} {err : ParseError}
    (hwhole : Balance.ofText text = .complete) (h : parse text = .error (.grammar err))
    (heof : err.token.kind = .eof) : err.cause ≠ .unclosedGrouping := by
  intro hcause
  have hrun : run text = .error (.grammar err) := by rw [run, h]
  rw [run_eq_runTokens hrun (by simp), runTokens_eq_grammar_iff] at hrun
  apply Parse.openBehind?_of_unclosed hrun hcause heof
  rw [body_scan, ← openBehind?_scan]
  exact (Balance.ofText_eq_complete_iff_ofTokens.1 hwhole).2

section

variable {cs : List Char}

theorem notMem_marks_of_isSpace {c : Char} (h : Text.isSpace c) : c ∉ Ending.marks :=
  Ending.notMem_marks (by decide) h

theorem closed_trimStart_iff (cs : List Char) :
    Ending.Closed (Text.trimStart cs) ↔ Ending.Closed cs := by
  have hspaces : ∀ c ∈ cs.takeWhile Text.isSpace, c ∉ Ending.marks := by
    intro c hc
    exact notMem_marks_of_isSpace (List.mem_takeWhile_imp hc)
  rw [← Ending.closed_append_iff hspaces, Text.trimStart, List.takeWhile_append_dropWhile]

theorem closed_trimEnd (h : Ending.Closed cs) : Ending.Closed (Text.trimEnd cs) := by
  have hspaces : ∀ c ∈ (cs.reverse.takeWhile Text.isSpace).reverse, c ∉ Ending.marks := by
    intro c hc
    exact notMem_marks_of_isSpace (List.mem_takeWhile_imp (List.mem_reverse.1 hc))
  apply Ending.Closed.of_append _ hspaces
  rw [Text.trimEnd, ← List.reverse_append, List.takeWhile_append_dropWhile, List.reverse_reverse]
  exact h

theorem closed_trim (h : Ending.Closed cs) : Ending.Closed (Text.trim cs) := by
  apply closed_trimEnd
  rw [closed_trimStart_iff]
  exact h

end

namespace Command

def source : Command → String
  | tokens source => source
  | tree source => source
  | evaluate source => source

theorem append_of_after? {word cs rest : List Char} (h : after? word cs = some rest) :
    word ++ rest = cs := by
  unfold after? at h
  split at h
  . next hword =>
    cases h
    exact List.prefix_iff_eq_append.1 (List.isPrefixOf_iff_prefix.1 hword)
  . contradiction

theorem closed_after? {word cs rest : List Char} (hword : ∀ c ∈ word, c ∉ Ending.marks)
    (hafter : after? word cs = some rest) (h : Ending.Closed cs) :
    Ending.Closed (Text.trimStart rest) := by
  rw [← append_of_after? hafter, Ending.closed_append_iff hword] at h
  rw [closed_trimStart_iff]
  exact h

theorem closed_source {input : String} (h : Ending.Closed input.toList) :
    Ending.Closed (ofInput input).source.toList := by
  unfold ofInput
  split
  . next hafter =>
    rw [source, String.toList_ofList]
    exact closed_after? (by simp [Ending.marks]) hafter h
  . split
    . next hafter =>
      rw [source, String.toList_ofList]
      exact closed_after? (by simp [Ending.marks]) hafter h
    . exact h

end Command

theorem complete_of_mem {text source : String} (h : Balance.ofText text = .complete)
    (hsource : source ∈ [text, trimmed text, (Command.ofInput (trimmed text)).source]) :
    Balance.ofText source = .complete := by
  rw [Balance.ofText_eq_complete_iff] at h ⊢
  have htrimmed : Ending.Closed (trimmed text).toList := by
    rw [trimmed, String.toList_ofList]
    exact closed_trim h
  simp only [List.mem_cons, List.not_mem_nil, or_false] at hsource
  rcases hsource with heq | heq | heq
  . rw [heq]
    exact h
  . rw [heq]
    exact htrimmed
  . rw [heq]
    exact Command.closed_source htrimmed

end Prompt

section

variable {source : String}

theorem run_of_parse_eq_error {f : Failure} (h : parse source = .error f) :
    run source = .error f := by
  rw [run, h]

theorem parse_of_run_eq_grammar {err : ParseError} (h : run source = .error (.grammar err)) :
    parse source = .error (.grammar err) := by
  unfold run at h
  split at h
  . next hparse =>
    cases h
    exact hparse
  . split at h
    . cases h
    . cases h

theorem atEnd_of_report_crashed {f : Failure} {name : String} (h : run source = .error f)
    (hcrash : (f.report name source).crashed) :
    ∃ err, parse source = .error (.grammar err) ∧ err.token.kind = .eof
      ∧ f.report name source = ⟨err.diagnostic.headerLine, true⟩ := by
  by_cases hend : f.AtEnd
  . cases f with
    | grammar err => exact ⟨err, parse_of_run_eq_grammar h, hend, report_of_run_atEnd h hend name⟩
    | lexical _ | evaluation _ => exact hend.elim
  . rw [report_of_run h hend] at hcrash
    contradiction

end

namespace Prompt

theorem Command.atEnd_of_execute_crashed {c : Command} (h : c.execute.crashed) :
    (c = .tree c.source ∨ c = .evaluate c.source)
      ∧ ∃ err, parse c.source = .error (.grammar err) ∧ err.token.kind = .eof
        ∧ c.execute = ⟨"", err.diagnostic.headerLine, true⟩ := by
  cases c with
  | tokens source =>
    have hfull : ∀ d ∈ (scan source).errors.map fun e => e.diagnostic source.toList,
        d.extent source.toList = .full := by
      rw [List.forall_mem_map]
      intro e he
      exact (pointsInto_of_mem_errors he).extent_eq
    unfold execute at h
    dsimp only at h
    rw [Report.ofDiagnostics_of_full hfull] at h
    contradiction
  | tree source =>
    refine ⟨.inl rfl, ?_⟩
    unfold execute at h ⊢
    dsimp only [Command.source] at h ⊢
    split at h
    . contradiction
    . next f hparse =>
      rcases atEnd_of_report_crashed (run_of_parse_eq_error hparse) h with
        ⟨err, herr, heof, hreport⟩
      refine ⟨err, herr, heof, ?_⟩
      rw [Transcript.ofReport, hreport]
  | evaluate source =>
    refine ⟨.inr rfl, ?_⟩
    unfold execute at h ⊢
    dsimp only [Command.source] at h ⊢
    split at h
    . contradiction
    . next f hrun =>
      rcases atEnd_of_report_crashed hrun h with ⟨err, herr, heof, hreport⟩
      refine ⟨err, herr, heof, ?_⟩
      rw [Transcript.ofReport, hreport]

namespace Session

variable {history : History} {text : String} {lineEnd : List Char}

theorem execute_of_accept_crashes (h : (accept history text.toList).next = .crashes) :
    (accept history text.toList).transcript = execute (trimmed text)
      ∧ (execute (trimmed text)).crashed := by
  by_cases hne : Text.trim text.toList = []
  . rw [accept_of_blank history hne] at h
    contradiction
  . cases hexit : isExit (Text.trim text.toList) with
    | true =>
      rw [accept_of_exit history hne hexit] at h
      contradiction
    | false =>
      rw [accept_of_command history hne hexit] at h ⊢
      rw [trimmed]
      generalize execute (String.ofList (Text.trim text.toList)) = t at h ⊢
      refine ⟨rfl, ?_⟩
      by_contra hcrash
      dsimp only at h
      rw [if_neg hcrash] at h
      contradiction

theorem execute_of_judge_crashes (h : (judge history text.toList lineEnd).next = .crashes) :
    Balance.ofText text = .complete
      ∧ (judge history text.toList lineEnd).transcript = execute (trimmed text)
      ∧ (execute (trimmed text)).crashed := by
  have htext : String.ofList text.toList = text := String.ofList_toList
  cases hbalance : Balance.ofText text with
  | complete =>
    rw [judge_of_complete (by rw [htext, hbalance])] at h ⊢
    exact ⟨rfl, execute_of_accept_crashes h⟩
  | incomplete =>
    rw [judge_of_incomplete (by rw [htext, hbalance])] at h
    contradiction
  | unmatched offset =>
    rw [judge_of_unmatched (by rw [htext, hbalance])] at h
    contradiction

end Session

/--
The check for whole inputs agrees with the reader. What can be read is whole. A whole text, the text
that is carried out of it and the source of its command have no open string, and none of them ends
where a grouping is open. So the prompt crashes only where an expression is wanted at the end.
-/
theorem complete_agrees_with_parse (text : String) :
    (∀ e, parse text = .ok e → Balance.ofText text = .complete)
      ∧
    (Balance.ofText text = .complete →
      ∀ source ∈ [text, trimmed text, (Command.ofInput (trimmed text)).source],
        (∀ e ∈ (scan source).errors, e.cause ≠ .unterminatedString)
          ∧ ∀ err, parse source = .error (.grammar err) → err.token.kind = .eof →
              err.cause ≠ .unclosedGrouping)
      ∧
    (∀ history lineEnd, (Session.judge history text.toList lineEnd).next = .crashes →
      ∃ source err, (Command.ofInput (trimmed text) = .tree source
            ∨ Command.ofInput (trimmed text) = .evaluate source)
        ∧ parse source = .error (.grammar err)
        ∧ err.cause = .expectExpression ∧ err.token.kind = .eof
        ∧ (Session.judge history text.toList lineEnd).transcript =
            ⟨"", err.diagnostic.headerLine, true⟩) := by
  refine ⟨?_, ?_, ?_⟩
  . intro e h
    exact ofText_of_parse h
  . intro hwhole source hsource
    have hwhole := complete_of_mem hwhole hsource
    refine ⟨(Balance.ofText_eq_complete_iff_ofTokens.1 hwhole).1, ?_⟩
    intro err herr heof
    exact cause_of_complete hwhole herr heof
  . intro history lineEnd h
    rcases Session.execute_of_judge_crashes h with ⟨hwhole, htranscript, hcrash⟩
    rw [execute] at htranscript hcrash
    rcases Command.atEnd_of_execute_crashed hcrash with ⟨hcommand, err, herr, heof, hexecute⟩
    refine ⟨_, err, hcommand, herr, ?_, heof, ?_⟩
    . have hsource : Balance.ofText (Command.ofInput (trimmed text)).source = .complete := by
        apply complete_of_mem hwhole
        simp
      have hrun := run_of_parse_eq_error herr
      rcases (run_grammar_atEnd hrun heof).1 with hcause | hcause
      . exact hcause
      . exact absurd hcause (cause_of_complete hsource herr heof)
    . rw [htranscript]
      exact hexecute

def gluedInput : String := "\u2003:tokensґ(\"(\")// )\u0085"

def emptyInput : String := " :ast// (\" "

theorem complete_agrees_with_parse_examples :
    (parse "(\"а\")" = .ok (.group (.literal (.string "а")))
      ∧ Balance.ofText "(\"а\")" = .complete)
      ∧
    (Balance.ofText gluedInput = .complete
      ∧ (Command.ofInput (trimmed gluedInput)).source = "ґ(\"(\")// )"
      ∧ (∀ e ∈ (scan "ґ(\"(\")// )").errors, e.cause ≠ .unterminatedString)
      ∧ ∀ err, parse "ґ(\"(\")// )" = .error (.grammar err) → err.token.kind = .eof →
          err.cause ≠ .unclosedGrouping)
      ∧
    ((Session.judge .empty emptyInput.toList ['\n']).next = .crashes
      ∧ ∃ source err, (Command.ofInput (trimmed emptyInput) = .tree source
            ∨ Command.ofInput (trimmed emptyInput) = .evaluate source)
        ∧ parse source = .error (.grammar err)
        ∧ err.cause = .expectExpression ∧ err.token.kind = .eof
        ∧ (Session.judge .empty emptyInput.toList ['\n']).transcript =
            ⟨"", err.diagnostic.headerLine, true⟩) := by
  have hparse : parse "(\"а\")" = .ok (.group (.literal (.string "а"))) := by with_unfolding_all rfl
  have hwhole : Balance.ofText gluedInput = .complete := by
    rw [Balance.ofText_eq_complete_iff]
    exact ⟨.comment, by decide, by rfl⟩
  have hsource : (Command.ofInput (trimmed gluedInput)).source = "ґ(\"(\")// )" := by rfl
  have hcrash : (Session.judge .empty emptyInput.toList ['\n']).next = .crashes := by
    with_unfolding_all rfl
  refine ⟨⟨hparse, (complete_agrees_with_parse _).1 _ hparse⟩, ⟨hwhole, hsource, ?_⟩,
    ⟨hcrash, (complete_agrees_with_parse _).2.2 _ _ hcrash⟩⟩
  rw [← hsource]
  exact (complete_agrees_with_parse gluedInput).2.1 hwhole _ (by simp)

end Prompt

end Vyraz
