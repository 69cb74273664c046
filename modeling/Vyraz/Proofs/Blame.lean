import Vyraz.Proofs.Typing
import Vyraz.Proofs.Viable

namespace Vyraz

def ParseCause.Blames : ParseCause → Kind → Prop
  | expectExpression, k =>
    (∀ v : Value, k ≠ v.kind) ∧ k ∉ [.symbol .minus, .symbol .bang, .symbol .leftParen]
  | unclosedGrouping, k => k ≠ .symbol .rightParen ∧ ∀ op : BinaryOp, k ≠ .symbol op.symbol
  | trailingInput, k => k ≠ .eof ∧ ∀ op : BinaryOp, k ≠ .symbol op.symbol
  | tooDeep, k => k ∈ [.symbol .minus, .symbol .bang, .symbol .leftParen]

def EvalCause.Blames : EvalCause → Kind → Prop
  | operandNotNumber, k => k = .symbol .minus
  | operandsNotNumbers, k =>
    k ∈ [.symbol .minus, .symbol .star, .symbol .slash, .symbol .greater, .symbol .greaterEqual,
      .symbol .less, .symbol .lessEqual]
  | operandsNotNumbersOrStrings, k => k = .symbol .plus

namespace Parse

variable {limit : Option Nat} {token : Token} {err : ParseError}

theorem takeOperand_error_blames {stack : List Frame}
    (h : takeOperand limit stack token = .error err) : err.cause.Blames token.kind := by
  unfold takeOperand at h
  split at h
  . contradiction
  . next hliteral =>
    split at h
    . next frame hframe =>
      split at h
      . contradiction
      . cases h
        exact opening?_isSome_iff.1 (by rw [hframe]; rfl)
    . next hframe =>
      cases h
      constructor
      . intro v hv
        rw [literal?_eq_some_iff.2 hv] at hliteral
        contradiction
      . intro hkind
        have := opening?_isSome_iff.2 hkind
        simp [hframe] at this

theorem takeOperator_error_blames {stack : List Frame} {left : Expr}
    (hsound : State.Sound limit (.operator stack left)) (heof : token.kind.isEof = false)
    (h : takeOperator stack left token = .error err) : err.cause.Blames token.kind := by
  unfold takeOperator at h
  split at h
  . contradiction
  . next hnone =>
    have hop : ∀ op : BinaryOp, token.kind ≠ .symbol op.symbol := by
      intro op hkind
      rw [BinaryOp.ofKind?_eq_some_iff.2 hkind] at hnone
      contradiction
    split at h
    . contradiction
    . next hclose =>
      cases h
      dsimp only [stopCause]
      split
      . next hgroup =>
        refine ⟨?_, hop⟩
        intro hkind
        -- With the operators closed a grouping is innermost, so the parenthesis would close it.
        have hpos : 0 < groups stack := by
          rw [groups, List.countP_pos_iff]
          simpa using hgroup
        rcases hsound.reduce_cases with ⟨hzero, -⟩ | ⟨rest, -, hrest⟩
        . omega
        . exact hclose rest (reduce 0 stack left).2 hkind (Prod.ext hrest rfl)
      . refine ⟨?_, hop⟩
        intro hkind
        rw [hkind] at heof
        contradiction

theorem step_error_blames {s : State} (hsound : s.Sound limit) (heof : token.kind.isEof = false)
    (h : step limit s token = .error err) : err.cause.Blames token.kind := by
  cases s with
  | operand stack => exact takeOperand_error_blames h
  | operator stack left => exact takeOperator_error_blames hsound heof h

theorem blames_eof {cause : ParseCause}
    (h : cause = .expectExpression ∨ cause = .unclosedGrouping) :
    cause.Blames .eof := by
  rcases h with rfl | rfl
  . refine ⟨?_, by simp⟩
    intro v hv
    have := v.isEof_kind
    rw [← hv] at this
    contradiction
  . exact ⟨by simp, by simp⟩

theorem within_error_blames {tokens : List Token} (h : within limit tokens = .error err) :
    err.cause.Blames err.token.kind := by
  unfold within at h
  split at h
  . rcases finish_error h with ⟨htoken, hcause⟩
    rw [htoken, stop_kind]
    exact blames_eof hcause
  . next hrun =>
    cases h
    rcases foldlM_step_eq_error_iff.1 hrun with ⟨before, token, after, m, hbody, hlead, hstop⟩
    have heof : token.kind.isEof = false := by
      have hmem : token ∈ body tokens := by simp [hbody]
      simpa using List.mem_takeWhile_imp hmem
    rw [step_error_token hstop]
    exact step_error_blames (reached_of_leads hlead).1 heof hstop

end Parse

namespace Expr

theorem shaped_of_mem_postorder {e e' : Expr} (h : e.Shaped) (hmem : e' ∈ e.postorder) :
    e'.Shaped := by
  induction e with
  | literal v =>
    rw [List.mem_singleton.1 hmem]
    trivial
  | group inner ih =>
    rcases List.mem_append.1 hmem with hmem | hmem
    . exact ih h hmem
    . rw [List.mem_singleton.1 hmem]
      exact h
  | unary op token operand ih =>
    rcases List.mem_append.1 hmem with hmem | hmem
    . exact ih h.2.2 hmem
    . rw [List.mem_singleton.1 hmem]
      exact h
  | binary left op token right lih rih =>
    rcases List.mem_append.1 hmem with hmem | hmem
    . rcases List.mem_append.1 hmem with hmem | hmem
      . exact lih h.2.2.2.1 hmem
      . exact rih h.2.2.2.2 hmem
    . rw [List.mem_singleton.1 hmem]
      exact h

theorem clash?_blames {e : Expr} {err : EvalError} (hshape : e.Shaped) (h : e.clash? = some err) :
    err.cause.Blames err.token.kind
      ∧ err.token.kind ∉ [.symbol .bang, .symbol .equalEqual, .symbol .bangEqual] := by
  cases e with
  | literal | group => cases h
  | unary op token operand =>
    rcases clash?_unary_eq_some_iff.1 h with ⟨t, -, htype, rfl⟩
    dsimp only
    rw [UnaryOp.ofKind?_eq_some_iff.1 hshape.1]
    cases op with
    | negate => exact ⟨rfl, by simp [UnaryOp.symbol]⟩
    | not => cases htype
  | binary left op token right =>
    rcases clash?_binary_eq_some_iff.1 h with ⟨s, t, -, -, htype, rfl⟩
    dsimp only
    rw [BinaryOp.ofKind?_eq_some_iff.1 hshape.1]
    cases op with
    | equal | notEqual => cases htype
    | _ => simp [BinaryOp.cause, BinaryOp.symbol, EvalCause.Blames]

theorem eval_error_blames {e : Expr} {err : EvalError} (hshape : e.Shaped)
    (h : e.eval = .error err) :
    err.cause.Blames err.token.kind
      ∧ err.token.kind ∉ [.symbol .bang, .symbol .equalEqual, .symbol .bangEqual] := by
  cases htype : e.type? with
  | some t =>
    rcases eval_eq_ok_of_type? htype with ⟨v, hv, -⟩
    rw [h] at hv
    contradiction
  | none =>
    rcases eval_eq_error_of_type? htype with ⟨err', hclash, heval⟩
    rw [h] at heval
    cases heval
    rcases List.exists_of_findSome?_eq_some hclash with ⟨e', hmem, hclash'⟩
    exact clash?_blames (shaped_of_mem_postorder hshape hmem) hclash'

end Expr

section

variable {source : String}

theorem run_grammar_blames {e : ParseError} (h : run source = .error (.grammar e)) :
    e.token ∈ (scan source).tokens ∧ e.cause.Blames e.token.kind := by
  constructor
  . rcases run_grammar_token h with ⟨hmem, -⟩ | ⟨htoken, -⟩
    . exact hmem
    . rw [htoken, scan_tokens]
      simp
  . rw [run_eq_runTokens h (by simp), runTokens_eq_grammar_iff] at h
    exact Parse.within_error_blames h

theorem run_evaluation_blames {e : EvalError} (h : run source = .error (.evaluation e)) :
    e.token ∈ (scan source).tokens ∧ e.cause.Blames e.token.kind
      ∧ e.token.kind ∉ [.symbol .bang, .symbol .equalEqual, .symbol .bangEqual] := by
  refine ⟨(run_evaluation_token h).1, ?_⟩
  rw [run_eq_runTokens h (by simp), runTokens_eq_evaluation_iff] at h
  rcases h with ⟨expr, hread, heval⟩
  exact Expr.eval_error_blames (Expr.ofTokens_eq_ok_iff.1 hread).1.shaped heval

/--
A source that fails, but not for its pieces, has tokens, and the error is at one of them. The token
is of a kind that can be blamed for it; nothing is ever wrong with the operands of `!`, `==` and
`!=`.
-/
theorem run_error_blames_token (source : String) :
    (∀ e, run source = .error (.grammar e) →
      ∃ tokens, tokenize source = .ok tokens ∧ e.token ∈ tokens ∧ e.cause.Blames e.token.kind)
      ∧
    (∀ e, run source = .error (.evaluation e) →
      ∃ tokens, tokenize source = .ok tokens ∧ e.token ∈ tokens ∧ e.cause.Blames e.token.kind
        ∧ e.token.kind ∉ [.symbol .bang, .symbol .equalEqual, .symbol .bangEqual]) := by
  constructor
  . intro e h
    exact ⟨_, tokenize_of_run_eq_error h (by simp), run_grammar_blames h⟩
  . intro e h
    exact ⟨_, tokenize_of_run_eq_error h (by simp), run_evaluation_blames h⟩

theorem run_error_blames_token_examples :
    (run "(\"а\" \"б\")" = .error (.grammar ⟨.unclosedGrouping, ⟨.string "б", "\"б\"", ⟨6, 10⟩, 1⟩⟩)
      ∧ ∃ tokens, tokenize "(\"а\" \"б\")" = .ok tokens
        ∧ ⟨.string "б", "\"б\"", ⟨6, 10⟩, 1⟩ ∈ tokens
        ∧ ParseCause.unclosedGrouping.Blames (.string "б"))
      ∧
    (run "!(\"а\" < \"б\")" =
        .error (.evaluation ⟨.operandsNotNumbers, ⟨.symbol .less, "<", ⟨7, 8⟩, 1⟩⟩)
      ∧ ∃ tokens, tokenize "!(\"а\" < \"б\")" = .ok tokens
        ∧ ⟨.symbol .less, "<", ⟨7, 8⟩, 1⟩ ∈ tokens
        ∧ EvalCause.operandsNotNumbers.Blames (.symbol .less)
        ∧ .symbol .less ∉ [.symbol .bang, .symbol .equalEqual, Kind.symbol .bangEqual]) := by
  have hgrammar : run "(\"а\" \"б\")" =
      .error (.grammar ⟨.unclosedGrouping, ⟨.string "б", "\"б\"", ⟨6, 10⟩, 1⟩⟩) := by
    with_unfolding_all rfl
  have hevaluation : run "!(\"а\" < \"б\")" =
      .error (.evaluation ⟨.operandsNotNumbers, ⟨.symbol .less, "<", ⟨7, 8⟩, 1⟩⟩) := by
    with_unfolding_all rfl
  exact ⟨⟨hgrammar, (run_error_blames_token _).1 _ hgrammar⟩,
    ⟨hevaluation, (run_error_blames_token _).2 _ hevaluation⟩⟩

end

end Vyraz
