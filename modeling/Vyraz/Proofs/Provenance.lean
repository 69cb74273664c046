import Vyraz.Failure
import Vyraz.Proofs.Coverage
import Vyraz.Proofs.Evaluation
import Vyraz.Proofs.RoundTrip

namespace Vyraz

namespace Parse

variable {limit : Option Nat} {err : ParseError} {token : Token}

theorem takeOperand_error_token {stack : List Frame}
    (h : takeOperand limit stack token = .error err) : err.token = token := by
  unfold takeOperand at h
  split at h
  . contradiction
  . split at h
    . split at h
      . contradiction
      . cases h
        rfl
    . cases h
      rfl

theorem takeOperator_error_token {stack : List Frame} {left : Expr}
    (h : takeOperator stack left token = .error err) : err.token = token := by
  unfold takeOperator at h
  split at h
  . contradiction
  . split at h
    . contradiction
    . cases h
      rfl

theorem step_error_token {s : State} (h : step limit s token = .error err) :
    err.token = token := by
  cases s with
  | operand stack => exact takeOperand_error_token h
  | operator stack left => exact takeOperator_error_token h

theorem foldlM_error_token_mem {tokens : List Token} {s : State}
    (h : tokens.foldlM (step limit) s = .error err) : err.token ∈ tokens := by
  rcases foldlM_step_eq_error_iff.1 h with ⟨before, token, after, m, rfl, -, hstop⟩
  rw [step_error_token hstop]
  simp

theorem finish_error {marker : Token} {s : State} (h : finish marker s = .error err) :
    err.token = marker ∧ (err.cause = .expectExpression ∨ err.cause = .unclosedGrouping) := by
  unfold finish at h
  split at h
  . cases h
    exact ⟨rfl, .inl rfl⟩
  . split at h
    . contradiction
    . cases h
      exact ⟨rfl, .inr rfl⟩

theorem within_error {tokens : List Token} (h : within limit tokens = .error err) :
    err.token ∈ body tokens
      ∨ err.token = stop tokens
        ∧ (err.cause = .expectExpression ∨ err.cause = .unclosedGrouping) := by
  unfold within at h
  split at h
  . exact .inr (finish_error h)
  . next hrun =>
    cases h
    exact .inl (foldlM_error_token_mem hrun)

theorem stop_kind (tokens : List Token) : (stop tokens).kind = .eof := by
  unfold stop
  split
  . next t ht =>
    have heof := List.find?_some ht
    unfold Kind.isEof at heof
    split at heof
    . assumption
    . contradiction
  . split <;> rfl

theorem stop_append_marker {front : List Token} {marker : Token}
    (hfront : ∀ t ∈ front, t.kind.isEof = false) (hmarker : marker.kind.isEof) :
    stop (front ++ [marker]) = marker := by
  have hnone : front.find? (fun t => t.kind.isEof) = none := by
    rw [List.find?_eq_none]
    intro t ht
    simp [hfront t ht]
  unfold stop
  rw [List.find?_append, hnone]
  simp [hmarker]

end Parse

theorem stop_scan (source : String) : Parse.stop (scan source).tokens = Token.endOf source := by
  rw [scan_tokens]
  apply Parse.stop_append_marker
  . intro t ht
    exact isEof_of_mem_items ht
  . rfl

section

variable {token : Token} {err : EvalError}

theorem UnaryOp.apply_error_token {op : UnaryOp} {v : Value}
    (h : op.apply token v = .error err) : err.token = token := by
  unfold UnaryOp.apply at h
  split at h
  . contradiction
  . cases h
    rfl
  . contradiction

theorem BinaryOp.onNumbers_error_token {f : Float → Float → Value} {v w : Value}
    (h : onNumbers f token v w = .error err) : err.token = token := by
  unfold onNumbers at h
  split at h
  . contradiction
  . cases h
    rfl

theorem BinaryOp.apply_error_token {op : BinaryOp} {v w : Value}
    (h : op.apply token v w = .error err) : err.token = token := by
  cases op with
  | add =>
    simp only [BinaryOp.apply] at h
    split at h
    . contradiction
    . contradiction
    . cases h
      rfl
  | equal | notEqual => cases h
  | _ => exact onNumbers_error_token h

end

namespace Expr

theorem eval_error_mem_flatten {e : Expr} {err : EvalError} (h : e.eval = .error err) :
    .token err.token ∈ e.flatten := by
  induction e with
  | literal v =>
    rw [eval_literal] at h
    contradiction
  | group inner ih =>
    rw [eval_group] at h
    simp [flatten, ih h]
  | unary op token operand ih =>
    rw [eval_unary] at h
    cases hoperand : operand.eval with
    | error err' =>
      rw [hoperand] at h
      cases h
      simp [flatten, ih hoperand]
    | ok v =>
      rw [hoperand] at h
      simp [flatten, UnaryOp.apply_error_token h]
  | binary left op token right lih rih =>
    rw [eval_binary] at h
    cases hleft : left.eval with
    | error err' =>
      rw [hleft] at h
      cases h
      simp [flatten, lih hleft]
    | ok v =>
      cases hright : right.eval with
      | error err' =>
        rw [hleft, hright] at h
        cases h
        simp [flatten, rih hright]
      | ok w =>
        rw [hleft, hright] at h
        simp [flatten, BinaryOp.apply_error_token h]

theorem mem_of_token_mem_flatten {marks : List Mark} {tokens : List Token} {t : Token}
    (h : List.Forall₂ Mark.Fits marks tokens) (ht : .token t ∈ marks) : t ∈ tokens := by
  induction h with
  | nil => contradiction
  | cons hfits _ ih =>
    rcases List.mem_cons.1 ht with rfl | ht
    . rw [hfits]
      exact List.mem_cons_self
    . exact List.mem_cons_of_mem _ (ih ht)

end Expr

section

variable {source : String}

theorem tokenize_eq_ok_iff {tokens : List Token} :
    tokenize source = .ok tokens ↔ (scan source).errors = [] ∧ (scan source).tokens = tokens := by
  unfold tokenize
  dsimp only
  split
  . next h => simp [List.isEmpty_iff.1 h]
  . next h =>
    rw [List.isEmpty_iff] at h
    simp [h]

theorem tokenize_eq_error_iff {errors : List LexError} :
    tokenize source = .error errors ↔
      (scan source).errors ≠ [] ∧ (scan source).errors = errors := by
  unfold tokenize
  dsimp only
  split
  . next h => simp [List.isEmpty_iff.1 h]
  . next h =>
    rw [List.isEmpty_iff] at h
    simp [h]

def runTokens (tokens : List Token) : Except Failure Value :=
  match Expr.ofTokens tokens with
  | .error e => .error (.grammar e)
  | .ok expr =>
    match expr.eval with
    | .error e => .error (.evaluation e)
    | .ok v => .ok v

theorem run_of_tokenize_eq_ok {tokens : List Token} (h : tokenize source = .ok tokens) :
    run source = runTokens tokens := by
  unfold run parse runTokens
  rw [h]
  dsimp only
  cases Expr.ofTokens tokens with
  | ok expr => rfl
  | error e => rfl

theorem run_of_tokenize_eq_error {errors : List LexError} (h : tokenize source = .error errors) :
    run source = .error (.lexical errors) := by
  unfold run parse
  rw [h]

theorem runTokens_eq_grammar_iff {tokens : List Token} {e : ParseError} :
    runTokens tokens = .error (.grammar e) ↔ Expr.ofTokens tokens = .error e := by
  unfold runTokens
  split
  . next hread => simp [hread]
  . next hread =>
    rw [hread]
    split <;> simp

theorem runTokens_eq_evaluation_iff {tokens : List Token} {e : EvalError} :
    runTokens tokens = .error (.evaluation e)
      ↔
    ∃ expr, Expr.ofTokens tokens = .ok expr ∧ expr.eval = .error e := by
  unfold runTokens
  split
  . next hread => simp [hread]
  . next hread =>
    rw [hread]
    split
    . next heval => simp [heval]
    . next heval => simp [heval]

theorem runTokens_ne_lexical {tokens : List Token} {errors : List LexError} :
    runTokens tokens ≠ .error (.lexical errors) := by
  unfold runTokens
  split
  . simp
  . split <;> simp

theorem run_eq_lexical_iff {errors : List LexError} :
    run source = .error (.lexical errors) ↔ tokenize source = .error errors := by
  cases htokens : tokenize source with
  | ok tokens =>
    rw [run_of_tokenize_eq_ok htokens]
    simp [runTokens_ne_lexical]
  | error errors' =>
    rw [run_of_tokenize_eq_error htokens]
    simp

theorem run_lexical_errors {errors : List LexError}
    (h : run source = .error (.lexical errors)) :
    (scan source).errors ≠ [] ∧ (scan source).errors = errors :=
  tokenize_eq_error_iff.1 (run_eq_lexical_iff.1 h)

theorem tokenize_of_run_eq_error {f : Failure} (h : run source = .error f)
    (hlexical : ∀ errors, f ≠ .lexical errors) : tokenize source = .ok (scan source).tokens := by
  cases htokens : tokenize source with
  | ok tokens => rw [(tokenize_eq_ok_iff.1 htokens).2]
  | error errors =>
    rw [run_of_tokenize_eq_error htokens] at h
    cases h
    exact absurd rfl (hlexical errors)

theorem run_eq_runTokens {f : Failure} (h : run source = .error f)
    (hlexical : ∀ errors, f ≠ .lexical errors) : run source = runTokens (scan source).tokens :=
  run_of_tokenize_eq_ok (tokenize_of_run_eq_error h hlexical)

theorem mem_tokens_of_mem_body {t : Token} (h : t ∈ Parse.body (scan source).tokens) :
    t ∈ (scan source).tokens ∧ t.kind.isEof = false := by
  constructor
  . exact (List.takeWhile_prefix _).subset h
  . simpa using List.mem_takeWhile_imp h

theorem run_grammar_token {e : ParseError} (h : run source = .error (.grammar e)) :
    (e.token ∈ (scan source).tokens ∧ e.token.kind.isEof = false)
      ∨ e.token = Token.endOf source
        ∧ (e.cause = .expectExpression ∨ e.cause = .unclosedGrouping) := by
  rw [run_eq_runTokens h (by simp), runTokens_eq_grammar_iff] at h
  rcases Parse.within_error h with hbody | hstop
  . exact .inl (mem_tokens_of_mem_body hbody)
  . rw [stop_scan] at hstop
    exact .inr hstop

theorem run_evaluation_token {e : EvalError} (h : run source = .error (.evaluation e)) :
    e.token ∈ (scan source).tokens ∧ e.token.kind.isEof = false := by
  rw [run_eq_runTokens h (by simp), runTokens_eq_evaluation_iff] at h
  rcases h with ⟨expr, hread, heval⟩
  rcases Expr.ofTokens_eq_ok_iff.1 hread with ⟨-, hspell⟩
  apply mem_tokens_of_mem_body
  exact Expr.mem_of_token_mem_flatten hspell (Expr.eval_error_mem_flatten heval)

end

end Vyraz
