import Mathlib.Data.List.TakeWhile
import Vyraz.Proofs.Flatten

/-!
This module contains the moves of the reader of expressions: what one token can do at a place, and
what a run over tokens is. Whatever holds of all runs is shown move by move.
-/

namespace Vyraz.Parse

inductive Move (limit : Option Nat) (token : Token) : State → State → Prop where
  | literal {stack : List Frame} {v : Value} (hkind : token.kind = v.kind) :
    Move limit token (.operand stack) (complete stack (.literal v))
  | openGroup {stack : List Frame} (hkind : token.kind = .symbol .leftParen)
    (hfits : fits limit stack) :
    Move limit token (.operand stack) (.operand (.group :: stack))
  | openUnary {stack : List Frame} {op : UnaryOp} (hop : UnaryOp.ofKind? token.kind = some op)
    (hfits : fits limit stack) :
    Move limit token (.operand stack) (.operand (.unary op token :: stack))
  | operator {stack rest : List Frame} {left whole : Expr} {op : BinaryOp}
    (hop : BinaryOp.ofKind? token.kind = some op)
    (hreduce : reduce op.precedence stack left = (rest, whole)) :
    Move limit token (.operator stack left) (.operand (.binary whole op token :: rest))
  | closeGroup {stack rest : List Frame} {left inner : Expr}
    (hkind : token.kind = .symbol .rightParen)
    (hreduce : reduce 0 stack left = (.group :: rest, inner)) :
    Move limit token (.operator stack left) (complete rest (.group inner))

theorem opening?_eq_some_iff {token : Token} {frame : Frame} :
    opening? token = some frame
      ↔
    token.kind = .symbol .leftParen ∧ frame = .group
      ∨ ∃ op, UnaryOp.ofKind? token.kind = some op ∧ frame = .unary op token := by
  unfold opening?
  split
  . next hkind => simp [hkind, UnaryOp.ofKind?, eq_comm]
  . next hkind =>
    have hkind : token.kind ≠ .symbol .leftParen := hkind
    simp only [Option.map_eq_some_iff, hkind, false_and, false_or]
    constructor
    . intro h
      rcases h with ⟨op, hop, rfl⟩
      exact ⟨op, hop, rfl⟩
    . intro h
      rcases h with ⟨op, hop, rfl⟩
      exact ⟨op, hop, rfl⟩

theorem opening?_isSome_iff {token : Token} :
    (opening? token).isSome
      ↔
    token.kind ∈ [.symbol .minus, .symbol .bang, .symbol .leftParen] := by
  rw [Option.isSome_iff_exists]
  simp only [opening?_eq_some_iff, UnaryOp.ofKind?_eq_some_iff, List.mem_cons, List.not_mem_nil,
    or_false]
  constructor
  . rintro ⟨frame, ⟨hkind, -⟩ | ⟨op, hop, -⟩⟩
    . exact .inr (.inr hkind)
    . cases op with
      | negate => exact .inl hop
      | not => exact .inr (.inl hop)
  . rintro (hkind | hkind | hkind)
    . exact ⟨_, .inr ⟨.negate, hkind, rfl⟩⟩
    . exact ⟨_, .inr ⟨.not, hkind, rfl⟩⟩
    . exact ⟨_, .inl ⟨hkind, rfl⟩⟩

theorem takeOperand_eq_ok_iff {limit : Option Nat} {stack : List Frame} {token : Token}
    {state : State} :
    takeOperand limit stack token = .ok state ↔ Move limit token (.operand stack) state := by
  constructor
  . intro h
    unfold takeOperand at h
    split at h
    . cases h
      apply Move.literal
      apply literal?_eq_some_iff.1
      assumption
    . split at h
      . next hframe =>
        split at h
        . cases h
          rcases opening?_eq_some_iff.1 hframe with ⟨hkind, rfl⟩ | ⟨op, hop, rfl⟩
          . apply Move.openGroup
            . assumption
            . assumption
          . apply Move.openUnary
            . assumption
            . assumption
        . contradiction
      . contradiction
  . intro h
    unfold takeOperand
    cases h with
    | literal hkind => rw [literal?_eq_some_iff.2 hkind]
    | openGroup hkind hfits =>
      rw [opening?_eq_some_iff.2 (.inl ⟨hkind, rfl⟩)]
      rw [hkind]
      simp [literal?, hfits]
    | openUnary hop hfits =>
      rw [opening?_eq_some_iff.2 (.inr ⟨_, hop, rfl⟩)]
      rw [UnaryOp.ofKind?_eq_some_iff.1 hop]
      simp [literal?, hfits]

theorem takeOperator_eq_ok_iff {limit : Option Nat} {stack : List Frame} {left : Expr}
    {token : Token} {state : State} :
    takeOperator stack left token = .ok state
      ↔
    Move limit token (.operator stack left) state := by
  constructor
  . intro h
    unfold takeOperator at h
    split at h
    . cases h
      apply Move.operator
      . assumption
      . rfl
    . split at h
      . cases h
        apply Move.closeGroup
        . assumption
        . assumption
      . contradiction
  . intro h
    unfold takeOperator
    cases h with
    | operator hop hreduce =>
      rw [hop]
      simp only [hreduce]
    | closeGroup hkind hreduce =>
      rw [hkind, hreduce]
      rfl

theorem step_eq_ok_iff {limit : Option Nat} {s s' : State} {token : Token} :
    step limit s token = .ok s' ↔ Move limit token s s' := by
  cases s with
  | operand stack => apply takeOperand_eq_ok_iff
  | operator stack left => apply takeOperator_eq_ok_iff

def Leads (limit : Option Nat) (s : State) (tokens : List Token) (s' : State) : Prop :=
  tokens.foldlM (step limit) s = .ok s'

section

variable {limit : Option Nat} {s s' : State}

@[simp]
theorem leads_nil_iff : Leads limit s [] s' ↔ s = s' := by
  simp [Leads, pure, Except.pure]

theorem leads_cons_iff {token : Token} {tokens : List Token} :
    Leads limit s (token :: tokens) s'
      ↔
    ∃ m, Move limit token s m ∧ Leads limit m tokens s' := by
  simp only [Leads, List.foldlM_cons, ← step_eq_ok_iff]
  cases step limit s token with
  | ok m => simp [bind, Except.bind]
  | error err => simp [bind, Except.bind]

theorem leads_append_iff {us vs : List Token} :
    Leads limit s (us ++ vs) s' ↔ ∃ m, Leads limit s us m ∧ Leads limit m vs s' := by
  induction us generalizing s with
  | nil => simp
  | cons u us ih =>
    simp only [List.cons_append, leads_cons_iff, ih]
    constructor
    . intro h
      rcases h with ⟨m, hu, n, hus, hvs⟩
      exact ⟨n, ⟨m, hu, hus⟩, hvs⟩
    . intro h
      rcases h with ⟨n, ⟨m, hu, hus⟩, hvs⟩
      exact ⟨m, hu, n, hus, hvs⟩

theorem Leads.invariant {P : List Token → State → Prop}
    (hmove : ∀ {taken token s s'}, P taken s → Move limit token s s' → P (taken ++ [token]) s')
    {taken tokens : List Token} (hrun : Leads limit s tokens s') (hs : P taken s) :
    P (taken ++ tokens) s' := by
  -- The tokens move over to `taken` one by one, which the invariant speaks about too.
  induction tokens generalizing taken s with
  | nil =>
    rw [leads_nil_iff] at hrun
    subst hrun
    simpa using hs
  | cons token tokens ih =>
    rcases leads_cons_iff.1 hrun with ⟨m, htoken, hrest⟩
    have := ih hrest (hmove hs htoken)
    simpa using this

theorem foldlM_step_eq_error_iff {tokens : List Token} {err : ParseError} :
    tokens.foldlM (step limit) s = .error err
      ↔
    ∃ before token after m, tokens = before ++ token :: after ∧ Leads limit s before m
      ∧ step limit m token = .error err := by
  constructor
  . intro h
    induction tokens generalizing s with
    | nil => cases h
    | cons token tokens ih =>
      rw [List.foldlM_cons] at h
      cases hstep : step limit s token with
      | error err' =>
        rw [hstep] at h
        cases h
        exact ⟨[], token, tokens, s, rfl, leads_nil_iff.2 rfl, hstep⟩
      | ok m =>
        rw [hstep] at h
        rcases ih h with ⟨before, token', after, m', rfl, hrun, hstop⟩
        refine ⟨token :: before, token', after, m', rfl, ?_, hstop⟩
        exact leads_cons_iff.2 ⟨m, step_eq_ok_iff.1 hstep, hrun⟩
  . rintro ⟨before, token, after, m, rfl, hrun, hstop⟩
    rw [Leads] at hrun
    rw [List.foldlM_append, hrun]
    show (token :: after).foldlM (step limit) m = .error err
    rw [List.foldlM_cons, hstop]
    rfl

end

theorem finish_eq_ok_iff {stop : Token} {state : State} {e : Expr} :
    finish stop state = .ok e
      ↔
    ∃ stack left, state = .operator stack left ∧ reduce 0 stack left = ([], e) := by
  cases state with
  | operand stack => simp [finish]
  | operator stack left =>
    simp only [finish, State.operator.injEq]
    constructor
    . intro h
      split at h
      . next hreduce =>
        cases h
        exact ⟨stack, left, ⟨rfl, rfl⟩, hreduce⟩
      . contradiction
    . intro h
      rcases h with ⟨_, _, ⟨rfl, rfl⟩, hreduce⟩
      rw [hreduce]

theorem within_eq_ok_iff {limit : Option Nat} {tokens : List Token} {e : Expr} :
    within limit tokens = .ok e
      ↔
    ∃ stack left, Leads limit (.operand []) (body tokens) (.operator stack left)
      ∧ reduce 0 stack left = ([], e) := by
  unfold within Leads
  split
  . next hrun =>
    rw [finish_eq_ok_iff]
    rw [hrun]
    simp
  . next hrun =>
    rw [hrun]
    simp

theorem body_eq_self {tokens : List Token} (h : ∀ t ∈ tokens, t.kind.isEof = false) :
    body tokens = tokens := by
  rw [body, List.takeWhile_eq_self_iff]
  simpa using h

end Vyraz.Parse
