import Mathlib.Data.List.Forall2
import Vyraz.Proofs.Provenance

/-!
This module contains runs over two lists of tokens of which those at one place are of one kind. The
reader and evaluation look at nothing but kinds, so both runs go the same way: to one value, or to
failures of one cause at tokens that belong together.
-/

namespace Vyraz

inductive Agree {ε ε' α α' : Type} (E : ε → ε' → Prop) (A : α → α' → Prop) :
    Except ε α → Except ε' α' → Prop where
  | ok {a : α} {a' : α'} (h : A a a') : Agree E A (.ok a) (.ok a')
  | error {e : ε} {e' : ε'} (h : E e e') : Agree E A (.error e) (.error e')

namespace Agree

variable {ε ε' α α' β β' σ σ' : Type} {E : ε → ε' → Prop} {A : α → α' → Prop}
  {B : β → β' → Prop} {S : σ → σ' → Prop}

theorem bind {x : Except ε α} {x' : Except ε' α'} {f : α → Except ε β} {f' : α' → Except ε' β'}
    (h : Agree E A x x') (hf : ∀ a a', A a a' → Agree E B (f a) (f' a')) :
    Agree E B (x >>= f) (x' >>= f') := by
  cases h with
  | ok ha => exact hf _ _ ha
  | error he => exact .error he

theorem foldlM {f : σ → α → Except ε σ} {f' : σ' → α' → Except ε' σ'} {xs : List α}
    {xs' : List α'} (hxs : List.Forall₂ A xs xs')
    (hf : ∀ s s' x x', S s s' → A x x' → Agree E S (f s x) (f' s' x')) {s : σ} {s' : σ'}
    (hs : S s s') : Agree E S (xs.foldlM f s) (xs'.foldlM f' s') := by
  induction hxs generalizing s s' with
  | nil => exact .ok hs
  | cons hx _ ih =>
    rw [List.foldlM_cons, List.foldlM_cons]
    apply bind (hf _ _ _ _ hs hx)
    intro t t' ht
    exact ih ht

end Agree

section

variable (R : Token → Token → Prop)

inductive Expr.Paired : Expr → Expr → Prop where
  | literal (v : Value) : Paired (.literal v) (.literal v)
  | group {e e' : Expr} (h : Paired e e') : Paired (.group e) (.group e')
  | unary (op : UnaryOp) {t t' : Token} {e e' : Expr} (ht : R t t') (h : Paired e e') :
    Paired (.unary op t e) (.unary op t' e')
  | binary (op : BinaryOp) {t t' : Token} {l l' r r' : Expr} (hl : Paired l l') (ht : R t t')
    (hr : Paired r r') : Paired (.binary l op t r) (.binary l' op t' r')

structure ParseError.Paired (e e' : ParseError) : Prop where
  cause : e.cause = e'.cause
  token : R e.token e'.token

structure EvalError.Paired (e e' : EvalError) : Prop where
  cause : e.cause = e'.cause
  token : R e.token e'.token

inductive Failure.Paired : Failure → Failure → Prop where
  | grammar {e e' : ParseError} (h : e.Paired R e') : Paired (.grammar e) (.grammar e')
  | evaluation {e e' : EvalError} (h : e.Paired R e') : Paired (.evaluation e) (.evaluation e')

namespace Parse

inductive Frame.Paired : Frame → Frame → Prop where
  | group : Paired .group .group
  | unary (op : UnaryOp) {t t' : Token} (ht : R t t') : Paired (.unary op t) (.unary op t')
  | binary (op : BinaryOp) {l l' : Expr} {t t' : Token} (hl : l.Paired R l') (ht : R t t') :
    Paired (.binary l op t) (.binary l' op t')

inductive State.Paired : State → State → Prop where
  | operand {stack stack' : List Frame} (h : List.Forall₂ (Frame.Paired R) stack stack') :
    Paired (.operand stack) (.operand stack')
  | operator {stack stack' : List Frame} {e e' : Expr}
    (h : List.Forall₂ (Frame.Paired R) stack stack') (he : e.Paired R e') :
    Paired (.operator stack e) (.operator stack' e')

end Parse

end

variable {R : Token → Token → Prop}

namespace Parse

section

variable {stack stack' : List Frame} {e e' : Expr} {t t' : Token}

theorem Frame.Paired.isGroup_eq {f f' : Frame} (h : f.Paired R f') : f.isGroup = f'.isGroup := by
  cases h <;> rfl

theorem Frame.Paired.isNesting_eq {f f' : Frame} (h : f.Paired R f') :
    f.isNesting = f'.isNesting := by
  cases h <;> rfl

theorem depth_eq_of_paired (h : List.Forall₂ (Frame.Paired R) stack stack') :
    depth stack = depth stack' := by
  unfold depth
  induction h with
  | nil => rfl
  | cons hframe _ ih => rw [List.countP_cons, List.countP_cons, hframe.isNesting_eq, ih]

theorem stopCause_eq_of_paired (h : List.Forall₂ (Frame.Paired R) stack stack') :
    stopCause stack = stopCause stack' := by
  have hany : stack.any Frame.isGroup = stack'.any Frame.isGroup := by
    induction h with
    | nil => rfl
    | cons hframe _ ih => rw [List.any_cons, List.any_cons, hframe.isGroup_eq, ih]
  rw [stopCause, stopCause, hany]

theorem complete_paired (h : List.Forall₂ (Frame.Paired R) stack stack') (he : e.Paired R e') :
    (complete stack e).Paired R (complete stack' e') := by
  induction h generalizing e e' with
  | nil => exact .operator .nil he
  | cons hframe hstack ih =>
    cases hframe with
    | unary op ht => exact ih (.unary op ht he)
    | group => exact .operator (.cons .group hstack) he
    | binary op hl ht => exact .operator (.cons (.binary op hl ht) hstack) he

theorem reduce_paired (precedence : Nat) (h : List.Forall₂ (Frame.Paired R) stack stack')
    (he : e.Paired R e') :
    List.Forall₂ (Frame.Paired R) (reduce precedence stack e).1 (reduce precedence stack' e').1
      ∧ (reduce precedence stack e).2.Paired R (reduce precedence stack' e').2 := by
  induction h generalizing e e' with
  | nil => exact ⟨.nil, he⟩
  | cons hframe hstack ih =>
    cases hframe with
    | binary op hl ht =>
      unfold reduce
      split
      . exact ih (.binary op hl ht he)
      . exact ⟨.cons (.binary op hl ht) hstack, he⟩
    | group => exact ⟨.cons .group hstack, he⟩
    | unary op ht => exact ⟨.cons (.unary op ht) hstack, he⟩

theorem opening?_paired (ht : R t t') (hkind : t.kind = t'.kind) :
    Option.Rel (Frame.Paired R) (opening? t) (opening? t') := by
  unfold opening?
  rw [← hkind]
  split
  . exact .some .group
  . cases UnaryOp.ofKind? t.kind with
    | none => exact .none
    | some op => exact .some (.unary op ht)

theorem takeOperand_paired (limit : Option Nat)
    (h : List.Forall₂ (Frame.Paired R) stack stack') (ht : R t t') (hkind : t.kind = t'.kind) :
    Agree (ParseError.Paired R) (State.Paired R) (takeOperand limit stack t)
      (takeOperand limit stack' t') := by
  have hfits : fits limit stack = fits limit stack' := by
    rw [fits, fits, depth_eq_of_paired h]
  unfold takeOperand
  rw [← hkind, ← hfits]
  cases literal? t.kind with
  | some v => exact .ok (complete_paired h (.literal v))
  | none =>
    dsimp only
    have hopening := opening?_paired ht hkind
    generalize opening? t = opened, opening? t' = opened' at hopening
    cases hopening with
    | none => exact .error ⟨rfl, ht⟩
    | some hframe =>
      dsimp only
      split
      . exact .ok (.operand (.cons hframe h))
      . exact .error ⟨rfl, ht⟩

theorem takeOperator_paired (h : List.Forall₂ (Frame.Paired R) stack stack')
    (he : e.Paired R e') (ht : R t t') (hkind : t.kind = t'.kind) :
    Agree (ParseError.Paired R) (State.Paired R) (takeOperator stack e t)
      (takeOperator stack' e' t') := by
  unfold takeOperator
  rw [← hkind]
  cases BinaryOp.ofKind? t.kind with
  | some op =>
    rcases reduce_paired op.precedence h he with ⟨hstack, hleft⟩
    exact .ok (.operand (.cons (.binary op hleft ht) hstack))
  | none =>
    dsimp only
    rw [← stopCause_eq_of_paired h]
    have hreduce := reduce_paired 0 h he
    generalize reduce 0 stack e = reduced, reduce 0 stack' e' = reduced' at hreduce
    rcases reduced with ⟨rest, inner⟩
    rcases reduced' with ⟨rest', inner'⟩
    rcases hreduce with ⟨hrest, hinner⟩
    -- A grouping is innermost in both stacks or in neither.
    split
    . next hparen hgroup =>
      cases hgroup
      cases hrest with
      | cons hframe hrest =>
        cases hframe
        rw [hparen]
        exact .ok (complete_paired hrest (.group hinner))
    . next hmatch =>
      split
      . next hparen hgroup =>
        cases hgroup
        cases hrest with
        | cons hframe hrest =>
          cases hframe
          exact absurd rfl (hmatch _ _ hparen)
      . exact .error ⟨rfl, ht⟩

theorem step_paired (limit : Option Nat) {s s' : State} (hs : s.Paired R s') (ht : R t t')
    (hkind : t.kind = t'.kind) :
    Agree (ParseError.Paired R) (State.Paired R) (step limit s t) (step limit s' t') := by
  cases hs with
  | operand h => exact takeOperand_paired limit h ht hkind
  | operator h he => exact takeOperator_paired h he ht hkind

theorem finish_paired {s s' : State} (hs : s.Paired R s') (ht : R t t') :
    Agree (ParseError.Paired R) (Expr.Paired R) (finish t s) (finish t' s') := by
  cases hs with
  | operand h => exact .error ⟨rfl, ht⟩
  | @operator stack stack' e e' h he =>
    unfold finish
    dsimp only
    have hreduce := reduce_paired 0 h he
    generalize reduce 0 stack e = reduced, reduce 0 stack' e' = reduced' at hreduce
    rcases reduced with ⟨rest, whole⟩
    rcases reduced' with ⟨rest', whole'⟩
    rcases hreduce with ⟨hrest, hwhole⟩
    cases hrest with
    | nil => exact .ok hwhole
    | cons => exact .error ⟨rfl, ht⟩

end

section

variable {tokens tokens' : List Token} (hkind : ∀ t t', R t t' → t.kind = t'.kind)
include hkind

theorem body_paired (h : List.Forall₂ R tokens tokens') :
    List.Forall₂ R (body tokens) (body tokens') := by
  unfold body
  induction h with
  | nil => exact .nil
  | @cons t t' _ _ ht _ ih =>
    rw [List.takeWhile_cons, List.takeWhile_cons, hkind t t' ht]
    split
    . exact .cons ht ih
    . exact .nil

theorem stop_paired (h : List.Forall₂ R tokens tokens') (heof : ∃ t ∈ tokens, t.kind.isEof) :
    R (stop tokens) (stop tokens') := by
  have hfind : ∃ t t', R t t' ∧ (tokens.find? fun t => t.kind.isEof) = some t
      ∧ (tokens'.find? fun t => t.kind.isEof) = some t' := by
    induction h with
    | nil => simp at heof
    | @cons t t' _ _ ht _ ih =>
      rw [List.find?_cons, List.find?_cons, hkind t t' ht]
      cases ht' : t'.kind.isEof with
      | true => exact ⟨t, t', ht, rfl, rfl⟩
      | false =>
        apply ih
        rcases heof with ⟨u, hu, hueof⟩
        rcases List.mem_cons.1 hu with rfl | hu
        . rw [hkind _ _ ht, ht'] at hueof
          contradiction
        . exact ⟨u, hu, hueof⟩
  rcases hfind with ⟨t, t', ht, hfind, hfind'⟩
  rw [stop, stop, hfind, hfind']
  exact ht

theorem within_paired (limit : Option Nat) (h : List.Forall₂ R tokens tokens')
    (heof : ∃ t ∈ tokens, t.kind.isEof) :
    Agree (ParseError.Paired R) (Expr.Paired R) (within limit tokens) (within limit tokens') := by
  have hrun : Agree (ParseError.Paired R) (State.Paired R)
      ((body tokens).foldlM (step limit) (.operand []))
      ((body tokens').foldlM (step limit) (.operand [])) := by
    apply Agree.foldlM (body_paired hkind h)
    . intro s s' t t' hs ht
      exact step_paired limit hs ht (hkind t t' ht)
    . exact .operand .nil
  unfold within
  generalize (body tokens).foldlM (step limit) (.operand []) = run at hrun ⊢
  generalize (body tokens').foldlM (step limit) (.operand []) = run' at hrun ⊢
  cases hrun with
  | ok hs => exact finish_paired hs (stop_paired hkind h heof)
  | error he => exact .error he

end

end Parse

theorem UnaryOp.apply_paired (op : UnaryOp) (v : Value) {t t' : Token} (ht : R t t') :
    Agree (EvalError.Paired R) Eq (op.apply t v) (op.apply t' v) := by
  unfold UnaryOp.apply
  split
  . exact .ok rfl
  . exact .error ⟨rfl, ht⟩
  . exact .ok rfl

theorem BinaryOp.onNumbers_paired (f : Float → Float → Value) (v w : Value) {t t' : Token}
    (ht : R t t') : Agree (EvalError.Paired R) Eq (onNumbers f t v w) (onNumbers f t' v w) := by
  unfold onNumbers
  split
  . exact .ok rfl
  . exact .error ⟨rfl, ht⟩

theorem BinaryOp.apply_paired (op : BinaryOp) (v w : Value) {t t' : Token} (ht : R t t') :
    Agree (EvalError.Paired R) Eq (op.apply t v w) (op.apply t' v w) := by
  cases op with
  | add =>
    simp only [BinaryOp.apply]
    split
    . exact .ok rfl
    . exact .ok rfl
    . exact .error ⟨rfl, ht⟩
  | equal | notEqual => exact .ok rfl
  | _ => exact onNumbers_paired _ v w ht

theorem Expr.eval_paired {e e' : Expr} (h : e.Paired R e') :
    Agree (EvalError.Paired R) Eq e.eval e'.eval := by
  induction h with
  | literal v =>
    rw [eval_literal]
    exact .ok rfl
  | group _ ih =>
    rw [eval_group, eval_group]
    exact ih
  | unary op ht _ ih =>
    rw [eval_unary, eval_unary]
    apply ih.bind
    rintro v _ rfl
    exact op.apply_paired v ht
  | binary op _ ht _ lih rih =>
    rw [eval_binary, eval_binary]
    apply lih.bind
    rintro v _ rfl
    apply rih.bind
    rintro w _ rfl
    exact op.apply_paired v w ht

theorem runTokens_paired {tokens tokens' : List Token}
    (hkind : ∀ t t', R t t' → t.kind = t'.kind) (h : List.Forall₂ R tokens tokens')
    (heof : ∃ t ∈ tokens, t.kind.isEof) :
    Agree (Failure.Paired R) Eq (runTokens tokens) (runTokens tokens') := by
  have hread := Parse.within_paired hkind (some Parse.maxDepth) h heof
  unfold runTokens Expr.ofTokens
  generalize Parse.within (some Parse.maxDepth) tokens = read at hread ⊢
  generalize Parse.within (some Parse.maxDepth) tokens' = read' at hread ⊢
  cases hread with
  | error he => exact .error (.grammar he)
  | @ok expr expr' hexpr =>
    have heval := Expr.eval_paired hexpr
    dsimp only
    generalize expr.eval = value, expr'.eval = value' at heval
    cases heval with
    | error he => exact .error (.evaluation he)
    | ok hv => exact .ok hv

end Vyraz
