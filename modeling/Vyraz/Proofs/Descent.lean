import Vyraz.Expr.Descent
import Vyraz.Proofs.Depth

/-!
This module contains the proof that reading by recursive descent and reading with a stack of frames
are the same, and that neither looks beyond the first end marker.

A call that reads an operand stands for a run of the other reader over the tokens of that operand.
Behind it the two are at the same place, although the other reader may still have frames of the
operand open: no operator follows that would tell the difference.
-/

namespace Vyraz.Descent

open Parse

def Cursor.stop (c : Cursor) : Token :=
  (c.tokens.find? fun t => t.kind.isEof).getD c.marker

def resume (limit : Option Nat) (s : State) (c : Cursor) : Except ParseError Expr :=
  match (body c.tokens).foldlM (step limit) s with
  | .ok s' => finish c.stop s'
  | .error err => .error err

section

variable {limit : Option Nat} {s : State} {c : Cursor}

theorem resume_of_isEof (h : c.peek.kind.isEof) : resume limit s c = finish c.peek s := by
  unfold resume Cursor.stop Cursor.peek at *
  cases htokens : c.tokens with
  | nil => rfl
  | cons token tokens =>
    have htoken : token.kind.isEof := by simpa [htokens] using h
    simp [body, htoken, pure, Except.pure]

theorem resume_eq_bind (h : c.peek.kind.isEof = false) :
    resume limit s c = (step limit s c.peek).bind fun s' => resume limit s' c.next := by
  cases htokens : c.tokens with
  | nil =>
    rw [Cursor.peek, htokens] at h
    simp [c.isEof_marker] at h
  | cons token tokens =>
    have hpeek : c.peek = token := by simp [Cursor.peek, htokens]
    have hbody : body c.tokens = token :: body c.next.tokens := by
      rw [hpeek] at h
      simp [body, Cursor.next, htokens, h]
    have hstop : c.stop = c.next.stop := by
      rw [hpeek] at h
      simp [Cursor.stop, Cursor.next, htokens, h]
    unfold resume
    rw [hbody, hstop, hpeek, List.foldlM_cons]
    cases step limit s token with
    | error err => rfl
    | ok s' => rfl

theorem resume_of_move {s' : State} (hmove : Move limit c.peek s s')
    (heof : c.peek.kind.isEof = false) : resume limit s c = resume limit s' c.next := by
  rw [resume_eq_bind heof]
  rw [step_eq_ok_iff.2 hmove]
  rfl

theorem resume_of_error {err : ParseError} (hstep : step limit s c.peek = .error err)
    (heof : c.peek.kind.isEof = false) : resume limit s c = .error err := by
  rw [resume_eq_bind heof]
  rw [hstep]
  rfl

end

section

variable {limit : Option Nat} {stack : List Frame} {c : Cursor}

theorem literal?_of_opening? {token : Token} {frame : Frame} (h : opening? token = some frame) :
    literal? token.kind = none := by
  rcases opening?_eq_some_iff.1 h with ⟨hkind, -⟩ | ⟨op, hop, -⟩
  . rw [hkind]
    rfl
  . rw [UnaryOp.ofKind?_eq_some_iff.1 hop]
    rfl

theorem isEof_of_opening? {token : Token} {frame : Frame} (h : opening? token = some frame) :
    token.kind.isEof = false := by
  rcases opening?_eq_some_iff.1 h with ⟨hkind, -⟩ | ⟨op, hop, -⟩
  . rw [hkind]
    rfl
  . apply isEof_of_unaryOp
    assumption

theorem opening?_eq_none {token : Token} (hop : UnaryOp.ofKind? token.kind = none)
    (hopen : token.kind ≠ .symbol .leftParen) : opening? token = none := by
  rw [Option.eq_none_iff_forall_ne_some]
  intro frame hframe
  rcases opening?_eq_some_iff.1 hframe with ⟨hkind, -⟩ | ⟨op, hkind, -⟩
  . contradiction
  . rw [hop] at hkind
    contradiction

theorem resume_opening {frame : Frame} (h : opening? c.peek = some frame)
    (hdepth : c.depth = depth stack) :
    resume limit (.operand stack) c =
      if limit.any fun n => n < c.enter.depth then
        .error ⟨.tooDeep, c.peek⟩
      else
        resume limit (.operand (frame :: stack)) c.enter := by
  have hfits : fits limit stack ↔ ¬limit.any fun n => n < c.enter.depth := by
    cases limit with
    | none => simp [fits]
    | some n =>
      simp only [fits, Option.all_some, Option.any_some, decide_eq_true_eq, Cursor.enter, hdepth]
      omega
  rw [resume_eq_bind (isEof_of_opening? h)]
  simp only [step, takeOperand, literal?_of_opening? h, h]
  by_cases hdeep : limit.any fun n => n < c.enter.depth
  . rw [if_pos hdeep, if_neg (by rwa [hfits, not_not])]
    rfl
  . rw [if_neg hdeep, if_pos (hfits.2 hdeep)]
    rfl

theorem resume_operand_error (hvalue : literal? c.peek.kind = none)
    (hopening : opening? c.peek = none) :
    resume limit (.operand stack) c = .error ⟨.expectExpression, c.peek⟩ := by
  cases heof : c.peek.kind.isEof with
  | true =>
    rw [resume_of_isEof heof]
    rfl
  | false =>
    apply resume_of_error
    . simp only [step, takeOperand, hvalue, hopening]
    . assumption

theorem resume_group_error {inner : Expr} (hop : BinaryOp.ofKind? c.peek.kind = none)
    (hclose : c.peek.kind ≠ .symbol .rightParen) :
    resume limit (.operator (.group :: stack) inner) c = .error ⟨.unclosedGrouping, c.peek⟩ := by
  cases heof : c.peek.kind.isEof with
  | true =>
    rw [resume_of_isEof heof]
    rfl
  | false =>
    apply resume_of_error
    . simp only [step, takeOperator, hop]
      split
      . contradiction
      . rfl
    . assumption

theorem reduce_binary {p : Nat} {op : BinaryOp} (h : p ≤ op.precedence) (left right : Expr)
    (token : Token) :
    reduce p (.binary left op token :: stack) right =
      reduce p stack (.binary left op token right) := by
  rw [reduce, if_pos h]

theorem resume_binary {op : BinaryOp}
    (hnext : ∀ op', BinaryOp.ofKind? c.peek.kind = some op' → op'.precedence ≤ op.precedence)
    (left right : Expr) (token : Token) :
    resume limit (.operator (.binary left op token :: stack) right) c =
      resume limit (.operator stack (.binary left op token right)) c := by
  -- Whatever is next closes the operator before anything else, as it binds no tighter.
  have hzero := @reduce_binary stack 0 op (Nat.zero_le _) left right token
  cases heof : c.peek.kind.isEof with
  | true =>
    rw [resume_of_isEof heof, resume_of_isEof heof]
    simp only [finish, hzero]
  | false =>
    have hstop : stopCause (.binary left op token :: stack) = stopCause stack := by
      simp [stopCause, Frame.isGroup]
    rw [resume_eq_bind heof, resume_eq_bind heof]
    simp only [step, takeOperator]
    cases hop : BinaryOp.ofKind? c.peek.kind with
    | none => simp only [hzero, hstop]
    | some op' => simp only [reduce_binary (hnext op' hop)]

theorem settled_of_admits {p : Nat} (h : Admits stack p) (hp : p < 4) : Settled stack := by
  unfold Settled
  split
  . simp only [Admits] at h
    omega
  . trivial

end

/--
A reading that starts where the other reader gets to `run` follows it: both stop at the same error,
or the other reader goes on from the expression and the cursor that are read.
-/
inductive Follows (limit : Option Nat) (precedence : Nat) (stack : List Frame)
    (run : Except ParseError Expr) {n : Nat} : Reading n → Prop where
  | stops {err : ParseError} (hrun : run = .error err) :
    Follows limit precedence stack run (.error err)
  | goesOn {e : Expr} {c : Cursor} {h : c.tokens.length < n}
    (hrun : run = resume limit (complete stack e) c) (hdepth : c.depth = depth stack)
    (hnext : ∀ op, BinaryOp.ofKind? c.peek.kind = some op → op.precedence < precedence) :
    Follows limit precedence stack run (.ok (e, ⟨c, h⟩))

section

variable {limit : Option Nat}

theorem Follows.bind {p p' : Nat} {stack stack' : List Frame} {run : Except ParseError Expr}
    {n m : Nat} {reading : Reading n} {f : Expr × { c : Cursor // c.tokens.length < n } → Reading m}
    (h : Follows limit p stack run reading)
    (hf : ∀ e c (hlt : c.tokens.length < n), run = resume limit (complete stack e) c →
      c.depth = depth stack →
      (∀ op, BinaryOp.ofKind? c.peek.kind = some op → op.precedence < p) →
      Follows limit p' stack' run (f (e, ⟨c, hlt⟩))) :
    Follows limit p' stack' run (reading >>= f) := by
  cases h with
  | stops hrun => exact .stops hrun
  | goesOn hrun hdepth hnext =>
    apply hf
    . assumption
    . assumption
    . assumption

theorem operator?_eq_some_iff {p : Nat} {kind : Kind} {op : BinaryOp} :
    operator? p kind = some op ↔ BinaryOp.ofKind? kind = some op ∧ op.precedence = p := by
  simp [operator?, Option.filter_eq_some_iff]

theorem precedence_lt_of_operator? {p : Nat} {kind : Kind} (h : operator? p kind = none)
    (hlt : ∀ op, BinaryOp.ofKind? kind = some op → op.precedence < p + 1) :
    ∀ op, BinaryOp.ofKind? kind = some op → op.precedence < p := by
  intro op hop
  have hle := hlt op hop
  have hne : op.precedence ≠ p := by
    intro hp
    rw [operator?_eq_some_iff.2 ⟨hop, hp⟩] at h
    contradiction
  omega

theorem close_follows {stack : List Frame} {c : Cursor} {n : Nat} {h : c.tokens.length < n}
    (inner : Expr) (hdepth : c.depth = depth (.group :: stack))
    (hnext : ∀ op, BinaryOp.ofKind? c.peek.kind ≠ some op) :
    Follows limit 4 stack (resume limit (.operator (.group :: stack) inner) c)
      (close inner c h) := by
  unfold close
  split
  . next hclose =>
    have hmove : Move limit c.peek (.operator (.group :: stack) inner)
        (complete stack (.group inner)) := .closeGroup hclose rfl
    rw [resume_of_move hmove (by rw [hclose]; rfl)]
    apply Follows.goesOn
    . rfl
    . rw [depth_group] at hdepth
      simp only [Cursor.leave, Cursor.next]
      omega
    . intro op _
      apply op.precedence_lt_four
  . next hclose =>
    have hnone := Option.eq_none_iff_forall_ne_some.2 hnext
    exact .stops (resume_group_error hnone hclose)

mutual

theorem operand_follows {p : Nat} {stack : List Frame} {c : Cursor} (hp : p ≤ 4)
    (hadmits : Admits stack p) (hdepth : c.depth = depth stack) :
    Follows limit p stack (resume limit (.operand stack) c) (operand limit p c) := by
  rw [operand]
  split
  . next hlt =>
    have hsettled := settled_of_admits hadmits hlt
    apply (operand_follows hlt (hadmits.mono (Nat.le_succ p)) hdepth).bind
    intro first rest hrest hrun hdepth hnext
    rw [complete_of_settled hsettled] at hrun
    rw [hrun]
    apply (chain_follows hlt hadmits first hdepth hnext).bind
    intro e rest' hrest' hrun hdepth hnext
    exact .goesOn hrun hdepth hnext
  . have hfour : p = 4 := by omega
    rw [hfour]
    apply unary_follows hdepth
termination_by (c.tokens.length, 4 - p + 2)

theorem chain_follows {p : Nat} {stack : List Frame} {c : Cursor} (hp : p < 4)
    (hadmits : Admits stack p) (left : Expr) (hdepth : c.depth = depth stack)
    (hnext : ∀ op, BinaryOp.ofKind? c.peek.kind = some op → op.precedence < p + 1) :
    Follows limit p stack (resume limit (.operator stack left) c) (chain limit p left c) := by
  rw [chain]
  split
  . next op hop =>
    have heof := isEof_of_operator? hop
    have hlt := c.length_next_lt heof
    rcases operator?_eq_some_iff.1 hop with ⟨hkind, rfl⟩
    have hmove : Move limit c.peek (.operator stack left)
        (.operand (.binary left op c.peek :: stack)) :=
      .operator hkind (reduce_of_admits hadmits left)
    have hright : Follows limit (op.precedence + 1) (.binary left op c.peek :: stack)
        (resume limit (.operand (.binary left op c.peek :: stack)) c.next)
        (operand limit (op.precedence + 1) c.next) := by
      apply operand_follows
      . omega
      . apply Nat.lt_succ_self
      . rw [depth_binary]
        exact hdepth
    rw [resume_of_move hmove heof]
    apply hright.bind
    intro right rest hrest hrun hdepth hnext
    have hsettled : Settled (.binary left op c.peek :: stack) := trivial
    have hlooser : ∀ op', BinaryOp.ofKind? rest.peek.kind = some op' →
        op'.precedence ≤ op.precedence := by
      intro op' hop'
      have := hnext op' hop'
      omega
    rw [complete_of_settled hsettled, resume_binary hlooser] at hrun
    rw [depth_binary] at hdepth
    rw [hrun]
    apply (chain_follows hp hadmits _ hdepth hnext).bind
    intro e rest' hrest' hrun hdepth hnext
    exact .goesOn hrun hdepth hnext
  . next hop =>
    have hsettled := settled_of_admits hadmits hp
    apply Follows.goesOn
    . rw [complete_of_settled hsettled]
    . assumption
    . exact precedence_lt_of_operator? hop hnext
termination_by (c.tokens.length, 0)

theorem unary_follows {stack : List Frame} {c : Cursor} (hdepth : c.depth = depth stack) :
    Follows limit 4 stack (resume limit (.operand stack) c) (unary limit c) := by
  rw [unary]
  split
  . next op hop =>
    have hlt : c.enter.tokens.length < c.tokens.length := c.length_next_lt (isEof_of_unaryOp hop)
    rw [resume_opening (opening?_eq_some_iff.2 (.inr ⟨op, hop, rfl⟩)) hdepth]
    split
    . exact .stops rfl
    . have hinner : c.enter.depth = depth (.unary op c.peek :: stack) := by
        rw [depth_unary, ← hdepth]
        rfl
      apply (unary_follows hinner).bind
      intro e rest hrest hrun hdepth hnext
      apply Follows.goesOn
      . exact hrun
      . rw [depth_unary] at hdepth
        simp only [Cursor.leave]
        omega
      . exact hnext
  . next hop => apply primary_follows hop hdepth
termination_by (c.tokens.length, 1)

theorem primary_follows {stack : List Frame} {c : Cursor}
    (hop : UnaryOp.ofKind? c.peek.kind = none) (hdepth : c.depth = depth stack) :
    Follows limit 4 stack (resume limit (.operand stack) c) (primary limit c) := by
  have hfour (kind : Kind) (op : BinaryOp) (_ : BinaryOp.ofKind? kind = some op) :=
    op.precedence_lt_four
  rw [primary]
  split
  . next value hvalue =>
    have hmove : Move limit c.peek (.operand stack) (complete stack (.literal value)) :=
      .literal (literal?_eq_some_iff.1 hvalue)
    rw [resume_of_move hmove (isEof_of_literal? hvalue)]
    apply Follows.goesOn
    . rfl
    . exact hdepth
    . apply hfour
  . next hvalue =>
    split
    . next hopen =>
      have hlt : c.enter.tokens.length < c.tokens.length :=
        c.length_next_lt (by rw [hopen]; rfl)
      rw [resume_opening (opening?_eq_some_iff.2 (.inl ⟨hopen, rfl⟩)) hdepth]
      split
      . exact .stops rfl
      . have hinner : c.enter.depth = depth (.group :: stack) := by
          rw [depth_group, ← hdepth]
          rfl
        have hsettled : Settled (.group :: stack) := trivial
        have hgroup : Follows limit 0 (.group :: stack)
            (resume limit (.operand (.group :: stack)) c.enter) (operand limit 0 c.enter) := by
          apply operand_follows
          . omega
          . trivial
          . assumption
        apply hgroup.bind
        intro inner rest hrest hrun hdepth hnext
        rw [complete_of_settled hsettled] at hrun
        rw [hrun]
        apply close_follows
        . assumption
        . intro op hop
          have := hnext op hop
          omega
    . next hopen =>
      have hopening := opening?_eq_none hop hopen
      exact .stops (resume_operand_error hvalue hopening)
termination_by (c.tokens.length, 0)

end

section

variable (tokens : List Token)

theorem body_append_marker {marker : Token} (h : marker.kind.isEof) :
    body (tokens ++ [marker]) = body tokens := by
  unfold body
  rw [List.takeWhile_append]
  split
  . next hlength =>
    have hwhole := List.IsPrefix.eq_of_length (List.takeWhile_prefix _) hlength
    rw [hwhole]
    simp [h]
  . rfl

theorem body_ofTokens : body (Cursor.ofTokens tokens).tokens = body tokens := by
  unfold Cursor.ofTokens
  split
  . split
    . rfl
    . apply body_append_marker
      rfl
  . apply body_append_marker
    rfl

theorem stop_marked (offset line : Nat) :
    (Cursor.ofTokens.marked tokens offset line).stop =
      (tokens.find? fun t => t.kind.isEof).getD ⟨.eof, "", ⟨offset, offset⟩, line⟩ := by
  unfold Cursor.ofTokens.marked Cursor.stop
  dsimp only
  rw [List.find?_append]
  cases tokens.find? fun t => t.kind.isEof with
  | none => rfl
  | some t => rfl

theorem stop_ofTokens : (Cursor.ofTokens tokens).stop = stop tokens := by
  unfold Cursor.ofTokens stop
  cases hlast : tokens.getLast? with
  | none =>
    dsimp only
    rw [stop_marked]
    cases tokens.find? fun t => t.kind.isEof with
    | none => rfl
    | some t => rfl
  | some last =>
    dsimp only
    split
    . next heof =>
      unfold Cursor.stop
      dsimp only
      cases hfind : tokens.find? fun t => t.kind.isEof with
      | none => exact absurd heof (List.find?_eq_none.1 hfind last (List.mem_of_getLast? hlast))
      | some t => rfl
    . rw [stop_marked]
      cases tokens.find? fun t => t.kind.isEof with
      | none => rfl
      | some t => rfl

theorem within_eq_resume :
    Parse.within limit tokens = resume limit (.operand []) (.ofTokens tokens) := by
  unfold Parse.within resume
  rewrite [body_ofTokens, stop_ofTokens]
  rfl

theorem resume_whole {e : Expr} {c : Cursor} (hnext : BinaryOp.ofKind? c.peek.kind = none) :
    resume limit (.operator [] e) c =
      if c.peek.kind.isEof then .ok e else .error ⟨.trailingInput, c.peek⟩ := by
  split
  . next heof =>
    rw [resume_of_isEof heof]
    rfl
  . next heof =>
    apply resume_of_error
    . simp only [step, takeOperator, hnext]
      split
      . next hreduce => cases hreduce
      . rfl
    . simpa using heof

theorem depth_ofTokens : (Cursor.ofTokens tokens).depth = 0 := by
  unfold Cursor.ofTokens
  split
  . split
    . rfl
    . rfl
  . rfl

theorem within_eq : within limit tokens = Parse.within limit tokens := by
  have hfollows : Follows limit 0 [] (resume limit (.operand []) (.ofTokens tokens))
      (operand limit 0 (.ofTokens tokens)) := by
    apply operand_follows
    . omega
    . trivial
    . apply depth_ofTokens
  rw [within_eq_resume]
  unfold within
  generalize operand limit 0 (.ofTokens tokens) = reading at hfollows
  cases hfollows with
  | stops hrun =>
    rw [hrun]
    rfl
  | goesOn hrun hdepth hnext =>
    rw [hrun]
    have hnone := Option.eq_none_iff_forall_ne_some.2 fun op hop => Nat.not_lt_zero _ (hnext op hop)
    exact (resume_whole hnone).symm

theorem read_eq_ofTokens : read tokens = Expr.ofTokens tokens :=
  within_eq tokens

theorem within_some_eq (n : Nat) :
    within (some n) tokens =
      match firstAtDepth? (n + 1) (.operand []) (body tokens) with
      | some token => .error ⟨.tooDeep, token⟩
      | none => within none tokens := by
  rw [within_eq, within_eq]
  apply Parse.within_some_eq

end

theorem finish_eq_match {marker marker' : Token} (h : marker'.kind.isEof) (s : State) :
    finish marker s =
      match finish marker' s with
      | .ok e => .ok e
      | .error err => .error ⟨err.cause, if err.token.kind.isEof then marker else err.token⟩ := by
  cases s with
  | operand stack => simp [finish, h]
  | operator stack left =>
    simp only [finish]
    split
    . rfl
    . simp [h]

theorem within_eq_match_body (tokens : List Token) :
    Parse.within limit tokens =
      match Parse.within limit (body tokens) with
      | .ok e => .ok e
      | .error err =>
        .error ⟨err.cause, if err.token.kind.isEof then stop tokens else err.token⟩ := by
  have hbody : ∀ t ∈ body tokens, t.kind.isEof = false := by
    intro t ht
    simpa using List.mem_takeWhile_imp ht
  have hstop : (stop (body tokens)).kind.isEof := by rw [stop_kind]; rfl
  unfold Parse.within
  rw [body_eq_self hbody]
  cases hrun : (body tokens).foldlM (step limit) (.operand []) with
  | ok s => exact finish_eq_match hstop s
  | error err =>
    have heof := hbody err.token (foldlM_error_token_mem hrun)
    simp [heof]

end

/--
Both readers read the same and never look beyond the first end marker, or beyond the last token if
there is none: they read what is in front of it. An error at the end is at that marker, or at one
that stands directly behind the last token and in its line.
-/
theorem read_stops_at_first_marker (tokens : List Token) :
    read tokens = Expr.ofTokens tokens
      ∧
    read tokens =
      match read (tokens.takeWhile fun t => !t.kind.isEof) with
      | .ok e => .ok e
      | .error err =>
        .error ⟨err.cause, if err.token.kind.isEof then stop tokens else err.token⟩ := by
  refine ⟨read_eq_ofTokens tokens, ?_⟩
  rw [read_eq_ofTokens, read_eq_ofTokens]
  apply within_eq_match_body

end Vyraz.Descent
