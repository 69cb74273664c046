import Vyraz.Proofs.Provenance

/-!
This module contains the nesting limit of the reader of expressions. The depth that the reader
counts while it reads is the nesting of the tree around each token, so the limit stops it at the
first token that would open a node beyond the limit, and changes nothing else.
-/

namespace Vyraz

namespace Expr

/--
What the tokens of a tree open, in reading order, inside a number of groupings and unary operators:
for a token that opens one of these itself, how many are around it.
-/
def openings (around : Nat) : Expr → List (Option Nat)
  | literal _ => [none]
  | group inner => some around :: (inner.openings (around + 1) ++ [none])
  | unary _ _ operand => some around :: operand.openings (around + 1)
  | binary left _ _ right => left.openings around ++ none :: right.openings around

end Expr

namespace Parse

def firstOpening? (n : Nat) (openings : List (Option Nat)) (tokens : List Token) : Option Token :=
  (openings.zip tokens).findSome? fun (around, token) =>
    if around = some n then some token else none

def State.depth : State → Nat
  | operand stack => Parse.depth stack
  | operator stack _ => Parse.depth stack

@[simp]
theorem State.depth_operand (stack : List Frame) : (operand stack).depth = Parse.depth stack := rfl

@[simp]
theorem State.depth_operator (stack : List Frame) (left : Expr) :
    (operator stack left).depth = Parse.depth stack := rfl

def firstAtDepth? (n : Nat) (s : State) : List Token → Option Token
  | [] => none
  | token :: tokens =>
    match step none s token with
    | .ok s' => if s'.depth = n then some token else firstAtDepth? n s' tokens
    | .error _ => none

def tooDeepAt? (tokens : List Token) : Option Token :=
  firstAtDepth? (maxDepth + 1) (.operand []) (body tokens)

theorem depth_reduce (p : Nat) (stack : List Frame) (e : Expr) :
    depth (reduce p stack e).1 = depth stack := by
  fun_induction reduce p stack e with
  | case1 e left op token stack hp ih => rw [ih, depth_binary]
  | case2 => rfl
  | case3 => rfl

theorem depth_complete_le (stack : List Frame) (e : Expr) :
    (complete stack e).depth ≤ depth stack := by
  fun_induction complete stack e with
  | case1 e op token stack ih =>
    rw [depth_unary]
    omega
  | case2 => exact Nat.le_refl _

def openings : List Frame → List (Option Nat)
  | [] => []
  | .group :: rest => openings rest ++ [some (depth rest)]
  | .unary _ _ :: rest => openings rest ++ [some (depth rest)]
  | .binary left _ _ :: rest => openings rest ++ (left.openings (depth rest) ++ [none])

def State.openings : State → List (Option Nat)
  | operand stack => Parse.openings stack
  | operator stack left => Parse.openings stack ++ left.openings (Parse.depth stack)

theorem reduce_openings (p : Nat) (stack : List Frame) (e : Expr) :
    openings (reduce p stack e).1 ++ (reduce p stack e).2.openings (depth (reduce p stack e).1) =
      openings stack ++ e.openings (depth stack) := by
  fun_induction reduce p stack e with
  | case1 e left op token stack hp ih =>
    rw [ih, depth_binary]
    simp [openings, Expr.openings]
  | case2 => rfl
  | case3 => rfl

theorem complete_openings (stack : List Frame) (e : Expr) :
    (complete stack e).openings = openings stack ++ e.openings (depth stack) := by
  fun_induction complete stack e with
  | case1 e op token stack ih =>
    rw [ih, depth_unary]
    simp [openings, Expr.openings]
  | case2 => rfl

theorem depth_opening {token : Token} {frame : Frame} (h : opening? token = some frame)
    (stack : List Frame) : depth (frame :: stack) = depth stack + 1 := by
  rcases opening?_eq_some_iff.1 h with ⟨-, rfl⟩ | ⟨op, -, rfl⟩
  . apply depth_group
  . apply depth_unary

namespace Move

variable {limit : Option Nat} {token : Token} {s s' : State}

theorem depth_le_of_operator {stack : List Frame} {left : Expr}
    (h : Move limit token (.operator stack left) s') : s'.depth ≤ depth stack := by
  cases h with
  | @operator _ rest _ whole op hop hreduce =>
    have hdepth := depth_reduce op.precedence stack left
    rw [hreduce] at hdepth
    simp [← hdepth]
  | @closeGroup _ rest _ inner hkind hreduce =>
    have hdepth := depth_reduce 0 stack left
    have hle := depth_complete_le rest (.group inner)
    simp only [hreduce, depth_group] at hdepth
    omega

theorem depth_le (h : Move limit token s s') : s'.depth ≤ s.depth + 1 := by
  cases s with
  | operator stack left =>
    apply Nat.le_succ_of_le
    exact h.depth_le_of_operator
  | operand stack =>
    cases h with
    | literal =>
      apply Nat.le_succ_of_le
      apply depth_complete_le
    | openGroup => simp
    | openUnary => simp

theorem openings_eq (h : Move limit token s s') :
    s'.openings = s.openings ++ [if s.depth < s'.depth then some s.depth else none] := by
  cases s with
  | operand stack =>
    cases h with
    | @literal _ v =>
      have hle := depth_complete_le stack (.literal v)
      rw [complete_openings, State.depth_operand, if_neg (Nat.not_lt_of_le hle)]
      rfl
    | openGroup => simp [State.openings, Parse.openings]
    | openUnary => simp [State.openings, Parse.openings]
  | operator stack left =>
    rw [State.depth_operator, if_neg (Nat.not_lt_of_le h.depth_le_of_operator)]
    cases h with
    | @operator _ rest _ whole op hop hreduce =>
      have hopenings := reduce_openings op.precedence stack left
      simp only [hreduce] at hopenings
      simp [State.openings, Parse.openings, ← hopenings]
    | @closeGroup _ rest _ inner hkind hreduce =>
      have hopenings := reduce_openings 0 stack left
      simp only [hreduce] at hopenings
      rw [complete_openings]
      simp [State.openings, Parse.openings, Expr.openings, ← hopenings]

end Move

section

variable {n : Nat} {s : State} {tokens : List Token}

theorem step_some_eq (h : s.depth ≤ n) (token : Token) :
    step (some n) s token =
      match step none s token with
      | .ok s' => if s'.depth = n + 1 then .error ⟨.tooDeep, token⟩ else .ok s'
      | .error err => .error err := by
  have hlow {s' : State} (hle : s'.depth ≤ s.depth) : s'.depth ≠ n + 1 := by omega
  cases s with
  | operator stack left =>
    simp only [step]
    cases hstep : takeOperator stack left token with
    | error err => rfl
    | ok s' =>
      have hmove : Move none token (.operator stack left) s' := takeOperator_eq_ok_iff.1 hstep
      exact (if_neg (hlow hmove.depth_le_of_operator)).symm
  | operand stack =>
    simp only [step, takeOperand]
    cases literal? token.kind with
    | some v => exact (if_neg (hlow (depth_complete_le stack _))).symm
    | none =>
      cases hopening : opening? token with
      | none => rfl
      | some frame =>
        have hdepth := depth_opening hopening stack
        have hle : depth stack ≤ n := h
        simp only [fits, Option.all_some, Option.all_none, decide_eq_true_eq, State.depth_operand,
          hdepth, if_true]
        by_cases hlt : depth stack < n
        . rw [if_pos hlt, if_neg (by omega)]
        . rw [if_neg hlt, if_pos (by omega)]

theorem foldlM_step_some (h : s.depth ≤ n) :
    tokens.foldlM (step (some n)) s =
      match firstAtDepth? (n + 1) s tokens with
      | some token => .error ⟨.tooDeep, token⟩
      | none => tokens.foldlM (step none) s := by
  induction tokens generalizing s with
  | nil => rfl
  | cons token tokens ih =>
    rw [List.foldlM_cons, List.foldlM_cons, step_some_eq h, firstAtDepth?]
    cases hstep : step none s token with
    | error err => rfl
    | ok m =>
      have hle := (step_eq_ok_iff.1 hstep).depth_le
      dsimp only
      by_cases hdeep : m.depth = n + 1
      . rw [if_pos hdeep, if_pos hdeep]
        rfl
      . rw [if_neg hdeep, if_neg hdeep]
        exact ih (by omega)

theorem within_some_eq (n : Nat) (tokens : List Token) :
    within (some n) tokens =
      match firstAtDepth? (n + 1) (.operand []) (body tokens) with
      | some token => .error ⟨.tooDeep, token⟩
      | none => within none tokens := by
  unfold within
  rw [foldlM_step_some (Nat.zero_le n)]
  cases firstAtDepth? (n + 1) (.operand []) (body tokens) with
  | none => rfl
  | some token => rfl

theorem opening?_of_tooDeep {limit : Option Nat} {token t : Token}
    (h : step limit s token = .error ⟨.tooDeep, t⟩) : ∃ frame, opening? t = some frame := by
  cases s with
  | operator stack left =>
    unfold step takeOperator at h
    dsimp only at h
    split at h
    . contradiction
    . split at h
      . contradiction
      . simp only [stopCause, Except.error.injEq, ParseError.mk.injEq] at h
        split at h
        . simp at h
        . simp at h
  | operand stack =>
    unfold step takeOperand at h
    dsimp only at h
    split at h
    . contradiction
    . split at h
      . next frame hframe =>
        split at h
        . contradiction
        . cases h
          exact ⟨frame, hframe⟩
      . cases h

theorem firstOpening?_cons (around : Option Nat) (opened : List (Option Nat)) (token : Token) :
    firstOpening? n (around :: opened) (token :: tokens) =
      if around = some n then some token else firstOpening? n opened tokens := by
  unfold firstOpening?
  rw [List.zip_cons_cons, List.findSome?_cons]
  by_cases h : around = some n
  . simp [h]
  . simp [h]

theorem Leads.openings_eq {s' : State} (hrun : Leads none s tokens s') :
    ∃ opened, s'.openings = s.openings ++ opened
      ∧ (s.depth ≤ n → firstAtDepth? (n + 1) s tokens = firstOpening? n opened tokens) := by
  induction tokens generalizing s with
  | nil =>
    rw [leads_nil_iff] at hrun
    subst hrun
    exact ⟨[], (List.append_nil _).symm, fun _ => rfl⟩
  | cons token tokens ih =>
    rcases leads_cons_iff.1 hrun with ⟨m, hmove, hrest⟩
    have hle := hmove.depth_le
    rcases ih hrest with ⟨opened, hs', hfirst⟩
    refine ⟨(if s.depth < m.depth then some s.depth else none) :: opened, ?_, ?_⟩
    . rw [hs', hmove.openings_eq, List.append_assoc, List.singleton_append]
    intro h
    rw [firstAtDepth?, step_eq_ok_iff.2 hmove, firstOpening?_cons]
    dsimp only
    by_cases hdeep : m.depth = n + 1
    . -- The depth has grown to this by one, so exactly `n` are around the token.
      have hrise : s.depth < m.depth := by omega
      have hn : s.depth = n := by omega
      rw [if_pos hdeep, if_pos hrise, hn, if_pos rfl]
    . have hother : ¬(if s.depth < m.depth then some s.depth else none) = some n := by
        split
        . simp only [Option.some.injEq]
          omega
        . simp
      rw [if_neg hdeep, if_neg hother]
      exact hfirst (by omega)

theorem firstAtDepth?_of_within {e : Expr} (h : within none tokens = .ok e) (n : Nat) :
    firstAtDepth? (n + 1) (.operand []) (body tokens) =
      firstOpening? n (e.openings 0) (body tokens) := by
  rcases within_eq_ok_iff.1 h with ⟨stack, left, hrun, hreduce⟩
  have hopenings := reduce_openings 0 stack left
  simp only [hreduce, openings, depth_nil, List.nil_append] at hopenings
  rcases hrun.openings_eq with ⟨opened, hs, hfirst⟩
  simp only [State.openings, openings, List.nil_append, ← hopenings] at hs
  rw [hs]
  exact hfirst (Nat.zero_le n)

end

end Parse

namespace Expr

section

variable {tokens : List Token}

theorem ofTokens_of_tooDeepAt? {token : Token} (h : Parse.tooDeepAt? tokens = some token) :
    ofTokens tokens = .error ⟨.tooDeep, token⟩ := by
  rw [Parse.tooDeepAt?] at h
  rw [ofTokens, Parse.within_some_eq, h]

theorem ofTokens_of_tooDeepAt?_eq_none (h : Parse.tooDeepAt? tokens = none) :
    ofTokens tokens = Parse.within none tokens := by
  rw [Parse.tooDeepAt?] at h
  rw [ofTokens, Parse.within_some_eq, h]

theorem kind_of_tooDeep {token : Token} (h : ofTokens tokens = .error ⟨.tooDeep, token⟩) :
    token.kind ∈ [.symbol .minus, .symbol .bang, .symbol .leftParen] := by
  unfold ofTokens Parse.within at h
  split at h
  . rcases (Parse.finish_error h).2 with hcause | hcause
    . contradiction
    . contradiction
  . next hrun =>
    cases h
    rcases Parse.foldlM_step_eq_error_iff.1 hrun with ⟨_, _, _, _, -, -, hstop⟩
    rcases Parse.opening?_of_tooDeep hstop with ⟨frame, hframe⟩
    exact Parse.opening?_isSome_iff.1 (by rw [hframe]; rfl)

theorem tooDeepAt?_isSome_iff {e : Expr} (h : Parse.within none tokens = .ok e) :
    (Parse.tooDeepAt? tokens).isSome ↔ Parse.maxDepth < e.nesting := by
  rcases Parse.within_eq_ok_iff_shaped.1 h with ⟨hshape, -, hspell⟩
  cases hdeep : Parse.tooDeepAt? tokens with
  | none =>
    have hread := ofTokens_of_tooDeepAt?_eq_none hdeep
    rw [h, ofTokens_eq_ok_iff] at hread
    simpa using hread.1.shallow
  | some token =>
    simp only [Option.isSome_some, true_iff]
    by_contra hle
    have hread : ofTokens tokens = .ok e :=
      ofTokens_eq_ok_iff.2 ⟨⟨hshape, Nat.le_of_not_lt hle⟩, hspell⟩
    rw [ofTokens_of_tooDeepAt? hdeep] at hread
    contradiction

end

/--
The limit is exact. Unless the depth goes beyond it, tokens are read as without a limit; else the
error is at the token that first brings the depth there, which opens a grouping or is a unary
operator. For the tokens of a tree this depends on the nesting of the tree alone, and the token is
the first one that opens a node inside as many others as the limit allows.
-/
theorem ofTokens_limit_exact (tokens : List Token) :
    (∀ token, Parse.tooDeepAt? tokens = some token →
      ofTokens tokens = .error ⟨.tooDeep, token⟩
        ∧ token.kind ∈ [.symbol .minus, .symbol .bang, .symbol .leftParen])
      ∧
    (Parse.tooDeepAt? tokens = none → ofTokens tokens = Parse.within none tokens)
      ∧
    (∀ e, Parse.within none tokens = .ok e →
      ((Parse.tooDeepAt? tokens).isSome ↔ Parse.maxDepth < e.nesting)
        ∧ Parse.tooDeepAt? tokens =
            Parse.firstOpening? Parse.maxDepth (e.openings 0) (Parse.body tokens)) := by
  refine ⟨?_, ofTokens_of_tooDeepAt?_eq_none, ?_⟩
  . intro token hdeep
    have herror := ofTokens_of_tooDeepAt? hdeep
    exact ⟨herror, kind_of_tooDeep herror⟩
  . intro e he
    exact ⟨tooDeepAt?_isSome_iff he, Parse.firstAtDepth?_of_within he Parse.maxDepth⟩

def bangAt (i : Nat) : Token :=
  ⟨.symbol .bang, "!", ⟨i + 4, i + 5⟩, 1⟩

def bangTokens (n : Nat) : List Token :=
  ⟨.string "a", "\"a\"", ⟨0, 3⟩, 1⟩ :: ⟨.symbol .minus, "-", ⟨3, 4⟩, 1⟩
    :: ((List.range n).map bangAt ++ [⟨.string "b", "\"b\"", ⟨n + 4, n + 7⟩, 1⟩])

def bangTree (n : Nat) : Expr :=
  .binary (.literal (.string "a")) .subtract ⟨.symbol .minus, "-", ⟨3, 4⟩, 1⟩
    ((List.range n).foldr (fun i e => .unary .not (bangAt i) e) (.literal (.string "b")))

theorem ofTokens_bangTokens :
    (ofTokens (bangTokens 65) = .error ⟨.tooDeep, bangAt 64⟩
        ∧ (bangAt 64).kind ∈ [.symbol .minus, .symbol .bang, .symbol .leftParen])
      ∧
    ofTokens (bangTokens 64) = Parse.within none (bangTokens 64)
      ∧
    ((Parse.tooDeepAt? (bangTokens 65)).isSome ↔ Parse.maxDepth < (bangTree 65).nesting)
      ∧
    Parse.tooDeepAt? (bangTokens 65) =
      Parse.firstOpening? Parse.maxDepth ((bangTree 65).openings 0)
        (Parse.body (bangTokens 65)) :=
  ⟨(ofTokens_limit_exact (bangTokens 65)).1 (bangAt 64) rfl,
    (ofTokens_limit_exact (bangTokens 64)).2.1 rfl,
    (ofTokens_limit_exact (bangTokens 65)).2.2 (bangTree 65) rfl⟩

end Expr
end Vyraz
