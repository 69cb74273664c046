import Vyraz.Proofs.Placed

namespace Vyraz

namespace Parse

def State.reduced (precedence : Nat) : State → Option (List Frame × Expr)
  | operand _ => none
  | operator stack left => some (reduce precedence stack left)

section

variable {limit : Option Nat} {s : State} {token : Token} {rest : List Frame}

theorem State.move_operator {op : BinaryOp} {whole : Expr}
    (hop : BinaryOp.ofKind? token.kind = some op)
    (h : s.reduced op.precedence = some (rest, whole)) :
    Move limit token s (.operand (.binary whole op token :: rest)) := by
  cases s with
  | operand stack => contradiction
  | operator stack left =>
    apply Move.operator
    . assumption
    . exact Option.some.inj h

theorem State.move_closeGroup {inner : Expr} (hkind : token.kind = .symbol .rightParen)
    (h : s.reduced 0 = some (.group :: rest, inner)) :
    Move limit token s (complete rest (.group inner)) := by
  cases s with
  | operand stack => contradiction
  | operator stack left =>
    apply Move.closeGroup
    . assumption
    . exact Option.some.inj h

end

theorem complete_of_settled {stack : List Frame} (h : Settled stack) (e : Expr) :
    complete stack e = .operator stack e := by
  unfold complete
  split
  . exact h.elim
  . rfl

theorem reduce_of_admits {p : Nat} {stack : List Frame} (h : Admits stack p) (e : Expr) :
    reduce p stack e = (stack, e) := by
  unfold reduce
  split
  . rw [if_neg (Nat.not_le_of_lt h)]
  . rfl

theorem Allows.open_frame {limit : Option Nat} {stack : List Frame} {n : Nat}
    (h : Allows limit (depth stack + (n + 1))) (frame : Frame) (hframe : frame.isNesting) :
    fits limit stack ∧ Allows limit (depth (frame :: stack) + n) := by
  have hdepth : depth (frame :: stack) = depth stack + 1 := List.countP_cons_of_pos hframe
  constructor
  . rw [fits_iff_allows]
    apply h.mono
    omega
  . rw [hdepth]
    apply h.mono
    omega

theorem leads_of_spelledBy {limit : Option Nat} {e : Expr} (hshape : e.Shaped)
    (stack : List Frame) {tokens : List Token} (hadmits : Admits stack e.tightness)
    (hallows : Allows limit (depth stack + e.nesting)) (hspell : e.SpelledBy tokens) :
    ∃ s, Leads limit (.operand stack) tokens s
      ∧ ∀ p ≤ e.tightness, s.reduced p = (complete stack e).reduced p := by
  -- For every stack, since operands are read on top of the frames in front of them. Behind a binary
  -- operator the place reached is not `complete stack e`: frames of the tree itself are still open,
  -- and only what comes next closes them.
  induction e generalizing stack tokens with
  | literal v =>
    rcases Expr.spelledBy_literal_iff.1 hspell with ⟨t, rfl, ht⟩
    refine ⟨complete stack (.literal v), ?_, fun _ _ => rfl⟩
    rw [leads_cons_iff]
    exact ⟨_, .literal ht, leads_nil_iff.2 rfl⟩
  | group inner ih =>
    rcases Expr.spelledBy_group_iff.1 hspell with ⟨opening, us, closing, rfl, hopen, hus, hclose⟩
    rcases hallows.open_frame .group rfl with ⟨hfits, hinner⟩
    rcases ih hshape (.group :: stack) trivial hinner hus with ⟨s, hrun, hs⟩
    have hreduced : s.reduced 0 = some (.group :: stack, inner) := by
      rw [hs 0 (Nat.zero_le _)]
      rfl
    refine ⟨complete stack (.group inner), ?_, fun _ _ => rfl⟩
    rw [leads_cons_iff]
    refine ⟨_, .openGroup hopen hfits, ?_⟩
    rw [leads_append_iff]
    refine ⟨s, hrun, ?_⟩
    rw [leads_cons_iff]
    exact ⟨_, State.move_closeGroup hclose hreduced, leads_nil_iff.2 rfl⟩
  | unary op token operand ih =>
    rcases hshape with ⟨hop, htight, hoperand⟩
    rcases Expr.spelledBy_unary_iff.1 hspell with ⟨us, rfl, hus⟩
    rcases hallows.open_frame (.unary op token) rfl with ⟨hfits, hinner⟩
    have hadmits : Admits (.unary op token :: stack) operand.tightness := Nat.le_of_eq htight.symm
    rcases ih hoperand (.unary op token :: stack) hadmits hinner hus with ⟨s, hrun, hs⟩
    refine ⟨s, leads_cons_iff.2 ⟨_, .openUnary hop hfits, hrun⟩, ?_⟩
    intro p hp
    rw [htight] at hs
    exact hs p hp
  | binary left op token right lih rih =>
    rcases hshape with ⟨hop, hleft_tight, hright_tight, hleft, hright⟩
    rcases Expr.spelledBy_binary_iff.1 hspell with ⟨us, vs, rfl, hus, hvs⟩
    have hadmits : Admits stack op.precedence := hadmits
    have hsettled : Settled stack := hadmits.settled
    rw [Expr.nesting, ← Nat.add_max_add_left, allows_max_iff] at hallows
    rcases lih hleft stack (hadmits.mono hleft_tight) hallows.1 hus with ⟨s, hrun, hs⟩
    have hreduced : s.reduced op.precedence = some (stack, left) := by
      rw [hs _ hleft_tight, complete_of_settled hsettled]
      exact congrArg some (reduce_of_admits hadmits left)
    have hright_allows : Allows limit (depth (.binary left op token :: stack) + right.nesting) := by
      rw [depth_binary]
      exact hallows.2
    rcases rih hright (.binary left op token :: stack) hright_tight hright_allows hvs with
      ⟨s', hrun', hs'⟩
    refine ⟨s', ?_, ?_⟩
    . rw [leads_append_iff]
      refine ⟨s, hrun, ?_⟩
      rw [leads_cons_iff]
      exact ⟨_, State.move_operator hop hreduced, hrun'⟩
    . intro p hp
      have hp : p ≤ op.precedence := hp
      rw [hs' p (by omega), complete_of_settled hsettled]
      simp only [complete, State.reduced, reduce, if_pos hp]

theorem within_eq_ok_iff_shaped {limit : Option Nat} {tokens : List Token} {e : Expr} :
    within limit tokens = .ok e
      ↔
    e.Shaped ∧ Allows limit e.nesting ∧ e.SpelledBy (body tokens) := by
  rw [within_eq_ok_iff]
  constructor
  . intro h
    rcases h with ⟨stack, left, hrun, hreduce⟩
    rcases reached_of_leads hrun with ⟨⟨hplaced, -, -⟩, hfits⟩
    have hwhole := reduce_placed 0 hplaced
    have hmarks := reduce_marks 0 stack left
    rw [hreduce] at hwhole hmarks
    refine ⟨hwhole.shaped, ?_, ?_⟩
    . simpa using hwhole.allows
    . rw [State.marks, ← hmarks] at hfits
      exact hfits
  . intro h
    rcases h with ⟨hshape, hallows, hspell⟩
    rcases leads_of_spelledBy hshape [] trivial (by simpa using hallows) hspell with ⟨s, hrun, hs⟩
    have hreduced : s.reduced 0 = some ([], e) := hs 0 (Nat.zero_le _)
    cases s with
    | operand stack => contradiction
    | operator stack left => exact ⟨stack, left, hrun, Option.some.inj hreduced⟩

theorem allows_maxDepth_iff {n : Nat} : Allows (some maxDepth) n ↔ n ≤ maxDepth := by
  simp [Allows]

end Parse

namespace Expr

theorem ofTokens_eq_ok_iff {tokens : List Token} {e : Expr} :
    ofTokens tokens = .ok e ↔ e.WellShaped ∧ e.SpelledBy (Parse.body tokens) := by
  rw [ofTokens]
  rw [Parse.within_eq_ok_iff_shaped]
  rw [Parse.allows_maxDepth_iff]
  constructor
  . intro h
    rcases h with ⟨hshape, hallows, hspell⟩
    exact ⟨⟨hshape, hallows⟩, hspell⟩
  . intro h
    rcases h with ⟨⟨hshape, hallows⟩, hspell⟩
    exact ⟨hshape, hallows, hspell⟩

/--
Reading and flattening are inverse to each other. What tokens without an end marker are read as is
well-shaped and flattens to them, and whatever tokens flatten from a well-shaped tree are read as
this tree.
-/
theorem ofTokens_inverse_flatten :
    (∀ tokens e, (∀ t ∈ tokens, t.kind.isEof = false) → ofTokens tokens = .ok e →
      e.WellShaped ∧ e.SpelledBy tokens)
      ∧
    (∀ tokens e, e.WellShaped → e.SpelledBy tokens → ofTokens tokens = .ok e) := by
  constructor
  . intro tokens e heof h
    rw [ofTokens_eq_ok_iff] at h
    rw [Parse.body_eq_self heof] at h
    assumption
  . intro tokens e hshape hspell
    have heof := isEof_of_spelledBy hshape.shaped hspell
    rw [ofTokens_eq_ok_iff]
    rw [Parse.body_eq_self heof]
    exact ⟨hshape, hspell⟩

def twoMinusTokens : List Token :=
  [⟨.symbol .minus, "-", ⟨0, 1⟩, 1⟩, ⟨.string "a", "\"a\"", ⟨1, 4⟩, 1⟩,
    ⟨.symbol .minus, "-", ⟨5, 6⟩, 1⟩, ⟨.symbol .leftParen, "(", ⟨7, 8⟩, 1⟩,
    ⟨.string "b", "\"b\"", ⟨8, 11⟩, 1⟩, ⟨.symbol .rightParen, ")", ⟨11, 12⟩, 1⟩]

def twoMinusTree : Expr :=
  .binary (.unary .negate ⟨.symbol .minus, "-", ⟨0, 1⟩, 1⟩ (.literal (.string "a")))
    .subtract ⟨.symbol .minus, "-", ⟨5, 6⟩, 1⟩ (.group (.literal (.string "b")))

theorem twoMinus_spelledBy : twoMinusTree.SpelledBy twoMinusTokens := by
  simp [SpelledBy, twoMinusTree, twoMinusTokens, flatten, Mark.Fits, Value.kind]

theorem ofTokens_twoMinus :
    (twoMinusTree.WellShaped ∧ twoMinusTree.SpelledBy twoMinusTokens)
      ∧
    ofTokens twoMinusTokens = .ok twoMinusTree :=
  ⟨ofTokens_inverse_flatten.1 twoMinusTokens twoMinusTree (by decide) rfl,
    ofTokens_inverse_flatten.2 twoMinusTokens twoMinusTree ⟨by decide, by decide⟩
      twoMinus_spelledBy⟩

end Expr
end Vyraz
