import Vyraz.Proofs.Move

/-!
This module contains the invariant of the reader of expressions. What the open frames and the last
operand hold is shaped, each of it may stand where it stands, its nesting is within the limit, and
together it flattens to the marks of the tokens taken so far.
-/

namespace Vyraz.Parse

def Allows (limit : Option Nat) (n : Nat) : Prop :=
  ∀ m ∈ limit, n ≤ m

theorem Allows.mono {limit : Option Nat} {n n' : Nat} (h : Allows limit n) (hle : n' ≤ n) :
    Allows limit n' := by
  intro m hm
  apply Nat.le_trans hle
  apply h
  assumption

theorem allows_max_iff {limit : Option Nat} {n n' : Nat} :
    Allows limit (max n n') ↔ Allows limit n ∧ Allows limit n' := by
  simp only [Allows, Nat.max_le]
  constructor
  . intro h
    constructor
    . intro m hm
      exact (h m hm).1
    . intro m hm
      exact (h m hm).2
  . intro h m hm
    exact ⟨h.1 m hm, h.2 m hm⟩

theorem fits_iff_allows {limit : Option Nat} {stack : List Frame} :
    fits limit stack ↔ Allows limit (depth stack + 1) := by
  cases limit with
  | none => simp [fits, Allows]
  | some n =>
    simp only [fits, Allows, Option.all_some, decide_eq_true_eq, Option.mem_def, Option.some.injEq,
      forall_eq']
    omega

@[simp]
theorem depth_nil : depth [] = 0 := rfl

@[simp]
theorem depth_group (stack : List Frame) : depth (.group :: stack) = depth stack + 1 :=
  List.countP_cons_of_pos rfl

@[simp]
theorem depth_unary (op : UnaryOp) (token : Token) (stack : List Frame) :
    depth (.unary op token :: stack) = depth stack + 1 :=
  List.countP_cons_of_pos rfl

@[simp]
theorem depth_binary (left : Expr) (op : BinaryOp) (token : Token) (stack : List Frame) :
    depth (.binary left op token :: stack) = depth stack := by
  simp [depth, Frame.isNesting]

def Admits : List Frame → Nat → Prop
  | .binary _ op _ :: _, n => op.precedence < n
  | .unary _ _ :: _, n => 4 ≤ n
  | _, _ => True

theorem admits_four (stack : List Frame) : Admits stack 4 := by
  unfold Admits
  split
  . apply BinaryOp.precedence_lt_four
  . apply Nat.le_refl
  . trivial

theorem Admits.mono {stack : List Frame} {n n' : Nat} (h : Admits stack n) (hle : n ≤ n') :
    Admits stack n' := by
  match stack with
  | [] => trivial
  | .group :: _ => trivial
  | .unary _ _ :: _ =>
    simp only [Admits] at h ⊢
    omega
  | .binary _ _ _ :: _ =>
    simp only [Admits] at h ⊢
    omega

def Settled : List Frame → Prop
  | .unary _ _ :: _ => False
  | _ => True

theorem Admits.settled {stack : List Frame} {op : BinaryOp} (h : Admits stack op.precedence) :
    Settled stack := by
  unfold Settled
  split
  . have := op.precedence_lt_four
    simp only [Admits] at h
    omega
  . trivial

def Sound (limit : Option Nat) : List Frame → Prop
  | [] => True
  | .group :: rest => Allows limit (depth rest + 1) ∧ Sound limit rest
  | .unary op token :: rest =>
    UnaryOp.ofKind? token.kind = some op ∧ Allows limit (depth rest + 1) ∧ Sound limit rest
  | .binary left op token :: rest =>
    BinaryOp.ofKind? token.kind = some op ∧ left.Shaped ∧ op.precedence ≤ left.tightness
      ∧ Admits rest op.precedence ∧ Allows limit (depth rest + left.nesting) ∧ Sound limit rest

theorem Sound.allows_depth {limit : Option Nat} {stack : List Frame} (h : Sound limit stack) :
    Allows limit (depth stack) := by
  match stack with
  | [] => simp [Allows]
  | .group :: rest => simpa using h.1
  | .unary op token :: rest => simpa using h.2.1
  | .binary left op token :: rest =>
    rcases h with ⟨-, -, -, -, hallows, -⟩
    rw [depth_binary]
    apply hallows.mono
    omega

structure Placed (limit : Option Nat) (stack : List Frame) (e : Expr) : Prop where
  sound : Sound limit stack
  shaped : e.Shaped
  admits : Admits stack e.tightness
  allows : Allows limit (depth stack + e.nesting)

namespace Placed

variable {limit : Option Nat} {rest : List Frame} {e : Expr}

theorem literal {v : Value} (h : Sound limit rest) : Placed limit rest (.literal v) :=
  ⟨h, trivial, admits_four rest, h.allows_depth⟩

theorem group (h : Placed limit (.group :: rest) e) : Placed limit rest (.group e) := by
  refine ⟨h.sound.2, h.shaped, admits_four rest, ?_⟩
  apply h.allows.mono
  simp only [Expr.nesting, depth_group]
  omega

theorem unary {op : UnaryOp} {token : Token} (h : Placed limit (.unary op token :: rest) e) :
    Placed limit rest (.unary op token e) := by
  have htight : e.tightness = 4 := Nat.le_antisymm e.tightness_le_four h.admits
  refine ⟨h.sound.2.2, ⟨h.sound.1, htight, h.shaped⟩, admits_four rest, ?_⟩
  apply h.allows.mono
  simp only [Expr.nesting, depth_unary]
  omega

theorem binary {left : Expr} {op : BinaryOp} {token : Token}
    (h : Placed limit (.binary left op token :: rest) e) :
    Placed limit rest (.binary left op token e) := by
  rcases h.sound with ⟨hop, hleft, htight, hadmits, hallows, hrest⟩
  refine ⟨hrest, ⟨hop, htight, h.admits, hleft, h.shaped⟩, hadmits, ?_⟩
  have hright := h.allows
  rw [depth_binary] at hright
  rw [Expr.nesting]
  rw [← Nat.add_max_add_left]
  rw [allows_max_iff]
  exact ⟨hallows, hright⟩

end Placed

section

variable {limit : Option Nat} {stack : List Frame} {e : Expr}

theorem reduce_placed (p : Nat) (h : Placed limit stack e) :
    Placed limit (reduce p stack e).1 (reduce p stack e).2 := by
  fun_induction reduce p stack e with
  | case1 e left op token stack hp ih =>
    apply ih
    apply h.binary
  | case2 => assumption
  | case3 => assumption

theorem le_tightness_reduce {p : Nat} (stack : List Frame) (h : p ≤ e.tightness) :
    p ≤ (reduce p stack e).2.tightness := by
  fun_induction reduce p stack e with
  | case1 e left op token stack hp ih =>
    apply ih
    assumption
  | case2 => assumption
  | case3 => assumption

theorem reduce_admits (op : BinaryOp) (h : Placed limit stack e) (hsettled : Settled stack) :
    Admits (reduce op.precedence stack e).1 op.precedence := by
  fun_induction reduce op.precedence stack e with
  | case1 e left op' token stack hp ih =>
    -- No unary operator is below a binary one, since the binary one would be its operand.
    rcases h.sound with ⟨-, -, -, hadmits, -, -⟩
    apply ih
    . apply h.binary
    . apply hadmits.settled
  | case2 e left op' token stack hp =>
    simp only [Admits]
    omega
  | case3 stack e hbinary =>
    match stack with
    | [] => trivial
    | .group :: _ => trivial
    | .unary _ _ :: _ => exact hsettled.elim
    | .binary left op' token :: rest => exact absurd rfl (hbinary left op' token rest)

end

def marks : List Frame → List Mark
  | [] => []
  | .group :: rest => marks rest ++ [.kind (.symbol .leftParen)]
  | .unary _ token :: rest => marks rest ++ [.token token]
  | .binary left _ token :: rest => marks rest ++ (left.flatten ++ [.token token])

theorem reduce_marks (p : Nat) (stack : List Frame) (e : Expr) :
    marks (reduce p stack e).1 ++ (reduce p stack e).2.flatten = marks stack ++ e.flatten := by
  fun_induction reduce p stack e with
  | case1 e left op token stack hp ih =>
    rw [ih]
    simp [marks, Expr.flatten]
  | case2 => rfl
  | case3 => rfl

namespace State

def marks : State → List Mark
  | operand stack => Parse.marks stack
  | operator stack left => Parse.marks stack ++ left.flatten

def Sound (limit : Option Nat) : State → Prop
  | operand stack => Parse.Sound limit stack
  | operator stack left => Placed limit stack left ∧ left.tightness = 4 ∧ Settled stack

end State

theorem complete_marks (stack : List Frame) (e : Expr) :
    (complete stack e).marks = marks stack ++ e.flatten := by
  fun_induction complete stack e with
  | case1 e op token stack ih =>
    rw [ih]
    simp [marks, Expr.flatten]
  | case2 => rfl

theorem complete_sound {limit : Option Nat} {stack : List Frame} {e : Expr}
    (h : Placed limit stack e) (htight : e.tightness = 4) :
    (complete stack e).Sound limit := by
  fun_induction complete stack e with
  | case1 e op token stack ih =>
    apply ih
    . apply h.unary
    . rfl
  | case2 stack e hunary =>
    refine ⟨h, htight, ?_⟩
    unfold Settled
    split
    . exact absurd rfl (hunary _ _ _)
    . trivial

namespace Move

variable {limit : Option Nat} {token : Token} {s s' : State}

theorem marks_eq (h : Move limit token s s') : ∃ m, s'.marks = s.marks ++ [m] ∧ m.Fits token := by
  cases h with
  | literal hkind =>
    rw [complete_marks]
    exact ⟨_, rfl, hkind⟩
  | openGroup hkind => exact ⟨_, rfl, hkind⟩
  | openUnary => exact ⟨.token token, rfl, rfl⟩
  | @operator stack rest left whole op hop hreduce =>
    have hmarks := reduce_marks op.precedence stack left
    rw [hreduce] at hmarks
    refine ⟨.token token, ?_, rfl⟩
    simp [State.marks, Parse.marks, ← hmarks]
  | @closeGroup stack rest left inner hkind hreduce =>
    have hmarks := reduce_marks 0 stack left
    rw [hreduce] at hmarks
    refine ⟨.kind (.symbol .rightParen), ?_, hkind⟩
    rw [complete_marks]
    simp [State.marks, Parse.marks, ← hmarks, Expr.flatten]

theorem sound (h : Move limit token s s') (hs : s.Sound limit) : s'.Sound limit := by
  cases h with
  | literal =>
    apply complete_sound
    . apply Placed.literal
      assumption
    . rfl
  | openGroup hkind hfits => exact ⟨fits_iff_allows.1 hfits, hs⟩
  | openUnary hop hfits => exact ⟨hop, fits_iff_allows.1 hfits, hs⟩
  | @operator stack rest left whole op hop hreduce =>
    rcases hs with ⟨hplaced, htight, hsettled⟩
    have hle : op.precedence ≤ left.tightness := by
      have := op.precedence_lt_four
      omega
    have hwhole := reduce_placed op.precedence hplaced
    have hwhole_le := le_tightness_reduce stack hle
    have hadmits := reduce_admits op hplaced hsettled
    rw [hreduce] at hwhole hwhole_le hadmits
    exact ⟨hop, hwhole.shaped, hwhole_le, hadmits, hwhole.allows, hwhole.sound⟩
  | @closeGroup stack rest left inner hkind hreduce =>
    have hinner := reduce_placed 0 hs.1
    rw [hreduce] at hinner
    apply complete_sound
    . apply hinner.group
    . rfl

end Move

def Reached (limit : Option Nat) (taken : List Token) (s : State) : Prop :=
  s.Sound limit ∧ List.Forall₂ Mark.Fits s.marks taken

theorem Reached.move {limit : Option Nat} {taken : List Token} {token : Token} {s s' : State}
    (hs : Reached limit taken s) (h : Move limit token s s') :
    Reached limit (taken ++ [token]) s' := by
  rcases h.marks_eq with ⟨m, hmarks, hfits⟩
  constructor
  . apply h.sound
    exact hs.1
  . rw [hmarks]
    rw [Mark.fits_append_iff]
    exact ⟨taken, [token], rfl, hs.2, .cons hfits .nil⟩

theorem reached_of_leads {limit : Option Nat} {tokens : List Token} {s : State}
    (h : Leads limit (.operand []) tokens s) : Reached limit tokens s := by
  have hstart : Reached limit [] (.operand []) := ⟨trivial, .nil⟩
  exact h.invariant Reached.move hstart

end Vyraz.Parse
