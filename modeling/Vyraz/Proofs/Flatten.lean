import Mathlib.Data.List.Forall2
import Vyraz.Expr.Parse

namespace Vyraz

def Value.kind : Value → Kind
  | nil => .keyword .nothing
  | bool true => .keyword .truth
  | bool false => .keyword .falsehood
  | number x => .number x
  | string s => .string s

theorem Value.isEof_kind (v : Value) : v.kind.isEof = false := by
  cases v with
  | bool b => cases b <;> rfl
  | _ => rfl

theorem Parse.literal?_eq_some_iff {k : Kind} {v : Value} : literal? k = some v ↔ k = v.kind := by
  constructor
  . intro h
    unfold literal? at h
    split at h <;> cases h <;> rfl
  . intro h
    subst h
    cases v with
    | bool b => cases b <;> rfl
    | _ => rfl

theorem UnaryOp.ofKind?_eq_some_iff {k : Kind} {op : UnaryOp} :
    ofKind? k = some op ↔ k = .symbol op.symbol := by
  constructor
  . intro h
    unfold ofKind? at h
    split at h <;> cases h <;> rfl
  . intro h
    subst h
    exact ofKind?_symbol op

theorem BinaryOp.ofKind?_eq_some_iff {k : Kind} {op : BinaryOp} :
    ofKind? k = some op ↔ k = .symbol op.symbol := by
  constructor
  . intro h
    unfold ofKind? at h
    split at h <;> cases h <;> rfl
  . intro h
    subst h
    exact ofKind?_symbol op

theorem BinaryOp.precedence_lt_four (op : BinaryOp) : op.precedence < 4 := by
  cases op <;> decide

/-- What a tree says about one token: all of an operator's token, and of any other the kind. -/
inductive Mark where
  | kind (k : Kind)
  | token (t : Token)

namespace Mark

def toKind : Mark → Kind
  | kind k => k
  | token t => t.kind

def Fits : Mark → Token → Prop
  | kind k, t => t.kind = k
  | token t', t => t = t'

theorem Fits.kind_eq {m : Mark} {t : Token} (h : m.Fits t) : t.kind = m.toKind := by
  cases m with
  | kind k => exact h
  | token t' => exact congrArg Token.kind h

theorem fits_append_iff {as bs : List Mark} {tokens : List Token} :
    List.Forall₂ Fits (as ++ bs) tokens
      ↔
    ∃ us vs, tokens = us ++ vs ∧ List.Forall₂ Fits as us ∧ List.Forall₂ Fits bs vs := by
  constructor
  . intro h
    induction as generalizing tokens with
    | nil => exact ⟨[], tokens, rfl, .nil, h⟩
    | cons m as ih =>
      rcases List.forall₂_cons_left_iff.1 h with ⟨t, rest, ht, hrest, rfl⟩
      rcases ih hrest with ⟨us, vs, rfl, hus, hvs⟩
      exact ⟨t :: us, vs, rfl, .cons ht hus, hvs⟩
  . intro h
    rcases h with ⟨us, vs, rfl, hus, hvs⟩
    exact List.rel_append hus hvs

theorem map_kind_of_fits {marks : List Mark} {tokens : List Token}
    (h : List.Forall₂ Fits marks tokens) : tokens.map Token.kind = marks.map toKind := by
  induction h with
  | nil => rfl
  | cons hfits _ ih =>
    rw [List.map_cons, List.map_cons]
    rw [hfits.kind_eq, ih]

end Mark

namespace Expr

def flatten : Expr → List Mark
  | literal value => [.kind value.kind]
  | group inner => .kind (.symbol .leftParen) :: (inner.flatten ++ [.kind (.symbol .rightParen)])
  | unary _ token operand => .token token :: operand.flatten
  | binary left _ token right => left.flatten ++ .token token :: right.flatten

def SpelledBy (e : Expr) (tokens : List Token) : Prop :=
  List.Forall₂ Mark.Fits e.flatten tokens

theorem spelledBy_literal_iff {v : Value} {tokens : List Token} :
    (literal v).SpelledBy tokens ↔ ∃ t, tokens = [t] ∧ t.kind = v.kind := by
  simp [SpelledBy, flatten, List.forall₂_cons_left_iff, Mark.Fits, and_comm]

theorem spelledBy_group_iff {inner : Expr} {tokens : List Token} :
    (group inner).SpelledBy tokens
      ↔
    ∃ opening us closing, tokens = opening :: (us ++ [closing])
      ∧ opening.kind = .symbol .leftParen ∧ inner.SpelledBy us
      ∧ closing.kind = .symbol .rightParen := by
  simp only [SpelledBy, flatten]
  rw [List.forall₂_cons_left_iff]
  simp only [Mark.fits_append_iff, List.forall₂_cons_left_iff, List.forall₂_nil_left_iff]
  constructor
  . intro h
    rcases h with ⟨opening, _, hopen, ⟨us, _, rfl, hus, closing, _, hclose, rfl, rfl⟩, rfl⟩
    exact ⟨opening, us, closing, rfl, hopen, hus, hclose⟩
  . intro h
    rcases h with ⟨opening, us, closing, rfl, hopen, hus, hclose⟩
    exact ⟨opening, _, hopen, ⟨us, _, rfl, hus, closing, _, hclose, rfl, rfl⟩, rfl⟩

theorem spelledBy_unary_iff {op : UnaryOp} {token : Token} {operand : Expr}
    {tokens : List Token} :
    (unary op token operand).SpelledBy tokens
      ↔
    ∃ us, tokens = token :: us ∧ operand.SpelledBy us := by
  simp only [SpelledBy, flatten]
  rw [List.forall₂_cons_left_iff]
  constructor
  . intro h
    rcases h with ⟨_, us, rfl, hus, rfl⟩
    exact ⟨us, rfl, hus⟩
  . intro h
    rcases h with ⟨us, rfl, hus⟩
    exact ⟨token, us, rfl, hus, rfl⟩

theorem spelledBy_binary_iff {left right : Expr} {op : BinaryOp} {token : Token}
    {tokens : List Token} :
    (binary left op token right).SpelledBy tokens
      ↔
    ∃ us vs, tokens = us ++ token :: vs ∧ left.SpelledBy us ∧ right.SpelledBy vs := by
  simp only [SpelledBy, flatten]
  simp only [Mark.fits_append_iff, List.forall₂_cons_left_iff]
  constructor
  . intro h
    rcases h with ⟨us, _, rfl, hus, _, vs, rfl, hvs, rfl⟩
    exact ⟨us, vs, rfl, hus, hvs⟩
  . intro h
    rcases h with ⟨us, vs, rfl, hus, hvs⟩
    exact ⟨us, _, rfl, hus, token, vs, rfl, hvs, rfl⟩

def tightness : Expr → Nat
  | binary _ op _ _ => op.precedence
  | _ => 4

theorem tightness_le_four (e : Expr) : e.tightness ≤ 4 := by
  cases e with
  | binary left op token right =>
    apply Nat.le_of_lt
    apply BinaryOp.precedence_lt_four
  | _ => apply Nat.le_refl

def Shaped : Expr → Prop
  | literal _ => True
  | group inner => inner.Shaped
  | unary op token operand =>
    -- The operand is no binary operator, all of which hold together less tightly.
    UnaryOp.ofKind? token.kind = some op ∧ operand.tightness = 4 ∧ operand.Shaped
  | binary left op token right =>
    -- Operators of the same precedence nest on the left only.
    BinaryOp.ofKind? token.kind = some op
      ∧ op.precedence ≤ left.tightness ∧ op.precedence < right.tightness
      ∧ left.Shaped ∧ right.Shaped

def nesting : Expr → Nat
  | literal _ => 0
  | group inner => inner.nesting + 1
  | unary _ _ operand => operand.nesting + 1
  | binary left _ _ right => max left.nesting right.nesting

structure WellShaped (e : Expr) : Prop where
  shaped : e.Shaped
  shallow : e.nesting ≤ Parse.maxDepth

instance decidableShaped : (e : Expr) → Decidable e.Shaped
  | literal _ => inferInstanceAs (Decidable True)
  | group inner => decidableShaped inner
  | unary _ _ operand =>
    have := decidableShaped operand
    inferInstanceAs (Decidable (_ ∧ _ ∧ _))
  | binary left _ _ right =>
    have := decidableShaped left
    have := decidableShaped right
    inferInstanceAs (Decidable (_ ∧ _ ∧ _ ∧ _ ∧ _))

theorem isEof_of_mem_flatten {e : Expr} (h : e.Shaped) :
    ∀ m ∈ e.flatten, m.toKind.isEof = false := by
  induction e with
  | literal v => simp [flatten, Mark.toKind, v.isEof_kind]
  | group inner ih =>
    have := ih h
    simp only [flatten, List.mem_cons, List.mem_append, List.not_mem_nil, or_false]
    intro m hm
    rcases hm with rfl | hm | rfl
    . rfl
    . apply this
      assumption
    . rfl
  | unary op token operand ih =>
    rcases h with ⟨hop, -, hoperand⟩
    simp only [flatten, List.mem_cons]
    intro m hm
    rcases hm with rfl | hm
    . rw [Mark.toKind]
      rw [UnaryOp.ofKind?_eq_some_iff.1 hop]
      rfl
    . apply ih hoperand
      assumption
  | binary left op token right lih rih =>
    rcases h with ⟨hop, -, -, hleft, hright⟩
    simp only [flatten, List.mem_append, List.mem_cons]
    intro m hm
    rcases hm with hm | rfl | hm
    . apply lih hleft
      assumption
    . rw [Mark.toKind]
      rw [BinaryOp.ofKind?_eq_some_iff.1 hop]
      rfl
    . apply rih hright
      assumption

theorem isEof_of_spelledBy {e : Expr} (hshape : e.Shaped) {tokens : List Token}
    (hspell : e.SpelledBy tokens) : ∀ t ∈ tokens, t.kind.isEof = false := by
  intro t ht
  have hkinds := Mark.map_kind_of_fits hspell
  have hmem : t.kind ∈ e.flatten.map Mark.toKind := hkinds ▸ List.mem_map_of_mem ht
  rcases List.mem_map.1 hmem with ⟨m, hm, hkind⟩
  rw [← hkind]
  apply isEof_of_mem_flatten hshape
  assumption

end Expr
end Vyraz
