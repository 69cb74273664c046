import Vyraz.Proofs.Evaluation

namespace Vyraz

inductive Ty where
  | nil
  | boolean
  | number
  | string
deriving DecidableEq, Repr

def Value.ty : Value → Ty
  | nil => .nil
  | bool _ => .boolean
  | number _ => .number
  | string _ => .string

namespace UnaryOp

def type? : UnaryOp → Ty → Option Ty
  | negate, .number => some .number
  | negate, _ => none
  | not, _ => some .boolean

variable {op : UnaryOp} {v : Value}

theorem apply_eq_ok_of_type? {t : Ty} (h : op.type? v.ty = some t) (token : Token) :
    ∃ r, op.apply token v = .ok r ∧ r.ty = t := by
  cases op with
  | negate =>
    cases v with
    | number x =>
      cases h
      exact ⟨_, rfl, rfl⟩
    | _ => cases h
  | not =>
    cases h
    exact ⟨_, rfl, rfl⟩

theorem apply_eq_error_of_type? (h : op.type? v.ty = none) (token : Token) :
    op.apply token v = .error ⟨.operandNotNumber, token⟩ := by
  cases op with
  | negate =>
    cases v with
    | number x => cases h
    | _ => rfl
  | not => cases h

end UnaryOp

namespace BinaryOp

def numbersType? (result : Ty) : Ty → Ty → Option Ty
  | .number, .number => some result
  | _, _ => none

def type? (op : BinaryOp) (left right : Ty) : Option Ty :=
  match op with
  | add =>
    match left, right with
    | .number, .number => some .number
    | .string, .string => some .string
    | _, _ => none
  | subtract | multiply | divide => numbersType? .number left right
  | greater | greaterEqual | less | lessEqual => numbersType? .boolean left right
  | equal | notEqual => some .boolean

def cause : BinaryOp → EvalCause
  | add => .operandsNotNumbersOrStrings
  | _ => .operandsNotNumbers

variable {op : BinaryOp} {v w : Value}

theorem onNumbers_eq_ok_of_type? {f : Float → Float → Value} {result t : Ty}
    (h : numbersType? result v.ty w.ty = some t) (hf : ∀ x y, (f x y).ty = result)
    (token : Token) : ∃ r, onNumbers f token v w = .ok r ∧ r.ty = t := by
  cases v with
  | number x =>
    cases w with
    | number y =>
      cases h
      exact ⟨f x y, rfl, hf x y⟩
    | _ => cases h
  | _ => cases h

theorem onNumbers_eq_error_of_type? {f : Float → Float → Value} {result : Ty}
    (h : numbersType? result v.ty w.ty = none) (token : Token) :
    onNumbers f token v w = .error ⟨.operandsNotNumbers, token⟩ := by
  cases v with
  | number x =>
    cases w with
    | number y => cases h
    | _ => rfl
  | _ => rfl

theorem apply_eq_ok_of_type? {t : Ty} (h : op.type? v.ty w.ty = some t) (token : Token) :
    ∃ r, op.apply token v w = .ok r ∧ r.ty = t := by
  cases op with
  | add =>
    cases v with
    | number x =>
      cases w with
      | number y =>
        cases h
        exact ⟨_, rfl, rfl⟩
      | _ => cases h
    | string s =>
      cases w with
      | string s' =>
        cases h
        exact ⟨_, rfl, rfl⟩
      | _ => cases h
    | _ => cases h
  | equal | notEqual =>
    cases h
    exact ⟨_, rfl, rfl⟩
  | _ => exact onNumbers_eq_ok_of_type? h (fun _ _ => rfl) token

theorem apply_eq_error_of_type? (h : op.type? v.ty w.ty = none) (token : Token) :
    op.apply token v w = .error ⟨op.cause, token⟩ := by
  cases op with
  | add =>
    cases v with
    | number x =>
      cases w with
      | number y => cases h
      | _ => rfl
    | string s =>
      cases w with
      | string s' => cases h
      | _ => rfl
    | _ => rfl
  | equal | notEqual => cases h
  | _ => exact onNumbers_eq_error_of_type? h token

end BinaryOp

namespace Expr

def type? : Expr → Option Ty
  | literal value => some value.ty
  | group inner => inner.type?
  | unary op _ operand => do
    let t ← operand.type?
    op.type? t
  | binary left op _ right => do
    let s ← left.type?
    let t ← right.type?
    op.type? s t

def postorder : Expr → List Expr
  | literal value => [literal value]
  | group inner => inner.postorder ++ [group inner]
  | unary op token operand => operand.postorder ++ [unary op token operand]
  | binary left op token right =>
    left.postorder ++ right.postorder ++ [binary left op token right]

def clash? : Expr → Option EvalError
  | literal _ => none
  | group _ => none
  | unary op token operand => do
    let t ← operand.type?
    if op.type? t = none then some ⟨.operandNotNumber, token⟩ else none
  | binary left op token right => do
    let s ← left.type?
    let t ← right.type?
    if op.type? s t = none then some ⟨op.cause, token⟩ else none

theorem clash?_unary_eq_some_iff {op : UnaryOp} {token : Token} {operand : Expr}
    {err : EvalError} :
    (unary op token operand).clash? = some err
      ↔
    ∃ t, operand.type? = some t ∧ op.type? t = none ∧ ⟨.operandNotNumber, token⟩ = err := by
  simp [clash?, Option.bind_eq_some_iff]

theorem clash?_binary_eq_some_iff {left right : Expr} {op : BinaryOp} {token : Token}
    {err : EvalError} :
    (binary left op token right).clash? = some err
      ↔
    ∃ s t, left.type? = some s ∧ right.type? = some t ∧ op.type? s t = none
      ∧ ⟨op.cause, token⟩ = err := by
  simp [clash?, Option.bind_eq_some_iff]

def firstClash? (e : Expr) : Option EvalError :=
  e.postorder.findSome? clash?

theorem firstClash?_literal (v : Value) : (literal v).firstClash? = none := rfl

theorem firstClash?_group (inner : Expr) : (group inner).firstClash? = inner.firstClash? := by
  simp [firstClash?, postorder, clash?]

theorem firstClash?_unary (op : UnaryOp) (token : Token) (operand : Expr) :
    (unary op token operand).firstClash? =
      operand.firstClash?.or (unary op token operand).clash? := by
  simp [firstClash?, postorder, List.findSome?_append]

theorem firstClash?_binary (left : Expr) (op : BinaryOp) (token : Token) (right : Expr) :
    (binary left op token right).firstClash? =
      left.firstClash?.or (right.firstClash?.or (binary left op token right).clash?) := by
  simp [firstClash?, postorder, List.findSome?_append]

theorem firstClash?_eq_none_iff {e : Expr} : e.firstClash? = none ↔ ∃ t, e.type? = some t := by
  induction e with
  | literal v => simp [firstClash?_literal, type?]
  | group inner ih =>
    rw [firstClash?_group]
    rw [ih]
    rw [type?]
  | unary op token operand ih =>
    rw [firstClash?_unary, Option.or_eq_none_iff, ih]
    cases h : operand.type? with
    | none => simp [type?, h]
    | some t => simp [type?, clash?, h, Option.ne_none_iff_exists']
  | binary left op token right lih rih =>
    rw [firstClash?_binary, Option.or_eq_none_iff, Option.or_eq_none_iff, lih, rih]
    cases hl : left.type? with
    | none => simp [type?, hl]
    | some s =>
      cases hr : right.type? with
      | none => simp [type?, hl, hr]
      | some t => simp [type?, clash?, hl, hr, Option.ne_none_iff_exists']

theorem eval_eq_ok_of_type? {e : Expr} {t : Ty} (h : e.type? = some t) :
    ∃ v, e.eval = .ok v ∧ v.ty = t := by
  induction e generalizing t with
  | literal v =>
    refine ⟨v, eval_literal v, ?_⟩
    simpa [type?] using h
  | group inner ih =>
    rw [eval_group]
    exact ih h
  | unary op token operand ih =>
    rcases Option.bind_eq_some_iff.1 h with ⟨s, hs, hop⟩
    rcases ih hs with ⟨v, hv, rfl⟩
    rw [eval_unary, hv]
    exact UnaryOp.apply_eq_ok_of_type? hop token
  | binary left op token right lih rih =>
    rcases Option.bind_eq_some_iff.1 h with ⟨s, hs, hright⟩
    rcases Option.bind_eq_some_iff.1 hright with ⟨s', hs', hop⟩
    rcases lih hs with ⟨v, hv, rfl⟩
    rcases rih hs' with ⟨w, hw, rfl⟩
    rw [eval_binary, hv, hw]
    exact BinaryOp.apply_eq_ok_of_type? hop token

theorem eval_eq_error_of_firstClash? {e : Expr} {err : EvalError} (h : e.firstClash? = some err) :
    e.eval = .error err := by
  induction e with
  | literal v => cases h
  | group inner ih =>
    rw [firstClash?_group] at h
    rw [eval_group]
    exact ih h
  | unary op token operand ih =>
    rw [firstClash?_unary, Option.or_eq_some_iff] at h
    rw [eval_unary]
    rcases h with h | ⟨-, h⟩
    . rw [ih h]
      rfl
    . rcases clash?_unary_eq_some_iff.1 h with ⟨t, ht, hop, rfl⟩
      rcases eval_eq_ok_of_type? ht with ⟨v, hv, rfl⟩
      rw [hv]
      exact UnaryOp.apply_eq_error_of_type? hop token
  | binary left op token right lih rih =>
    rw [firstClash?_binary, Option.or_eq_some_iff, Option.or_eq_some_iff] at h
    rw [eval_binary]
    rcases h with h | ⟨hl, h | ⟨-, h⟩⟩
    . rw [lih h]
      rfl
    . rcases firstClash?_eq_none_iff.1 hl with ⟨s, hs⟩
      rcases eval_eq_ok_of_type? hs with ⟨v, hv, -⟩
      rw [hv, rih h]
      rfl
    . rcases clash?_binary_eq_some_iff.1 h with ⟨s, t, hs, ht, hop, rfl⟩
      rcases eval_eq_ok_of_type? hs with ⟨v, hv, rfl⟩
      rcases eval_eq_ok_of_type? ht with ⟨w, hw, rfl⟩
      rw [hv, hw]
      exact BinaryOp.apply_eq_error_of_type? hop token

theorem eval_eq_error_of_type? {e : Expr} (h : e.type? = none) :
    ∃ err, e.firstClash? = some err ∧ e.eval = .error err := by
  cases hclash : e.firstClash? with
  | none =>
    rcases firstClash?_eq_none_iff.1 hclash with ⟨t, ht⟩
    rw [h] at ht
    cases ht
  | some err => exact ⟨err, rfl, eval_eq_error_of_firstClash? hclash⟩

inductive Alike : Expr → Expr → Prop where
  | literal {v v' : Value} (h : v.ty = v'.ty) : Alike (literal v) (literal v')
  | group {e e' : Expr} (h : Alike e e') : Alike (group e) (group e')
  | unary {op : UnaryOp} {token : Token} {e e' : Expr} (h : Alike e e') :
    Alike (unary op token e) (unary op token e')
  | binary {op : BinaryOp} {token : Token} {left left' right right' : Expr}
    (hleft : Alike left left') (hright : Alike right right') :
    Alike (binary left op token right) (binary left' op token right')

namespace Alike

variable {e e' : Expr}

theorem type?_eq (h : Alike e e') : e.type? = e'.type? := by
  induction h with
  | literal h => simp only [type?, h]
  | group _ ih => simp only [type?, ih]
  | unary _ ih => simp only [type?, ih]
  | binary _ _ lih rih => simp only [type?, lih, rih]

theorem firstClash?_eq (h : Alike e e') : e.firstClash? = e'.firstClash? := by
  induction h with
  | literal => rfl
  | group _ ih => rw [firstClash?_group, firstClash?_group, ih]
  | unary h ih =>
    rw [firstClash?_unary, firstClash?_unary]
    rw [clash?, clash?]
    rw [h.type?_eq, ih]
  | binary hleft hright lih rih =>
    rw [firstClash?_binary, firstClash?_binary]
    rw [clash?, clash?]
    rw [hleft.type?_eq, hright.type?_eq, lih, rih]

end Alike

/--
Types predict evaluation. An expression with a type has a value of that type, and any other fails
with the error of the first operator in postorder that does not take its operands. So trees that
are alike have values of one type or fail with one error.
-/
theorem eval_predicted_by_types (e : Expr) :
    (∀ t, e.type? = some t → ∃ v, e.eval = .ok v ∧ v.ty = t)
      ∧
    (e.type? = none → ∃ err, e.firstClash? = some err ∧ e.eval = .error err)
      ∧
    (∀ e', Alike e e' →
      (∃ v v', e.eval = .ok v ∧ e'.eval = .ok v' ∧ v.ty = v'.ty)
        ∨ ∃ err, e.eval = .error err ∧ e'.eval = .error err) := by
  refine ⟨?_, eval_eq_error_of_type?, ?_⟩
  . intro t
    apply eval_eq_ok_of_type?
  intro e' halike
  cases htype : e.type? with
  | some t =>
    have htype' : e'.type? = some t := by rw [← halike.type?_eq, htype]
    rcases eval_eq_ok_of_type? htype with ⟨v, hv, rfl⟩
    rcases eval_eq_ok_of_type? htype' with ⟨v', hv', hty⟩
    exact .inl ⟨v, v', hv, hv', hty.symm⟩
  | none =>
    rcases eval_eq_error_of_type? htype with ⟨err, hclash, herr⟩
    rw [halike.firstClash?_eq] at hclash
    exact .inr ⟨err, herr, eval_eq_error_of_firstClash? hclash⟩

def joinTree (s t : String) : Expr :=
  .binary (.literal (.string s)) .add ⟨.symbol .plus, "+", ⟨4, 5⟩, 1⟩ (.literal (.string t))

def clashTree (s t : String) : Expr :=
  .binary
    (.binary (.literal (.string s)) .subtract ⟨.symbol .minus, "-", ⟨4, 5⟩, 1⟩
      (.literal (.string t)))
    .equal ⟨.symbol .equalEqual, "==", ⟨10, 12⟩, 1⟩
    (.unary .negate ⟨.symbol .minus, "-", ⟨13, 14⟩, 1⟩ (.literal .nil))

theorem eval_joinTree_and_clashTree :
    (∃ v, (joinTree "a" "b").eval = .ok v ∧ v.ty = .string)
      ∧
    (∃ err, err = ⟨.operandsNotNumbers, ⟨.symbol .minus, "-", ⟨4, 5⟩, 1⟩⟩
      ∧ (clashTree "a" "b").eval = .error err)
      ∧
    ((∃ v v', (clashTree "a" "b").eval = .ok v ∧ (clashTree "c" "d").eval = .ok v' ∧ v.ty = v'.ty)
      ∨ ∃ err, (clashTree "a" "b").eval = .error err ∧ (clashTree "c" "d").eval = .error err) := by
  refine ⟨(eval_predicted_by_types (joinTree "a" "b")).1 .string rfl, ?_, ?_⟩
  . rcases (eval_predicted_by_types (clashTree "a" "b")).2.1 rfl with ⟨err, hclash, herr⟩
    exact ⟨err, (Option.some.inj hclash).symm, herr⟩
  . apply (eval_predicted_by_types (clashTree "a" "b")).2.2
    exact .binary (.binary (.literal rfl) (.literal rfl)) (.unary (.literal rfl))

end Expr
end Vyraz
