import Vyraz.Proofs.ReadBack
import Vyraz.Proofs.Rendering

/-!
This module contains the unique reading of printed expressions. Without strings, the text of a
literal tells its value and ends where a parenthesis or a space stands; and the text of a tree tells
where each operand ends. So two trees have one text only if they differ in operator tokens at most.
-/

namespace Vyraz

open Scan

namespace Binary64

section

open Float.Model.UnpackedFloat

theorem exists_infinity {x : Float} (hnan : x.isNaN = false) (h : x.isFinite = false) :
    ∃ sign, x.toBits.toBitVec = packedInfinity .binary64 sign := by
  have hpack : pack .binary64 (unpack .binary64 x.toBits.toBitVec) = x.toBits.toBitVec :=
    congrArg (fun y : Float => y.toBits.toBitVec) (Float.ofBits_toBits x)
  have hnan' : (unpack .binary64 x.toBits.toBitVec).isNaN = false := hnan
  have hinfinite : (unpack .binary64 x.toBits.toBitVec).isFinite = false := h
  cases hunpack : unpack .binary64 x.toBits.toBitVec with
  | infinity sign =>
    rw [hunpack] at hpack
    exact ⟨sign, hpack.symm⟩
  | notANumber =>
    rw [hunpack] at hnan'
    contradiction
  | zero sign | finite sign m e hm =>
    rw [hunpack] at hinfinite
    contradiction

theorem toNat_packedInfinity (sign : Sign) :
    (packedInfinity .binary64 sign).toNat = sign.toBitVec.toNat * signBit + infinityBits := by
  rw [packedInfinity, toNat_packComponents]
  rfl

end

theorem magnitudeText_infinityBits : magnitudeText infinityBits = ['i', 'n', 'f'] := by
  unfold magnitudeText
  rw [if_neg (by decide), if_pos rfl]

theorem infinity_cases {x : Float} (hnan : x.isNaN = false) (h : x.isFinite = false) :
    x.toBits.toNat = infinityBits ∧ text x = "inf"
      ∨ x.toBits.toNat = signBit + infinityBits ∧ text x = "-inf" := by
  rcases exists_infinity hnan h with ⟨sign, hx⟩
  have htoNat : x.toBits.toNat = sign.toBitVec.toNat * signBit + infinityBits :=
    (congrArg BitVec.toNat hx).trans (toNat_packedInfinity sign)
  have hsign : infinityBits < signBit := by decide
  unfold text
  rw [if_neg (Bool.eq_false_iff.1 hnan)]
  dsimp only
  cases sign with
  | positive =>
    have hbits : x.toBits.toNat = infinityBits := by
      simpa [Float.Model.UnpackedFloat.Sign.toBitVec] using htoNat
    left
    rw [hbits, if_pos hsign, magnitudeText_infinityBits]
    exact ⟨rfl, rfl⟩
  | negative =>
    have hbits : x.toBits.toNat = signBit + infinityBits := by
      simpa [Float.Model.UnpackedFloat.Sign.toBitVec] using htoNat
    right
    rw [hbits, if_neg (Nat.le_add_right _ _).not_gt, Nat.add_sub_cancel_left,
      magnitudeText_infinityBits]
    exact ⟨rfl, rfl⟩

theorem contains_magnitudeText {bits : Nat} (h : bits < infinityBits) :
    Family.number.Contains (magnitudeText bits) := by
  unfold magnitudeText
  split
  . exact .inl ⟨by simp, by simp⟩
  . rw [if_neg h.ne]
    apply Decimal.contains_positional

theorem mem_magnitudeText {bits : Nat} (h : bits < infinityBits) :
    ∀ c ∈ magnitudeText bits, c.isDigit ∨ c = '.' := by
  intro c hc
  rcases contains_magnitudeText h with hwhole | ⟨whole, digits, htext, hwhole, hdigits⟩
  . exact .inl (hwhole.2 c hc)
  . rw [htext, List.mem_append, List.mem_cons] at hc
    rcases hc with hc | hc | hc
    . exact .inl (hwhole.2 c hc)
    . exact .inr hc
    . exact .inl (hdigits.2 c hc)

theorem mem_text {x : Float} (h : x.isNaN = false) :
    ∀ c ∈ (text x).toList, c.isDigit ∨ c ∈ ['.', '-', 'i', 'n', 'f'] := by
  cases hfinite : x.isFinite with
  | true =>
    rcases text_cases hfinite with ⟨bits, hbits, hsign⟩
    have hmagnitude : ∀ c ∈ magnitudeText bits, c.isDigit ∨ c ∈ ['.', '-', 'i', 'n', 'f'] := by
      intro c hc
      exact (mem_magnitudeText hbits c hc).imp_right fun hpoint => by simp [hpoint]
    rcases hsign with ⟨-, htext, -⟩ | ⟨-, htext, -⟩
    . rw [htext, String.toList_ofList]
      exact hmagnitude
    . rw [htext, String.toList_ofList, List.forall_mem_cons]
      exact ⟨by simp, hmagnitude⟩
  | false =>
    rcases infinity_cases h hfinite with ⟨-, htext⟩ | ⟨-, htext⟩
    . simp [htext]
    . simp [htext]

theorem eq_of_infinity {x y : Float} (hx : x.isNaN = false) (hx' : x.isFinite = false)
    (hy : y.isNaN = false) (hy' : y.isFinite = false) (h : text x = text y) : x = y := by
  have hbits : x.toBits = y.toBits := by
    apply UInt64.toNat_inj.1
    rcases infinity_cases hx hx' with ⟨hxbits, hxtext⟩ | ⟨hxbits, hxtext⟩
    . rcases infinity_cases hy hy' with ⟨hybits, hytext⟩ | ⟨hybits, hytext⟩
      . rw [hxbits, hybits]
      . rw [hxtext, hytext] at h
        contradiction
    . rcases infinity_cases hy hy' with ⟨hybits, hytext⟩ | ⟨hybits, hytext⟩
      . rw [hxtext, hytext] at h
        contradiction
      . rw [hxbits, hybits]
  rw [← Float.ofBits_toBits x, ← Float.ofBits_toBits y, hbits]

theorem run_infinity {x : Float} (hnan : x.isNaN = false) (h : x.isFinite = false) (v : Value) :
    run (text x) ≠ .ok v := by
  have hpositive : run "inf" =
      .error (.grammar ⟨.expectExpression, ⟨.identifier, "inf", ⟨0, 3⟩, 1⟩⟩) := by
    with_unfolding_all rfl
  have hnegative : run "-inf" =
      .error (.grammar ⟨.expectExpression, ⟨.identifier, "inf", ⟨1, 4⟩, 1⟩⟩) := by
    with_unfolding_all rfl
  rcases infinity_cases hnan h with ⟨-, htext⟩ | ⟨-, htext⟩
  . simp [htext, hpositive]
  . simp [htext, hnegative]

end Binary64

def delimiters : List Char :=
  ['(', ')', ' ']

namespace Value

def Legible : Value → Prop
  | nil => True
  | bool _ => True
  | number x => x.isNaN = false
  | string _ => False

section

variable {v w : Value}

theorem Legible.notMem_delimiters (h : v.Legible) : ∀ c ∈ v.text.toList, c ∉ delimiters := by
  cases v with
  | nil => simp [text, delimiters]
  | bool b => cases b <;> simp [text, delimiters]
  | number x =>
    intro c hc hdelimiter
    have hother := Binary64.mem_text h c hc
    simp only [delimiters, List.mem_cons, List.not_mem_nil, or_false] at hdelimiter
    rcases hdelimiter with rfl | rfl | rfl
    all_goals
      revert hother
      decide
  | string s => contradiction

theorem Legible.run_text (h : v.Legible) (hfinite : v.IsFinite) : run v.text = .ok v := by
  have hquoted : v.quoted = v.text := by
    cases v with
    | string s => contradiction
    | _ => rfl
  have hunquoted : v.Unquoted := by
    cases v with
    | string s => contradiction
    | _ => trivial
  rw [← hquoted]
  exact run_quoted_of_unquoted hunquoted hfinite

theorem Legible.run_text_ne (h : v.Legible) (hinfinite : ¬v.IsFinite) (w : Value) :
    run v.text ≠ .ok w := by
  cases v with
  | number x => exact Binary64.run_infinity h (by simpa [IsFinite] using hinfinite) w
  | _ => exact absurd trivial hinfinite

theorem Legible.eq_of_text_eq (hv : v.Legible) (hw : w.Legible) (h : v.text = w.text) : v = w := by
  by_cases hv' : v.IsFinite
  . have hread := hv.run_text hv'
    rw [h] at hread
    by_cases hw' : w.IsFinite
    . rw [hw.run_text hw'] at hread
      cases hread
      rfl
    . exact absurd hread (hw.run_text_ne hw' v)
  . by_cases hw' : w.IsFinite
    . have hread := hw.run_text hw'
      rw [← h] at hread
      exact absurd hread (hv.run_text_ne hv' w)
    . cases v with
      | number x =>
        cases w with
        | number y =>
          rw [Binary64.eq_of_infinity hv (by simpa [IsFinite] using hv') hw
            (by simpa [IsFinite] using hw') h]
        | _ => exact absurd trivial hw'
      | _ => exact absurd trivial hv'

end

end Value

theorem Symbol.chars_inj {s s' : Symbol} (h : s.chars = s'.chars) : s = s' := by
  have hall : ∀ s ∈ all, ∀ s' ∈ all, s.chars = s'.chars → s = s' := by decide
  exact hall s s.mem_all s' s'.mem_all h

theorem Symbol.notMem_space (s : Symbol) : ' ' ∉ s.chars := by
  cases s <;> decide

theorem UnaryOp.eq_of_chars_eq {op op' : UnaryOp} (h : op.symbol.chars = op'.symbol.chars) :
    op = op' := by
  have hkind := ofKind?_symbol op
  rw [Symbol.chars_inj h, ofKind?_symbol] at hkind
  exact (Option.some.inj hkind).symm

theorem BinaryOp.eq_of_chars_eq {op op' : BinaryOp} (h : op.symbol.chars = op'.symbol.chars) :
    op = op' := by
  have hkind := ofKind?_symbol op
  rw [Symbol.chars_inj h, ofKind?_symbol] at hkind
  exact (Option.some.inj hkind).symm

namespace Expr

def Legible : Expr → Prop
  | literal v => v.Legible
  | group inner => inner.Legible
  | unary _ _ operand => operand.Legible
  | binary left _ _ right => left.Legible ∧ right.Legible

def erased (e : Expr) : Expr :=
  e.mapTokens fun _ => Token.endOf ""

section

variable (token : Token) (rest : List Char)

theorem group_append (inner : Expr) :
    (group inner).plainText.toList ++ rest =
      '(' :: (['g', 'r', 'o', 'u', 'p'] ++ ' ' :: (inner.plainText.toList ++ ')' :: rest)) := by
  simp [plainText]

theorem unary_append (op : UnaryOp) (operand : Expr) :
    (unary op token operand).plainText.toList ++ rest =
      '(' :: (op.symbol.chars ++ ' ' :: (operand.plainText.toList ++ ')' :: rest)) := by
  simp [plainText, Symbol.text]

theorem binary_append (left : Expr) (op : BinaryOp) (right : Expr) :
    (binary left op token right).plainText.toList ++ rest =
      '(' :: (op.symbol.chars
        ++ ' ' :: (left.plainText.toList ++ ' ' :: (right.plainText.toList ++ ')' :: rest))) := by
  simp [plainText, Symbol.text]

end

def Closes (rest : List Char) : Prop :=
  ∀ c ∈ rest.head?, c = ' ' ∨ c = ')'

theorem closes_space (rest : List Char) : Closes (' ' :: rest) := by
  rintro _ ⟨⟩
  exact .inl rfl

theorem closes_paren (rest : List Char) : Closes (')' :: rest) := by
  rintro _ ⟨⟩
  exact .inr rfl

section

variable {v w : Value} {rest rest' : List Char}

theorem literal_append_inj (hv : v.Legible) (hw : w.Legible) (hrest : Closes rest)
    (hrest' : Closes rest') (h : v.text.toList ++ rest = w.text.toList ++ rest') :
    v = w ∧ rest = rest' := by
  have hstop {cs : List Char} (hcs : Closes cs) :
      ∀ c ∈ cs.head?, decide (c ∉ delimiters) = false := by
    intro c hc
    rcases hcs c hc with rfl | rfl
    . decide
    . decide
  rcases Text.eq_of_stop (by simpa using hv.notMem_delimiters) (by simpa using hw.notMem_delimiters)
    (hstop hrest) (hstop hrest') h with ⟨htext, hrests⟩
  exact ⟨hv.eq_of_text_eq hw (String.toList_inj.1 htext), hrests⟩

theorem literal_append_ne (hv : v.Legible) (hrest : Closes rest) (more : List Char) :
    v.text.toList ++ rest ≠ '(' :: more := by
  intro h
  cases htext : v.text.toList with
  | nil =>
    rw [htext, List.nil_append] at h
    rcases hrest '(' (by rw [h]; rfl) with hc | hc <;> contradiction
  | cons c cs =>
    rw [htext, List.cons_append, List.cons.injEq] at h
    apply hv.notMem_delimiters c
    . simp [htext]
    . simp [h.1, delimiters]

theorem word_inj {word word' : List Char} (hword : ' ' ∉ word) (hword' : ' ' ∉ word')
    (h : '(' :: (word ++ ' ' :: rest) = '(' :: (word' ++ ' ' :: rest')) :
    word = word' ∧ rest = rest' := by
  rw [List.cons.injEq] at h
  rcases Text.eq_of_stop (Text.bne_of_notMem hword) (Text.bne_of_notMem hword') (by simp) (by simp)
    h.2 with ⟨hwords, hrests⟩
  rw [List.cons.injEq] at hrests
  exact ⟨hwords, hrests.2⟩

theorem group_ne_symbol (s : Symbol) :
    '(' :: (['g', 'r', 'o', 'u', 'p'] ++ ' ' :: rest) ≠ '(' :: (s.chars ++ ' ' :: rest') := by
  intro h
  have hword := (word_inj (by decide) s.notMem_space h).1
  revert hword
  cases s <;> decide

end

def ReadsOnce (e : Expr) : Prop :=
  ∀ (e' : Expr) (rest rest' : List Char), e'.Legible → Closes rest → Closes rest' →
    e.plainText.toList ++ rest = e'.plainText.toList ++ rest' →
      e.erased = e'.erased ∧ rest = rest'

theorem readsOnce_literal {v : Value} (hv : v.Legible) : (literal v).ReadsOnce := by
  intro e' rest rest' h' hrest hrest' heq
  cases e' with
  | literal w =>
    rcases literal_append_inj hv h' hrest hrest' heq with ⟨rfl, hrests⟩
    exact ⟨rfl, hrests⟩
  | group inner =>
    rw [group_append] at heq
    exact absurd heq (literal_append_ne hv hrest _)
  | unary op token operand =>
    rw [unary_append] at heq
    exact absurd heq (literal_append_ne hv hrest _)
  | binary left op token right =>
    rw [binary_append] at heq
    exact absurd heq (literal_append_ne hv hrest _)

theorem readsOnce_group {inner : Expr} (ih : inner.ReadsOnce) : (group inner).ReadsOnce := by
  intro e' rest rest' h' hrest hrest' heq
  rw [group_append] at heq
  cases e' with
  | literal w => exact absurd heq.symm (literal_append_ne h' hrest' _)
  | group inner' =>
    rw [group_append] at heq
    rcases word_inj (by decide) (by decide) heq with ⟨-, heq⟩
    rcases ih inner' _ _ h' (closes_paren _) (closes_paren _) heq with ⟨hinner, hrests⟩
    exact ⟨congrArg group hinner, (List.cons.inj hrests).2⟩
  | unary op token operand =>
    rw [unary_append] at heq
    exact absurd heq (group_ne_symbol op.symbol)
  | binary left op token right =>
    rw [binary_append] at heq
    exact absurd heq (group_ne_symbol op.symbol)

theorem readsOnce_unary {operand : Expr} (ih : operand.ReadsOnce) (op : UnaryOp) (token : Token) :
    (unary op token operand).ReadsOnce := by
  intro e' rest rest' h' hrest hrest' heq
  rw [unary_append] at heq
  cases e' with
  | literal w => exact absurd heq.symm (literal_append_ne h' hrest' _)
  | group inner =>
    rw [group_append] at heq
    exact absurd heq.symm (group_ne_symbol op.symbol)
  | unary op' token' operand' =>
    rw [unary_append] at heq
    rcases word_inj op.symbol.notMem_space op'.symbol.notMem_space heq with ⟨hop, heq⟩
    rcases ih operand' _ _ h' (closes_paren _) (closes_paren _) heq with ⟨hoperand, hrests⟩
    rw [UnaryOp.eq_of_chars_eq hop]
    exact ⟨congrArg (unary op' _) hoperand, (List.cons.inj hrests).2⟩
  | binary left op' token' right =>
    -- The operators may be one sign, but behind its operand the unary one is closed.
    rw [binary_append] at heq
    rcases word_inj op.symbol.notMem_space op'.symbol.notMem_space heq with ⟨-, heq⟩
    rcases ih left _ _ h'.1 (closes_paren _) (closes_space _) heq with ⟨-, hrests⟩
    simp at hrests

theorem readsOnce_binary {left right : Expr} (lih : left.ReadsOnce) (rih : right.ReadsOnce)
    (op : BinaryOp) (token : Token) : (binary left op token right).ReadsOnce := by
  intro e' rest rest' h' hrest hrest' heq
  rw [binary_append] at heq
  cases e' with
  | literal w => exact absurd heq.symm (literal_append_ne h' hrest' _)
  | group inner =>
    rw [group_append] at heq
    exact absurd heq.symm (group_ne_symbol op.symbol)
  | unary op' token' operand =>
    rw [unary_append] at heq
    rcases word_inj op.symbol.notMem_space op'.symbol.notMem_space heq with ⟨-, heq⟩
    rcases lih operand _ _ h' (closes_space _) (closes_paren _) heq with ⟨-, hrests⟩
    simp at hrests
  | binary left' op' token' right' =>
    rw [binary_append] at heq
    rcases word_inj op.symbol.notMem_space op'.symbol.notMem_space heq with ⟨hop, heq⟩
    rcases lih left' _ _ h'.1 (closes_space _) (closes_space _) heq with ⟨hleft, heq⟩
    rcases rih right' _ _ h'.2 (closes_paren _) (closes_paren _) (List.cons.inj heq).2
      with ⟨hright, hrests⟩
    rw [BinaryOp.eq_of_chars_eq hop]
    exact ⟨congrArg₂ (fun l r => binary l op' _ r) hleft hright, (List.cons.inj hrests).2⟩

theorem readsOnce {e : Expr} (h : e.Legible) : e.ReadsOnce := by
  induction e with
  | literal v => exact readsOnce_literal h
  | group inner ih => exact readsOnce_group (ih h)
  | unary op token operand ih => exact readsOnce_unary (ih h) op token
  | binary left op token right lih rih => exact readsOnce_binary (lih h.1) (rih h.2) op token

theorem plainText_mapTokens (f : Token → Token) (e : Expr) :
    (e.mapTokens f).plainText = e.plainText := by
  induction e with
  | literal v => rfl
  | group inner ih => rw [mapTokens, plainText, plainText, ih]
  | unary op token operand ih => rw [mapTokens, plainText, plainText, ih]
  | binary left op token right lih rih => rw [mapTokens, plainText, plainText, lih, rih]

/--
Printed trees without strings and NaNs can be read in one way: two of them have the same text if and
only if they are the same tree but for operator tokens. Zeros with different signs are not the same.
-/
theorem render_eq_iff_erased_eq {e e' : Expr} (h : e.Legible) (h' : e'.Legible) :
    e.render = e'.render ↔ e.erased = e'.erased := by
  rw [render_eq_plainText, render_eq_plainText]
  constructor
  . intro htext
    apply And.left
    apply readsOnce h e' [] [] h'
    . simp [Closes]
    . simp [Closes]
    . rw [htext]
  . intro herased
    rw [← plainText_mapTokens (fun _ => Token.endOf "") e, ← plainText_mapTokens _ e']
    exact congrArg plainText herased

def minusTree (start : Nat) : Expr :=
  let token : Token := ⟨.symbol .minus, "-", ⟨start, start + 1⟩, 1⟩
  .binary (.unary .negate token (.literal (.number negativeZero))) .subtract token (.literal .nil)

theorem render_minusTree (start : Nat) : (minusTree start).render = "(- (- -0) ніщо)" := by
  have hzero : Binary64.text negativeZero = "-0" := by decide +kernel
  rw [render_eq_plainText]
  simp only [minusTree, plainText, Value.text, hzero]
  rfl

theorem render_eq_iff_erased_eq_minusTree :
    (minusTree 0).Legible ∧ (minusTree 7).Legible
      ∧ (minusTree 0).render = "(- (- -0) ніщо)" ∧ (minusTree 7).render = "(- (- -0) ніщо)"
      ∧ (minusTree 0).erased = (minusTree 7).erased := by
  have hnan : negativeZero.isNaN = false := by decide +kernel
  have hlegible (start : Nat) : (minusTree start).Legible := ⟨hnan, trivial⟩
  have hsame : (minusTree 0).render = (minusTree 7).render := by
    rw [render_minusTree, render_minusTree]
  exact ⟨hlegible 0, hlegible 7, render_minusTree 0, render_minusTree 7,
    (render_eq_iff_erased_eq (hlegible 0) (hlegible 7)).1 hsame⟩

end Expr

end Vyraz
