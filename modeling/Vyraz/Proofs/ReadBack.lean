import Vyraz.Proofs.Compose
import Vyraz.Proofs.Numeral

namespace Vyraz

open Scan

namespace Value

def Unquoted : Value → Prop
  | string s => '"' ∉ s.toList
  | _ => True

def IsFinite : Value → Prop
  | number x => x.isFinite
  | _ => True

def quoted : Value → String
  | string s => "\"" ++ s ++ "\""
  | v => v.text

end Value

theorem Scan.wordKind_ne_string (word rest : List Char) (s : String) :
    wordKind word rest ≠ .string s := by
  unfold wordKind
  split
  . split <;> simp
  . split <;> simp

theorem Scan.Cut.notMem_quote {kind : Kind} {text rest : List Char}
    (h : Cut (.token kind) text rest) {s : String} (hs : kind = .string s) : '"' ∉ s.toList := by
  cases h with
  | string hcontents =>
    cases hs
    rwa [String.toList_ofList]
  | word => exact absurd hs (wordKind_ne_string _ _ _)
  | number | fraction | symbol => cases hs

section

variable {token : Token} {v w r : Value}

theorem UnaryOp.apply_unquoted {op : UnaryOp} (h : op.apply token v = .ok r) : r.Unquoted := by
  unfold UnaryOp.apply at h
  split at h <;> cases h <;> trivial

theorem BinaryOp.onNumbers_eq_ok {f : Float → Float → Value}
    (h : onNumbers f token v w = .ok r) : ∃ x y, r = f x y := by
  unfold onNumbers at h
  split at h
  . next x y =>
    cases h
    exact ⟨x, y, rfl⟩
  . cases h

theorem BinaryOp.apply_unquoted {op : BinaryOp} (hv : v.Unquoted) (hw : w.Unquoted)
    (h : op.apply token v w = .ok r) : r.Unquoted := by
  cases op with
  | add =>
    dsimp only [apply] at h
    split at h
    . cases h
      trivial
    . next s t =>
      cases h
      change '"' ∉ (s ++ t).toList
      rw [String.toList_append, List.mem_append]
      exact fun hmem => hmem.elim hv hw
    . cases h
  | equal | notEqual =>
    cases h
    trivial
  | _ =>
    rcases onNumbers_eq_ok h with ⟨x, y, rfl⟩
    trivial

end

theorem Expr.eval_unquoted {e : Expr} {r : Value}
    (h : ∀ v : Value, .kind v.kind ∈ e.flatten → v.Unquoted) (heval : e.eval = .ok r) :
    r.Unquoted := by
  induction e generalizing r with
  | literal v =>
    rw [eval_literal] at heval
    cases heval
    exact h v (List.mem_singleton_self _)
  | group inner ih =>
    rw [eval_group] at heval
    apply ih _ heval
    intro v hv
    exact h v (by simp [flatten, hv])
  | unary op token operand ih =>
    rw [eval_unary] at heval
    cases hoperand : operand.eval with
    | error err =>
      rw [hoperand] at heval
      cases heval
    | ok v =>
      rw [hoperand] at heval
      exact UnaryOp.apply_unquoted heval
  | binary left op token right lih rih =>
    rw [eval_binary] at heval
    cases hleft : left.eval with
    | error err =>
      rw [hleft] at heval
      cases heval
    | ok v =>
      cases hright : right.eval with
      | error err =>
        rw [hleft, hright] at heval
        cases heval
      | ok w =>
        rw [hleft, hright] at heval
        refine BinaryOp.apply_unquoted (lih ?_ hleft) (rih ?_ hright) heval
        . intro v hv
          exact h v (by simp [flatten, hv])
        . intro v hv
          exact h v (by simp [flatten, hv])

theorem run_unquoted {source : String} {v : Value} (h : run source = .ok v) : v.Unquoted := by
  rcases run_eq_ok_iff.1 h with ⟨e, hparse, heval⟩
  rcases parse_eq_ok_iff.1 hparse with ⟨-, tokens, hitems, hspell⟩
  apply Expr.eval_unquoted _ heval
  -- A literal of the tree is a token of the source, which ends a string at its first quote.
  intro w hw
  have hkinds : w.kind ∈ tokens.map Token.kind := by
    rw [Mark.map_kind_of_fits hspell]
    exact List.mem_map.2 ⟨_, hw, rfl⟩
  rcases List.mem_map.1 hkinds with ⟨t, ht, hkind⟩
  have hmem : .token t ∈ items .start source.toList := by
    rw [hitems]
    exact List.mem_map_of_mem ht
  rcases exists_cutFrom_of_token_mem hmem with ⟨_, _, _, hfrom⟩
  cases w with
  | string s => exact hfrom.cut.notMem_quote hkind
  | _ => trivial

section

variable {text : List Char}

theorem Scan.items_lone {kind : Kind} (h : Cut (.token kind) text []) (start : Position) :
    ∃ t : Token, t.kind = kind ∧ items start text = [.token t] := by
  have hitems := items_of_cut h start
  rw [List.append_nil, items_nil, List.append_nil] at hitems
  exact ⟨_, rfl, hitems⟩

theorem parse_literal {v : Value} (h : Cut (.token v.kind) text []) :
    parse (String.ofList text) = .ok (.literal v) := by
  rcases items_lone h .start with ⟨t, hkind, hitems⟩
  rw [parse_eq_ok_iff, String.toList_ofList, hitems]
  refine ⟨⟨trivial, Nat.zero_le _⟩, [t], rfl, ?_⟩
  exact Expr.spelledBy_literal_iff.2 ⟨t, rfl, hkind⟩

theorem parse_negation {v : Value} (h : Cut (.token v.kind) text []) :
    ∃ token, parse (String.ofList ('-' :: text)) = .ok (.unary .negate token (.literal v)) := by
  rcases items_lone h (Position.start.advance ['-']) with ⟨t, hkind, hitems⟩
  have hstops := @Symbol.stops_of_uncontinued .minus (by decide) text
  have hminus : items .start ('-' :: text) = _ := items_symbol hstops (by simp) []
  have hshallow : 1 ≤ Parse.maxDepth := by decide
  refine ⟨Symbol.minus.tokenBehind [], ?_⟩
  rw [parse_eq_ok_iff, String.toList_ofList, hminus]
  refine ⟨⟨⟨rfl, rfl, trivial⟩, hshallow⟩, [_, t], congrArg _ hitems, ?_⟩
  exact Expr.spelledBy_unary_iff.2 ⟨[t], rfl, Expr.spelledBy_literal_iff.2 ⟨t, rfl, hkind⟩⟩

theorem run_literal {v : Value} (h : Cut (.token v.kind) text []) :
    run (String.ofList text) = .ok v :=
  run_eq_ok_iff.2 ⟨_, parse_literal h, Expr.eval_literal v⟩

theorem run_negation {x : Float} (h : Cut (.token (.number x)) text []) :
    run (String.ofList ('-' :: text)) = .ok (.number (-x)) := by
  rcases @parse_negation _ (.number x) h with ⟨token, hparse⟩
  apply run_eq_ok_iff.2 ⟨_, hparse, _⟩
  rw [Expr.eval_unary, Expr.eval_literal]
  rfl

end

theorem Keyword.cut_letters (k : Keyword) : Cut (.token (.keyword k)) k.letters [] := by
  rcases k.contains_letters with ⟨c, cs, hletters, hc, hcs⟩
  have hkind : wordKind k.letters [] = .keyword k := by
    simp [wordKind, ofLetters?_letters]
  rw [← hkind, hletters]
  exact .word hc hcs (by simp)

theorem run_text_of_isFinite {x : Float} (h : x.isFinite) :
    run (Binary64.text x) = .ok (.number x) := by
  rcases Binary64.text_cases h with ⟨bits, hbits, ⟨-, htext, hx⟩ | ⟨-, htext, hx⟩⟩
  . rw [htext, ← hx]
    exact run_literal (Binary64.cut_magnitudeText hbits)
  . rw [htext, ← hx]
    exact run_negation (Binary64.cut_magnitudeText hbits)

theorem parse_text_of_signBit_le {x : Float} (h : x.isFinite)
    (hsign : Binary64.signBit ≤ x.toBits.toNat) :
    ∃ token y, parse (Binary64.text x) = .ok (.unary .negate token (.literal (.number y)))
      ∧ -y = x := by
  rcases Binary64.text_cases h with ⟨bits, hbits, ⟨hlt, -, -⟩ | ⟨-, htext, hx⟩⟩
  . exact absurd hsign hlt.not_ge
  . rcases @parse_negation _ (.number _) (Binary64.cut_magnitudeText hbits) with ⟨token, hparse⟩
    rw [htext]
    exact ⟨token, _, hparse, hx⟩

theorem Value.run_quoted_of_unquoted {v : Value} (hunquoted : v.Unquoted) (hfinite : v.IsFinite) :
    run v.quoted = .ok v := by
  cases v with
  | nil => exact run_literal (Keyword.cut_letters .nothing)
  | bool b =>
    cases b with
    | true => exact run_literal (Keyword.cut_letters .truth)
    | false => exact run_literal (Keyword.cut_letters .falsehood)
  | number x => exact run_text_of_isFinite hfinite
  | string s =>
    have hcut := @Cut.string s.toList [] hunquoted
    rw [String.ofList_toList] at hcut
    have hquoted : (string s).quoted = String.ofList ('"' :: (s.toList ++ ['"'])) := by
      rw [← String.toList_inj]
      simp [quoted]
    rw [hquoted]
    exact run_literal hcut

/--
The printed value of a source, a string in quotes, is a source with the same value. Strings have no
quotes in them, finite numbers keep their bits, and a sign in front is read as a unary operator.
-/
theorem run_quoted_eq {source : String} {v : Value} (h : run source = .ok v) :
    (∀ s, v = .string s → '"' ∉ s.toList)
      ∧ (v.IsFinite → run v.quoted = .ok v)
      ∧ (∀ x, v = .number x → x.isFinite → Binary64.signBit ≤ x.toBits.toNat →
          ∃ token y, parse v.quoted = .ok (.unary .negate token (.literal (.number y)))
            ∧ -y = x) := by
  have hunquoted := run_unquoted h
  refine ⟨?_, ?_, ?_⟩
  . rintro s rfl
    exact hunquoted
  . exact Value.run_quoted_of_unquoted hunquoted
  . rintro x rfl hfinite hsign
    exact parse_text_of_signBit_le hfinite hsign

def negativeZero : Float := Float.ofBits 0x8000000000000000

theorem run_negativeZero : run "-0.0" = .ok (.number negativeZero) := by
  have hcut := cut_number (.inr ⟨['0'], ['0'], rfl, ⟨by simp, by simp⟩, ⟨by simp, by simp⟩⟩)
  have hzero : -(Decimal.ofText ['0', '.', '0']).toFloat = negativeZero := by decide +kernel
  rw [← hzero]
  exact run_negation hcut

theorem run_quoted_eq_negativeZero :
    run "-0.0" = .ok (.number negativeZero) ∧ negativeZero.isFinite
      ∧ (Value.number negativeZero).quoted = "-0" ∧ run "-0" = .ok (.number negativeZero) := by
  have hfinite : negativeZero.isFinite := by decide +kernel
  have hquoted : (Value.number negativeZero).quoted = "-0" := by decide +kernel
  have hread := (run_quoted_eq run_negativeZero).2.1 hfinite
  rw [hquoted] at hread
  exact ⟨run_negativeZero, hfinite, hquoted, hread⟩

end Vyraz
