import Vyraz.Proofs.RoundTrip

namespace Vyraz
namespace Grammar

inductive Level where
  | equality
  | comparison
  | term
  | factor
deriving DecidableEq, Repr

inductive Phrase where
  | expression
  | level (l : Level)
  | repetition (l : Level)
  | unary
  | primary
deriving DecidableEq, Repr

namespace Level

def operators : Level → List Symbol
  | equality => [.bangEqual, .equalEqual]
  | comparison => [.less, .lessEqual, .greater, .greaterEqual]
  | term => [.minus, .plus]
  | factor => [.slash, .star]

def operand : Level → Phrase
  | equality => .level .comparison
  | comparison => .level .term
  | term => .level .factor
  | factor => .unary

end Level

/--
The derivations of the grammar
```
expression → equality
equality   → comparison (("!=" | "==") comparison)*
comparison → term (("<" | "<=" | ">" | ">=") term)*
term       → factor (("-" | "+") factor)*
factor     → unary (("/" | "*") unary)*
unary      → ("!" | "-") unary | primary
primary    → NUMBER | STRING | "true" | "false" | "nil" | "(" expression ")"
```
-/
inductive Derivation : Phrase → Type where
  | expression (inner : Derivation (.level .equality)) : Derivation .expression
  | level {l : Level} (first : Derivation l.operand) (rest : Derivation (.repetition l)) :
    Derivation (.level l)
  | done {l : Level} : Derivation (.repetition l)
  | more {l : Level} (sign : Symbol) (hsign : sign ∈ l.operators) (operand : Derivation l.operand)
    (rest : Derivation (.repetition l)) : Derivation (.repetition l)
  | signed (sign : Symbol) (hsign : sign ∈ [Symbol.bang, Symbol.minus])
    (operand : Derivation .unary) : Derivation .unary
  | unsigned (inner : Derivation .primary) : Derivation .unary
  | number (x : Float) : Derivation .primary
  | string (s : String) : Derivation .primary
  | truth : Derivation .primary
  | falsehood : Derivation .primary
  | nothing : Derivation .primary
  | group (inner : Derivation .expression) : Derivation .primary

namespace Derivation

def word {p : Phrase} : Derivation p → List Kind
  | expression inner => inner.word
  | level first rest => first.word ++ rest.word
  | done => []
  | more sign _ operand rest => .symbol sign :: (operand.word ++ rest.word)
  | signed sign _ operand => .symbol sign :: operand.word
  | unsigned inner => inner.word
  | number x => [.number x]
  | string s => [.string s]
  | truth => [.keyword .truth]
  | falsehood => [.keyword .falsehood]
  | nothing => [.keyword .nothing]
  | group inner => .symbol .leftParen :: (inner.word ++ [.symbol .rightParen])

def nesting {p : Phrase} : Derivation p → Nat
  | expression inner => inner.nesting
  | level first rest => max first.nesting rest.nesting
  | done => 0
  | more _ _ operand rest => max operand.nesting rest.nesting
  | signed _ _ operand => operand.nesting + 1
  | unsigned inner => inner.nesting
  | number _ => 0
  | string _ => 0
  | truth => 0
  | falsehood => 0
  | nothing => 0
  | group inner => inner.nesting + 1

def snoc {l : Level} (sign : Symbol) (hsign : sign ∈ l.operators)
    (operand : Derivation l.operand) : Derivation (.repetition l) → Derivation (.repetition l)
  | done => more sign hsign operand done
  | more sign' hsign' operand' rest => more sign' hsign' operand' (snoc sign hsign operand rest)

section

variable {l : Level} {sign : Symbol} {hsign : sign ∈ l.operators} {operand : Derivation l.operand}

theorem word_snoc : (rest : Derivation (.repetition l)) →
    (snoc sign hsign operand rest).word = rest.word ++ .symbol sign :: operand.word
  | done => by simp [snoc, word]
  | more _ _ _ rest => by simp [snoc, word, word_snoc rest]

theorem nesting_snoc : (rest : Derivation (.repetition l)) →
    (snoc sign hsign operand rest).nesting = max rest.nesting operand.nesting
  | done => by simp [snoc, nesting]
  | more _ _ _ rest => by simp [snoc, nesting, nesting_snoc rest, Nat.max_assoc]

end

end Derivation

namespace Level

def precedence : Level → Nat
  | equality => 0
  | comparison => 1
  | term => 2
  | factor => 3

theorem exists_op_of_mem_operators {l : Level} {sign : Symbol} (h : sign ∈ l.operators) :
    ∃ op : BinaryOp, op.symbol = sign ∧ op.precedence = l.precedence := by
  have hall : ∀ sign ∈ l.operators,
      ∃ op ∈ BinaryOp.all, op.symbol = sign ∧ op.precedence = l.precedence := by
    cases l <;> decide
  rcases hall sign h with ⟨op, -, hop⟩
  exact ⟨op, hop⟩

def ofOp : BinaryOp → Level
  | .equal | .notEqual => equality
  | .greater | .greaterEqual | .less | .lessEqual => comparison
  | .add | .subtract => term
  | .multiply | .divide => factor

theorem precedence_ofOp (op : BinaryOp) : (ofOp op).precedence = op.precedence := by
  cases op <;> rfl

theorem symbol_mem_operators_ofOp (op : BinaryOp) : op.symbol ∈ (ofOp op).operators := by
  cases op <;> decide

end Level

namespace Phrase

def ofTightness : Nat → Phrase
  | 0 => level .equality
  | 1 => level .comparison
  | 2 => level .term
  | 3 => level .factor
  | _ => unary

theorem ofTightness_precedence (l : Level) : ofTightness l.precedence = level l := by
  cases l <;> rfl

theorem ofTightness_precedence_succ (l : Level) :
    ofTightness (l.precedence + 1) = l.operand := by
  cases l <;> rfl

end Phrase

def Derives (p : Phrase) (word : List Kind) (nesting : Nat) : Prop :=
  ∃ d : Derivation p, d.word = word ∧ d.nesting = nesting

namespace Derives

theorem literal (v : Value) : Derives .unary [v.kind] 0 := by
  cases v with
  | nil => exact ⟨.unsigned .nothing, rfl, rfl⟩
  | bool b =>
    cases b with
    | true => exact ⟨.unsigned .truth, rfl, rfl⟩
    | false => exact ⟨.unsigned .falsehood, rfl, rfl⟩
  | number x => exact ⟨.unsigned (.number x), rfl, rfl⟩
  | string s => exact ⟨.unsigned (.string s), rfl, rfl⟩

theorem group {w : List Kind} {n : Nat} (h : Derives (.level .equality) w n) :
    Derives .unary (.symbol .leftParen :: (w ++ [.symbol .rightParen])) (n + 1) := by
  rcases h with ⟨d, rfl, rfl⟩
  exact ⟨.unsigned (.group (.expression d)), rfl, rfl⟩

theorem signed {w : List Kind} {n : Nat} (op : UnaryOp) (h : Derives .unary w n) :
    Derives .unary (.symbol op.symbol :: w) (n + 1) := by
  rcases h with ⟨d, rfl, rfl⟩
  have hsign : op.symbol ∈ [Symbol.bang, Symbol.minus] := by
    cases op <;> decide
  exact ⟨.signed op.symbol hsign d, rfl, rfl⟩

theorem level_of_operand {l : Level} {w : List Kind} {n : Nat} (h : Derives l.operand w n) :
    Derives (.level l) w n := by
  rcases h with ⟨d, rfl, rfl⟩
  refine ⟨.level d .done, ?_, ?_⟩
  . simp [Derivation.word]
  . simp [Derivation.nesting]

theorem snoc {l : Level} {w v : List Kind} {n m : Nat} {sign : Symbol}
    (hsign : sign ∈ l.operators) (hleft : Derives (.level l) w n)
    (hright : Derives l.operand v m) :
    Derives (.level l) (w ++ .symbol sign :: v) (max n m) := by
  rcases hleft with ⟨d, rfl, rfl⟩
  rcases hright with ⟨operand, rfl, rfl⟩
  cases d with
  | level first rest =>
    refine ⟨.level first (.snoc sign hsign operand rest), ?_, ?_⟩
    . simp [Derivation.word, Derivation.word_snoc]
    . simp [Derivation.nesting, Derivation.nesting_snoc, Nat.max_assoc]

theorem of_le {m n : Nat} (hle : m ≤ n) {w : List Kind} {k : Nat}
    (h : Derives (.ofTightness n) w k) : Derives (.ofTightness m) w k := by
  induction hle with
  | refl => assumption
  | @step n _ ih =>
    apply ih
    match n with
    | 0 | 1 | 2 | 3 => exact level_of_operand h
    | _ + 4 => exact h

end Derives

theorem derives_of_shaped {e : Expr} (h : e.Shaped) :
    Derives (.ofTightness e.tightness) (e.flatten.map Mark.toKind) e.nesting := by
  induction e with
  | literal v => exact .literal v
  | group inner ih =>
    have hinner := (ih h).of_le (Nat.zero_le _)
    simpa [Expr.flatten, Expr.nesting, Expr.tightness, Phrase.ofTightness, Mark.toKind] using
      hinner.group
  | unary op token operand ih =>
    rcases h with ⟨hop, htight, hoperand⟩
    have hinner := ih hoperand
    rw [htight] at hinner
    simpa [Expr.flatten, Expr.nesting, Expr.tightness, Phrase.ofTightness, Mark.toKind,
      UnaryOp.ofKind?_eq_some_iff.1 hop] using hinner.signed op
  | binary left op token right lih rih =>
    rcases h with ⟨hop, hleft_tight, hright_tight, hleft, hright⟩
    -- The left operand ends in a repetition of the same level, to which this operator is added.
    have hl := (lih hleft).of_le hleft_tight
    rw [← Level.precedence_ofOp] at hl
    rw [Phrase.ofTightness_precedence] at hl
    have hr := (rih hright).of_le (Nat.succ_le_of_lt hright_tight)
    rw [← Level.precedence_ofOp] at hr
    rw [Nat.succ_eq_add_one] at hr
    rw [Phrase.ofTightness_precedence_succ] at hr
    have hsnoc := hl.snoc (Level.symbol_mem_operators_ofOp op) hr
    rw [Expr.tightness]
    rw [← Level.precedence_ofOp]
    rw [Phrase.ofTightness_precedence]
    simpa [Expr.flatten, Expr.nesting, Mark.toKind, BinaryOp.ofKind?_eq_some_iff.1 hop] using
      hsnoc

def HasTree (n : Nat) (tokens : List Token) (nesting : Nat) : Prop :=
  ∃ e : Expr, e.Shaped ∧ n ≤ e.tightness ∧ e.SpelledBy tokens ∧ e.nesting = nesting

namespace HasTree

theorem mono {m n : Nat} {tokens : List Token} {k : Nat} (h : HasTree n tokens k)
    (hle : m ≤ n) : HasTree m tokens k := by
  rcases h with ⟨e, hshape, htight, hrest⟩
  exact ⟨e, hshape, Nat.le_trans hle htight, hrest⟩

theorem literal (v : Value) {tokens : List Token} (h : tokens.map Token.kind = [v.kind]) :
    HasTree 4 tokens 0 := by
  rcases List.map_eq_singleton_iff.1 h with ⟨token, rfl, htoken⟩
  refine ⟨.literal v, trivial, Nat.le_refl 4, ?_, rfl⟩
  exact Expr.spelledBy_literal_iff.2 ⟨token, rfl, htoken⟩

theorem group {opening closing : Token} {tokens : List Token} {n : Nat}
    (hopen : opening.kind = .symbol .leftParen) (h : HasTree 0 tokens n)
    (hclose : closing.kind = .symbol .rightParen) :
    HasTree 4 (opening :: (tokens ++ [closing])) (n + 1) := by
  rcases h with ⟨e, hshape, -, hspell, rfl⟩
  refine ⟨.group e, hshape, Nat.le_refl 4, ?_, rfl⟩
  exact Expr.spelledBy_group_iff.2 ⟨opening, tokens, closing, rfl, hopen, hspell, hclose⟩

theorem unary {op : UnaryOp} {token : Token} {tokens : List Token} {n : Nat}
    (hop : UnaryOp.ofKind? token.kind = some op) (h : HasTree 4 tokens n) :
    HasTree 4 (token :: tokens) (n + 1) := by
  rcases h with ⟨e, hshape, htight, hspell, rfl⟩
  have htight : e.tightness = 4 := Nat.le_antisymm e.tightness_le_four htight
  refine ⟨.unary op token e, ⟨hop, htight, hshape⟩, Nat.le_refl 4, ?_, rfl⟩
  exact Expr.spelledBy_unary_iff.2 ⟨tokens, rfl, hspell⟩

theorem binary {op : BinaryOp} {token : Token} {us vs : List Token} {n m : Nat}
    (hop : BinaryOp.ofKind? token.kind = some op) (hleft : HasTree op.precedence us n)
    (hright : HasTree (op.precedence + 1) vs m) :
    HasTree op.precedence (us ++ token :: vs) (max n m) := by
  rcases hleft with ⟨left, hleft, hleft_tight, hus, rfl⟩
  rcases hright with ⟨right, hright, hright_tight, hvs, rfl⟩
  refine ⟨.binary left op token right, ?_, Nat.le_refl _, ?_, rfl⟩
  . exact ⟨hop, hleft_tight, hright_tight, hleft, hright⟩
  . exact Expr.spelledBy_binary_iff.2 ⟨us, vs, rfl, hus, hvs⟩

end HasTree

namespace Phrase

def tightness : Phrase → Nat
  | expression => 0
  | level l => l.precedence
  | repetition l => l.precedence
  | unary => 4
  | primary => 4

def Reads (p : Phrase) (tokens : List Token) (nesting : Nat) : Prop :=
  match p with
  | repetition l =>
    ∀ {us n}, HasTree l.precedence us n → HasTree l.precedence (us ++ tokens) (max n nesting)
  | p => HasTree p.tightness tokens nesting

theorem reads_operand {l : Level} {tokens : List Token} {n : Nat}
    (h : l.operand.Reads tokens n) : HasTree (l.precedence + 1) tokens n := by
  cases l <;> exact h

end Phrase

theorem Derivation.reads {p : Phrase} (d : Derivation p) {tokens : List Token}
    (h : tokens.map Token.kind = d.word) : p.Reads tokens d.nesting := by
  -- A repetition has no tree of its own: it lets every tree in front of it go on.
  induction d generalizing tokens with
  | expression inner ih => exact ih h
  | @level l first rest fih rih =>
    rcases List.map_eq_append_iff.1 h with ⟨us, vs, rfl, hus, hvs⟩
    have hfirst := Phrase.reads_operand (fih hus)
    exact rih hvs (hfirst.mono (Nat.le_succ _))
  | done =>
    rcases List.map_eq_nil_iff.1 h with rfl
    intro us n hleft
    simpa [nesting] using hleft
  | @more l sign hsign operand rest oih rih =>
    rcases List.map_eq_cons_iff.1 h with ⟨token, tokens, rfl, htoken, htokens⟩
    rcases List.map_eq_append_iff.1 htokens with ⟨vs, ws, rfl, hvs, hws⟩
    rcases Level.exists_op_of_mem_operators hsign with ⟨op, rfl, hprec⟩
    have hop : BinaryOp.ofKind? token.kind = some op := BinaryOp.ofKind?_eq_some_iff.2 htoken
    intro us n hleft
    have hright := Phrase.reads_operand (oih hvs)
    rw [← hprec] at hleft hright
    have hjoined := HasTree.binary hop hleft hright
    rw [hprec] at hjoined
    simpa [nesting, Nat.max_assoc] using rih hws hjoined
  | signed sign hsign operand ih =>
    rcases List.map_eq_cons_iff.1 h with ⟨token, tokens, rfl, htoken, htokens⟩
    have hop : ∃ op : UnaryOp, op.symbol = sign := by
      simp only [List.mem_cons, List.not_mem_nil, or_false] at hsign
      rcases hsign with rfl | rfl
      . exact ⟨.not, rfl⟩
      . exact ⟨.negate, rfl⟩
    rcases hop with ⟨op, rfl⟩
    exact HasTree.unary (UnaryOp.ofKind?_eq_some_iff.2 htoken) (ih htokens)
  | unsigned inner ih => exact ih h
  | number x => exact HasTree.literal (.number x) h
  | string s => exact HasTree.literal (.string s) h
  | truth => exact HasTree.literal (.bool true) h
  | falsehood => exact HasTree.literal (.bool false) h
  | nothing => exact HasTree.literal .nil h
  | group inner ih =>
    rcases List.map_eq_cons_iff.1 h with ⟨opening, tokens, rfl, hopen, htokens⟩
    rcases List.map_eq_append_iff.1 htokens with ⟨us, closings, rfl, hus, hclosings⟩
    rcases List.map_eq_singleton_iff.1 hclosings with ⟨closing, rfl, hclose⟩
    exact HasTree.group hopen (ih hus) hclose

/--
Tokens are accepted exactly if those in front of the first end marker are a sentence with a
derivation that is nowhere nested deeper than the limit.
-/
theorem ofTokens_ok_iff_derivation (tokens : List Token) :
    (∃ e, Expr.ofTokens tokens = .ok e)
      ↔
    ∃ d : Derivation .expression,
      d.word = (Parse.body tokens).map Token.kind ∧ d.nesting ≤ Parse.maxDepth := by
  constructor
  . intro h
    rcases h with ⟨e, h⟩
    rcases Expr.ofTokens_eq_ok_iff.1 h with ⟨hshape, hspell⟩
    have hderives : Derives (.level .equality) (e.flatten.map Mark.toKind) e.nesting :=
      (derives_of_shaped hshape.shaped).of_le (Nat.zero_le _)
    rcases hderives with ⟨d, hword, hnesting⟩
    refine ⟨.expression d, ?_, ?_⟩
    . rw [Mark.map_kind_of_fits hspell]
      rw [Derivation.word]
      assumption
    . rw [Derivation.nesting]
      rw [hnesting]
      apply hshape.shallow
  . intro h
    rcases h with ⟨d, hword, hnesting⟩
    rcases d.reads hword.symm with ⟨e, hshape, -, hspell, hdepth⟩
    exact ⟨e, Expr.ofTokens_eq_ok_iff.2 ⟨⟨hshape, hdepth ▸ hnesting⟩, hspell⟩⟩

end Grammar
end Vyraz
