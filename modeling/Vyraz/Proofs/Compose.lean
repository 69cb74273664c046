import Vyraz.Proofs.Concat

namespace Vyraz

open Scan

def Mark.mapToken (f : Token → Token) : Mark → Mark
  | kind k => kind k
  | token t => token (f t)

theorem Mark.Fits.mapToken {f : Token → Token} (hf : ∀ t, (f t).kind = t.kind) {m : Mark}
    {t : Token} (h : m.Fits t) : (m.mapToken f).Fits (f t) := by
  cases m with
  | kind k => exact (hf t).trans h
  | token t' => exact congrArg f h

namespace Expr

def mapTokens (f : Token → Token) : Expr → Expr
  | literal v => literal v
  | group inner => group (inner.mapTokens f)
  | unary op token operand => unary op (f token) (operand.mapTokens f)
  | binary left op token right => binary (left.mapTokens f) op (f token) (right.mapTokens f)

section

variable {f : Token → Token} {e : Expr}

theorem nesting_mapTokens (e : Expr) : (e.mapTokens f).nesting = e.nesting := by
  induction e with
  | literal v => rfl
  | group inner ih => rw [mapTokens, nesting, nesting, ih]
  | unary op token operand ih => rw [mapTokens, nesting, nesting, ih]
  | binary left op token right lih rih => rw [mapTokens, nesting, nesting, lih, rih]

theorem tightness_mapTokens (e : Expr) : (e.mapTokens f).tightness = e.tightness := by
  cases e <;> rfl

theorem flatten_mapTokens (e : Expr) : (e.mapTokens f).flatten = e.flatten.map (.mapToken f) := by
  induction e with
  | literal v => rfl
  | group inner ih => simp [mapTokens, flatten, ih, Mark.mapToken]
  | unary op token operand ih => simp [mapTokens, flatten, ih, Mark.mapToken]
  | binary left op token right lih rih => simp [mapTokens, flatten, lih, rih, Mark.mapToken]

theorem Shaped.mapTokens (hf : ∀ t, (f t).kind = t.kind) (h : e.Shaped) :
    (e.mapTokens f).Shaped := by
  induction e with
  | literal v => trivial
  | group inner ih => exact ih h
  | unary op token operand ih =>
    rcases h with ⟨hop, htight, hoperand⟩
    refine ⟨?_, ?_, ih hoperand⟩
    . rw [hf, hop]
    . rw [tightness_mapTokens, htight]
  | binary left op token right lih rih =>
    rcases h with ⟨hop, hleft_tight, hright_tight, hleft, hright⟩
    refine ⟨?_, ?_, ?_, lih hleft, rih hright⟩
    . rw [hf, hop]
    . rw [tightness_mapTokens]
      exact hleft_tight
    . rw [tightness_mapTokens]
      exact hright_tight

theorem SpelledBy.mapTokens (hf : ∀ t, (f t).kind = t.kind) {tokens : List Token}
    (h : e.SpelledBy tokens) : (e.mapTokens f).SpelledBy (tokens.map f) := by
  unfold SpelledBy
  rw [flatten_mapTokens, List.forall₂_map_left_iff, List.forall₂_map_right_iff]
  exact h.imp fun _ _ hfits => hfits.mapToken hf

theorem paired_mapTokens (f : Token → Token) (e : Expr) :
    e.Paired (fun t t' => t' = f t) (e.mapTokens f) := by
  induction e with
  | literal v => exact .literal v
  | group inner ih => exact .group ih
  | unary op token operand ih => exact .unary op rfl ih
  | binary left op token right lih rih => exact .binary op lih rfl rih

theorem eval_mapTokens (f : Token → Token) (e : Expr) :
    (e.mapTokens f).eval = e.eval.mapError fun err => ⟨err.cause, f err.token⟩ := by
  have hagree := eval_paired (paired_mapTokens f e)
  generalize e.eval = result at hagree ⊢
  generalize (e.mapTokens f).eval = result' at hagree ⊢
  cases hagree with
  | ok hv =>
    rw [hv]
    rfl
  | @error err err' herr =>
    have herr' : err' = ⟨err.cause, f err.token⟩ := by
      rw [herr.cause, ← herr.token]
    rw [herr']
    rfl

end

def moved (d : Distance) (e : Expr) : Expr :=
  e.mapTokens (Token.moved d)

end Expr

theorem Token.kind_moved (d : Distance) (t : Token) : (t.moved d).kind = t.kind := rfl

def EvalError.moved (d : Distance) (e : EvalError) : EvalError :=
  ⟨e.cause, e.token.moved d⟩

theorem Expr.eval_moved (d : Distance) (e : Expr) :
    (e.moved d).eval = e.eval.mapError (EvalError.moved d) :=
  eval_mapTokens (Token.moved d) e

section

variable {source : String} {e : Expr}

theorem body_scan (source : String) :
    Parse.body (scan source).tokens =
      (Scan.items .start source.toList).filterMap Item.token? := by
  have hends : (Token.endOf source).kind.isEof = true := rfl
  unfold Parse.body
  rw [scan_tokens, List.takeWhile_append_of_pos]
  . simp [hends]
  . intro t ht
    simp [isEof_of_mem_items ht]

theorem Item.eq_map_token {items : List Item} (h : items.filterMap error? = []) :
    items = (items.filterMap token?).map token := by
  induction items with
  | nil => rfl
  | cons item items ih =>
    cases item with
    | token t => exact congrArg (token t :: ·) (ih h)
    | error e => cases h

theorem parse_eq_ok_iff_ofTokens :
    parse source = .ok e
      ↔
    (scan source).errors = [] ∧ Expr.ofTokens (scan source).tokens = .ok e := by
  unfold parse
  cases htokens : tokenize source with
  | error errors =>
    rcases tokenize_eq_error_iff.1 htokens with ⟨herrors, -⟩
    simp [herrors]
  | ok tokens =>
    rcases tokenize_eq_ok_iff.1 htokens with ⟨herrors, rfl⟩
    simp only [herrors, true_and]
    cases Expr.ofTokens (scan source).tokens <;> simp

theorem parse_eq_ok_iff :
    parse source = .ok e
      ↔
    e.WellShaped ∧ ∃ tokens, Scan.items .start source.toList = tokens.map .token
      ∧ e.SpelledBy tokens := by
  rw [parse_eq_ok_iff_ofTokens, Expr.ofTokens_eq_ok_iff, body_scan, scan_errors]
  constructor
  . intro h
    rcases h with ⟨herrors, hshape, hspell⟩
    exact ⟨hshape, _, Item.eq_map_token herrors, hspell⟩
  . intro h
    rcases h with ⟨hshape, tokens, hitems, hspell⟩
    rw [hitems, Item.filterMap_error?_map, Item.filterMap_token?_map]
    exact ⟨rfl, hshape, hspell⟩

theorem run_of_parse_eq_ok (h : parse source = .ok e) :
    run source = e.eval.mapError .evaluation := by
  rw [run, h]
  dsimp only
  cases e.eval with
  | ok v => rfl
  | error err => rfl

theorem run_eq_ok_iff {v : Value} :
    run source = .ok v ↔ ∃ e, parse source = .ok e ∧ e.eval = .ok v := by
  unfold run
  split
  . next hparse => simp [hparse]
  . next hparse =>
    rw [hparse]
    split
    . next heval => simp [heval]
    . next heval => simp [heval]

end

theorem Symbol.size_chars (s : Symbol) : Text.size s.chars = s.text.utf8ByteSize := by
  rw [← Text.size_toList, Symbol.text, String.toList_ofList]

theorem Symbol.stops_of_uncontinued {s : Symbol}
    (h : all.all fun s' => s'.chars != s.chars ++ ['=']) (rest : List Char) : s.Stops rest := by
  intro _ s'
  simpa using List.all_eq_true.1 h s' s'.mem_all

def Symbol.tokenBehind (before : List Char) (s : Symbol) : Token :=
  ⟨.symbol s, s.text, ⟨Text.size before, Text.size before + Text.size s.chars⟩,
    1 + before.count '\n'⟩

namespace Scan

theorem items_symbol {s : Symbol} {rest : List Char} (hstop : s.Stops rest)
    (hslash : s = .slash → rest.head? ≠ some '/') (before : List Char) :
    items (Position.start.advance before) (s.chars ++ rest) =
      .token (s.tokenBehind before) :: items (Position.start.advance (before ++ s.chars)) rest := by
  rw [items_of_cut (.symbol hstop hslash), ← Position.advance_append]
  simp [Piece.item?, Piece.span, Symbol.tokenBehind, Symbol.text, Position.offset_advance_start,
    Position.line_advance_start]

end Scan

def grouped (source : String) : String :=
  "(" ++ source ++ "\n)"

theorem toList_grouped (source : String) :
    (grouped source).toList = '(' :: (source.toList ++ ['\n', ')']) := by
  simp [grouped]

theorem size_grouped (source : String) :
    Text.size (grouped source).toList = source.utf8ByteSize + 3 := by
  have hends : Text.size ['(', '\n', ')'] = 3 := rfl
  simp only [Text.size_cons, Text.size_nil] at hends
  rw [toList_grouped, Text.size_cons, Text.size_append, Text.size_toList]
  simp only [Text.size_cons, Text.size_nil]
  omega

theorem count_newline_grouped (source : String) :
    (grouped source).toList.count '\n' = source.toList.count '\n' + 1 := by
  simp [toList_grouped]

namespace Scan

theorem items_grouped {source : String} {e : Expr} {tokens : List Token}
    (hitems : items .start source.toList = tokens.map .token) (hspell : e.SpelledBy tokens)
    (before rest : List Char) :
    ∃ tokens', items (Position.start.advance before) ((grouped source).toList ++ rest) =
        tokens'.map .token
          ++ items (Position.start.advance (before ++ (grouped source).toList)) rest
      ∧ (Expr.group (e.moved (.behind (before ++ ['('])))).SpelledBy tokens' := by
  have hmoved : items (Position.start.advance (before ++ ['('])) source.toList =
      (tokens.map (.moved (.behind (before ++ ['('])))).map .token := by
    rw [← Position.moved_behind, items_moved, hitems, List.map_map, List.map_map]
    rfl
  -- All pieces are tokens, so no string is open where the line feed is.
  have hclosed : ∀ e, .error e ∈ items (Position.start.advance (before ++ ['('])) source.toList →
      e.cause ≠ .unterminatedString := by
    rw [hmoved]
    simp
  have hopen := @Symbol.stops_of_uncontinued .leftParen (by decide)
    (source.toList ++ '\n' :: ')' :: rest)
  have hclose := @Symbol.stops_of_uncontinued .rightParen (by decide) rest
  have hopening := items_symbol hopen (by simp) before
  have hclosing := items_symbol hclose (by simp) (before ++ '(' :: (source.toList ++ ['\n']))
  simp only [Symbol.chars, List.singleton_append] at hopening hclosing
  have hplace : before ++ ['('] ++ (source.toList ++ ['\n']) =
      before ++ '(' :: (source.toList ++ ['\n']) := by simp
  have hinner := hspell.mapTokens (Token.kind_moved (.behind (before ++ ['('])))
  refine ⟨_, ?_, Expr.spelledBy_group_iff.2 ⟨Symbol.leftParen.tokenBehind before, _,
    Symbol.rightParen.tokenBehind (before ++ '(' :: (source.toList ++ ['\n'])), rfl, rfl, hinner,
    rfl⟩⟩
  rw [toList_grouped, List.cons_append, List.append_assoc, List.cons_append, List.singleton_append]
  rw [hopening, items_append_newline _ _ _ hclosed, hmoved, ← Position.advance_append, hplace]
  rw [hclosing]
  simp

end Scan

def joined (a : String) (op : BinaryOp) (b : String) : String :=
  grouped a ++ op.symbol.text ++ grouped b

def joinToken (a : String) (op : BinaryOp) : Token :=
  let start := a.utf8ByteSize + 3
  ⟨.symbol op.symbol, op.symbol.text, ⟨start, start + op.symbol.text.utf8ByteSize⟩,
    a.toList.count '\n' + 2⟩

def leftDistance : Distance :=
  ⟨1, 0⟩

def rightDistance (a : String) (op : BinaryOp) : Distance :=
  ⟨a.utf8ByteSize + op.symbol.text.utf8ByteSize + 4, a.toList.count '\n' + 1⟩

def joinedTree (a : String) (A : Expr) (op : BinaryOp) (B : Expr) : Expr :=
  .binary (.group (A.moved leftDistance)) op (joinToken a op)
    (.group (B.moved (rightDistance a op)))

section

variable {a b : String} {A B : Expr} (op : BinaryOp)

theorem tokenBehind_grouped (a : String) :
    op.symbol.tokenBehind (grouped a).toList = joinToken a op := by
  rw [Symbol.tokenBehind, size_grouped, count_newline_grouped, Symbol.size_chars, Nat.add_comm 1]
  rfl

theorem behind_grouped (a : String) :
    Distance.behind ((grouped a).toList ++ op.symbol.chars ++ ['(']) = rightDistance a op := by
  have hnewline : op.symbol.chars.count '\n' = 0 := by
    cases op <;> rfl
  have hparen : Text.size ['('] = 1 := rfl
  rw [Distance.behind, rightDistance]
  rw [Text.size_append, Text.size_append, size_grouped, hparen, Symbol.size_chars]
  rw [List.count_append, List.count_append, count_newline_grouped, hnewline]
  simp
  omega

theorem joined_spelledBy {us vs : List Token} (hA : A.SpelledBy us) (hB : B.SpelledBy vs)
    (hus : Scan.items .start a.toList = us.map .token)
    (hvs : Scan.items .start b.toList = vs.map .token) :
    ∃ tokens, Scan.items .start (joined a op b).toList = tokens.map .token
      ∧ (joinedTree a A op B).SpelledBy tokens := by
  have hstops : op.symbol.Stops (grouped b).toList := by
    simp [Symbol.Stops, toList_grouped]
  have hop := items_symbol hstops (by simp [toList_grouped]) (grouped a).toList
  rcases items_grouped hus hA [] (op.symbol.chars ++ (grouped b).toList)
    with ⟨us', hleft, hA'⟩
  rcases items_grouped hvs hB ((grouped a).toList ++ op.symbol.chars) [] with ⟨vs', hright, hB'⟩
  refine ⟨us' ++ joinToken a op :: vs', ?_, Expr.spelledBy_binary_iff.2 ⟨us', vs', rfl, hA', ?_⟩⟩
  . rw [List.append_nil, Scan.items_nil, List.append_nil] at hright
    rw [List.nil_append, hop, hright, tokenBehind_grouped] at hleft
    simpa [joined, Symbol.text] using hleft
  . rw [← behind_grouped]
    exact hB'

theorem joinedTree_wellShaped (hA : A.Shaped) (hB : B.Shaped)
    (hAnesting : A.nesting < Parse.maxDepth) (hBnesting : B.nesting < Parse.maxDepth) :
    (joinedTree a A op B).WellShaped := by
  constructor
  . refine ⟨op.ofKind?_symbol, ?_, op.precedence_lt_four, hA.mapTokens (Token.kind_moved _),
      hB.mapTokens (Token.kind_moved _)⟩
    exact Nat.le_of_lt op.precedence_lt_four
  . simp only [joinedTree, Expr.nesting, Expr.moved, Expr.nesting_mapTokens]
    omega

theorem eval_joinedTree :
    (joinedTree a A op B).eval = (do
      let v ← A.eval.mapError (.moved leftDistance)
      let w ← B.eval.mapError (.moved (rightDistance a op))
      op.apply (joinToken a op) v w) := by
  rw [joinedTree, Expr.eval_binary, Expr.eval_group, Expr.eval_group, Expr.eval_moved,
    Expr.eval_moved]

theorem parse_joined (ha : parse a = .ok A) (hb : parse b = .ok B)
    (hA : A.nesting < Parse.maxDepth) (hB : B.nesting < Parse.maxDepth) :
    parse (joined a op b) = .ok (joinedTree a A op B) := by
  rcases parse_eq_ok_iff.1 ha with ⟨hAshape, us, hus, hAspell⟩
  rcases parse_eq_ok_iff.1 hb with ⟨hBshape, vs, hvs, hBspell⟩
  rw [parse_eq_ok_iff]
  exact ⟨joinedTree_wellShaped op hAshape.shaped hBshape.shaped hA hB,
    joined_spelledBy op hAspell hBspell hus hvs⟩

/--
Two sources that are read with room for one more nesting can be joined. The whole is read as the
operator on their trees, and running it fails where the left one fails, or else where the right one
does, or else applies the operator to their values.
-/
theorem run_joined (ha : parse a = .ok A) (hb : parse b = .ok B)
    (hA : A.nesting < Parse.maxDepth) (hB : B.nesting < Parse.maxDepth) :
    parse (joined a op b) =
        .ok (.binary (.group (A.moved leftDistance)) op (joinToken a op)
          (.group (B.moved (rightDistance a op))))
      ∧ (∀ f, run a = .error f →
          ∃ err, f = .evaluation err
            ∧ run (joined a op b) = .error (.evaluation (err.moved leftDistance)))
      ∧ (∀ v f, run a = .ok v → run b = .error f →
          ∃ err, f = .evaluation err
            ∧ run (joined a op b) = .error (.evaluation (err.moved (rightDistance a op))))
      ∧ (∀ v w, run a = .ok v → run b = .ok w →
          run (joined a op b) = (op.apply (joinToken a op) v w).mapError .evaluation) := by
  have hparse := parse_joined op ha hb hA hB
  refine ⟨hparse, ?_⟩
  rw [run_of_parse_eq_ok hparse, eval_joinedTree, run_of_parse_eq_ok ha, run_of_parse_eq_ok hb]
  cases A.eval with
  | error err =>
    refine ⟨?_, ?_, ?_⟩
    . rintro _ ⟨⟩
      exact ⟨err, rfl, rfl⟩
    . rintro v f ⟨⟩
    . rintro v w ⟨⟩
  | ok v =>
    cases B.eval with
    | error err =>
      refine ⟨?_, ?_, ?_⟩
      . rintro _ ⟨⟩
      . rintro _ _ ⟨⟩ ⟨⟩
        exact ⟨err, rfl, rfl⟩
      . rintro _ _ ⟨⟩ ⟨⟩
    | ok w =>
      refine ⟨?_, ?_, ?_⟩
      . rintro _ ⟨⟩
      . rintro _ _ ⟨⟩ ⟨⟩
      . rintro _ _ ⟨⟩ ⟨⟩
        rfl

end

def commentedSource : String := "\"а\"\n// )"

def signedSource : String := "-\"b\""

def signedTree : Expr :=
  .unary .negate ⟨.symbol .minus, "-", ⟨0, 1⟩, 1⟩ (.literal (.string "b"))

theorem parse_commentedSource : parse commentedSource = .ok (.literal (.string "а")) := by
  with_unfolding_all rfl

theorem parse_signedSource : parse signedSource = .ok signedTree := by
  with_unfolding_all rfl

theorem run_joined_commentedSource :
    parse commentedSource = .ok (.literal (.string "а")) ∧ parse signedSource = .ok signedTree
      ∧ joined commentedSource .lessEqual signedSource = "(\"а\"\n// )\n)<=(-\"b\"\n)"
      ∧ parse (joined commentedSource .lessEqual signedSource) =
        .ok (.binary (.group (.literal (.string "а"))) .lessEqual
          ⟨.symbol .lessEqual, "<=", ⟨12, 14⟩, 3⟩
          (.group (.unary .negate ⟨.symbol .minus, "-", ⟨15, 16⟩, 3⟩ (.literal (.string "b")))))
      ∧ run (joined commentedSource .lessEqual signedSource) =
        .error (.evaluation ⟨.operandNotNumber, ⟨.symbol .minus, "-", ⟨15, 16⟩, 3⟩⟩) := by
  have hcommented : run commentedSource = .ok (.string "а") := by with_unfolding_all rfl
  have hsigned : run signedSource =
      .error (.evaluation ⟨.operandNotNumber, ⟨.symbol .minus, "-", ⟨0, 1⟩, 1⟩⟩) := by
    with_unfolding_all rfl
  rcases run_joined .lessEqual parse_commentedSource parse_signedSource (by decide) (by decide)
    with ⟨hparse, -, hright, -⟩
  rcases hright _ _ hcommented hsigned with ⟨err, ⟨⟩, hrun⟩
  exact ⟨parse_commentedSource, parse_signedSource, by decide, hparse, hrun⟩

end Vyraz
