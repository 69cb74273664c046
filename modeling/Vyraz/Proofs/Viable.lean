import Vyraz.Proofs.Provenance

namespace Vyraz

namespace Parse

def groups (stack : List Frame) : Nat :=
  stack.countP Frame.isGroup

@[simp]
theorem groups_group (stack : List Frame) : groups (.group :: stack) = groups stack + 1 :=
  List.countP_cons_of_pos rfl

@[simp]
theorem groups_unary (op : UnaryOp) (token : Token) (stack : List Frame) :
    groups (.unary op token :: stack) = groups stack := by
  simp [groups, Frame.isGroup]

@[simp]
theorem groups_binary (left : Expr) (op : BinaryOp) (token : Token) (stack : List Frame) :
    groups (.binary left op token :: stack) = groups stack := by
  simp [groups, Frame.isGroup]

theorem groups_reduce (p : Nat) (stack : List Frame) (e : Expr) :
    groups (reduce p stack e).1 = groups stack := by
  fun_induction reduce p stack e with
  | case1 e left op token stack hp ih =>
    rw [ih, groups_binary]
  | case2 => rfl
  | case3 => rfl

theorem complete_eq_operator (stack : List Frame) (e : Expr) :
    ∃ rest whole, complete stack e = .operator rest whole ∧ groups rest = groups stack := by
  fun_induction complete stack e with
  | case1 e op token stack ih =>
    rw [groups_unary]
    exact ih
  | case2 stack e => exact ⟨stack, e, rfl, rfl⟩

section

variable {limit : Option Nat} {stack : List Frame} {left : Expr}

theorem State.Sound.reduce_cases (h : State.Sound limit (.operator stack left)) :
    (groups stack = 0 ∧ (reduce 0 stack left).1 = [])
      ∨ ∃ rest, groups stack = groups rest + 1 ∧ (reduce 0 stack left).1 = .group :: rest := by
  rcases h with ⟨hplaced, -, hsettled⟩
  have hgroups := groups_reduce 0 stack left
  have hadmits : Admits (reduce 0 stack left).1 0 := reduce_admits .equal hplaced hsettled
  rw [← hgroups]
  match hrest : (reduce 0 stack left).1 with
  | [] => exact .inl ⟨rfl, rfl⟩
  | .group :: rest => exact .inr ⟨rest, groups_group rest, rfl⟩
  | .unary op token :: rest =>
    simp [hrest, Admits] at hadmits
  | .binary e op token :: rest =>
    simp [hrest, Admits] at hadmits

def closings (n : Nat) : List Token :=
  List.replicate n ⟨.symbol .rightParen, ")", ⟨0, 0⟩, 1⟩

theorem leads_closings (h : State.Sound limit (.operator stack left)) :
    ∃ rest whole e, Leads limit (.operator stack left) (closings (groups stack))
        (.operator rest whole)
      ∧ reduce 0 rest whole = ([], e) := by
  -- Each closing token takes one grouping off, with whatever else is open inside and around it.
  generalize hn : groups stack = n
  induction n generalizing stack left with
  | zero =>
    rcases h.reduce_cases with ⟨-, hrest⟩ | ⟨rest, hrest, -⟩
    . exact ⟨stack, left, _, leads_nil_iff.2 rfl, Prod.ext hrest rfl⟩
    . omega
  | succ n ih =>
    rcases h.reduce_cases with ⟨hnone, -⟩ | ⟨rest, hgroups, hrest⟩
    . omega
    have hmove : Move limit ⟨.symbol .rightParen, ")", ⟨0, 0⟩, 1⟩ (.operator stack left)
        (complete rest (.group (reduce 0 stack left).2)) := by
      apply Move.closeGroup
      . rfl
      . exact Prod.ext hrest rfl
    have hsound := hmove.sound h
    rcases complete_eq_operator rest (.group (reduce 0 stack left).2) with
      ⟨rest', whole, hcomplete, hgroups'⟩
    rw [hcomplete] at hmove hsound
    rcases ih hsound (by omega) with ⟨rest'', whole', e, hrun, hreduce⟩
    refine ⟨rest'', whole', e, ?_, hreduce⟩
    exact leads_cons_iff.2 ⟨_, hmove, hrun⟩

end

section

variable {limit : Option Nat} {tokens : List Token}

theorem exists_within_of_leads_operator {stack : List Frame} {left : Expr}
    (h : Leads limit (.operand []) tokens (.operator stack left))
    (heof : ∀ t ∈ tokens, t.kind.isEof = false) :
    ∃ more e, within limit (tokens ++ more) = .ok e := by
  rcases leads_closings (reached_of_leads h).1 with ⟨rest, whole, e, hrun, hreduce⟩
  refine ⟨closings (groups stack), e, ?_⟩
  have heof' : ∀ t ∈ tokens ++ closings (groups stack), t.kind.isEof = false := by
    intro t ht
    rcases List.mem_append.1 ht with ht | ht
    . exact heof t ht
    . rw [List.eq_of_mem_replicate ht]
      rfl
  rw [within_eq_ok_iff, body_eq_self heof']
  exact ⟨rest, whole, leads_append_iff.2 ⟨_, h, hrun⟩, hreduce⟩

theorem exists_within_of_leads {s : State} (h : Leads limit (.operand []) tokens s)
    (heof : ∀ t ∈ tokens, t.kind.isEof = false) :
    ∃ more e, within limit (tokens ++ more) = .ok e := by
  cases s with
  | operator stack left => exact exists_within_of_leads_operator h heof
  | operand stack =>
    -- A literal does not nest, so it may stand at any depth within the limit.
    let nothing : Token := ⟨.keyword .nothing, Keyword.nothing.text, ⟨0, 0⟩, 1⟩
    have hmove : Move limit nothing (.operand stack) (complete stack (.literal .nil)) :=
      .literal rfl
    rcases complete_eq_operator stack (.literal .nil) with ⟨rest, whole, hcomplete, -⟩
    rw [hcomplete] at hmove
    have hrun : Leads limit (.operand []) (tokens ++ [nothing]) (.operator rest whole) :=
      leads_append_iff.2 ⟨_, h, leads_cons_iff.2 ⟨_, hmove, leads_nil_iff.2 rfl⟩⟩
    have heof' : ∀ t ∈ tokens ++ [nothing], t.kind.isEof = false := by
      intro t ht
      rcases List.mem_append.1 ht with ht | ht
      . exact heof t ht
      . rw [List.mem_singleton.1 ht]
        rfl
    rcases exists_within_of_leads_operator hrun heof' with ⟨more, e, hread⟩
    refine ⟨nothing :: more, e, ?_⟩
    simpa using hread

theorem within_of_stop {before : List Token} {token : Token} {s : State} {err : ParseError}
    (hrun : Leads limit (.operand []) before s) (hstop : step limit s token = .error err)
    (heof : ∀ t ∈ before ++ [token], t.kind.isEof = false) (more : List Token) :
    within limit (before ++ [token] ++ more) = .error err := by
  have hbody : body (before ++ [token] ++ more) = before ++ token :: body more := by
    unfold body
    rw [List.takeWhile_append_of_pos (by simpa using heof), List.append_assoc,
      List.singleton_append]
  have herror : (body (before ++ [token] ++ more)).foldlM (step limit) (.operand []) =
      .error err := by
    rw [hbody, foldlM_step_eq_error_iff]
    exact ⟨before, token, body more, s, rfl, hrun, hstop⟩
  rw [within, herror]

end

end Parse

namespace Expr

def Accepted (tokens : List Token) : Prop :=
  ∃ e, ofTokens tokens = .ok e

def Viable (tokens : List Token) : Prop :=
  ∃ more, Accepted (tokens ++ more)

/--
The token at an index, which is the end marker behind the last token, is the first one that makes
tokens hopeless: those before it are viable, and with it they are not.
-/
structure HopelessAt (tokens : List Token) (i : Nat) (token : Token) : Prop where
  le : i ≤ tokens.length
  token_eq : (tokens ++ [Parse.stop tokens])[i]? = some token
  viable : Viable (tokens.take i)
  hopeless : i < tokens.length → ¬Viable (tokens.take (i + 1))
  rejected : ¬Accepted tokens

/--
Every error is at the earliest token at which the tokens are hopeless, whatever its cause is. That
nesting is limited is part of what can be accepted.
-/
theorem ofTokens_error_hopelessAt {tokens : List Token} {err : ParseError}
    (heof : ∀ t ∈ tokens, t.kind.isEof = false) (h : ofTokens tokens = .error err) :
    ∃ i, HopelessAt tokens i err.token := by
  have hrejected : ¬Accepted tokens := by
    rintro ⟨e, he⟩
    rw [h] at he
    contradiction
  unfold ofTokens Parse.within at h
  rw [Parse.body_eq_self heof] at h
  split at h
  . next s hrun =>
    rcases Parse.finish_error h with ⟨htoken, -⟩
    refine ⟨tokens.length, Nat.le_refl _, ?_, ?_, ?_, hrejected⟩
    . rw [htoken]
      simp
    . rw [List.take_length]
      exact Parse.exists_within_of_leads hrun heof
    . omega
  . next err' hrun =>
    cases h
    rcases Parse.foldlM_step_eq_error_iff.1 hrun with ⟨before, token, after, m, rfl, hlead, hstop⟩
    have htake : (before ++ token :: after).take (before.length + 1) = before ++ [token] := by
      rw [List.take_append, List.take_of_length_le (Nat.le_succ _)]
      simp
    have hfront : ∀ t ∈ before ++ [token], t.kind.isEof = false := by
      intro t ht
      rw [← htake] at ht
      exact heof t (List.mem_of_mem_take ht)
    refine ⟨before.length, ?_, ?_, ?_, ?_, hrejected⟩
    . simp
    . rw [Parse.step_error_token hstop]
      simp
    . rw [List.take_left]
      apply Parse.exists_within_of_leads hlead
      intro t ht
      exact hfront t (List.mem_append_left _ ht)
    . rintro - ⟨more, e, he⟩
      rw [htake, ofTokens, Parse.within_of_stop hlead hstop hfront] at he
      contradiction

def doubledTokens : List Token :=
  [⟨.symbol .leftParen, "(", ⟨0, 1⟩, 1⟩, ⟨.string "a", "\"a\"", ⟨1, 4⟩, 1⟩,
    ⟨.string "b", "\"b\"", ⟨5, 8⟩, 1⟩]

theorem ofTokens_doubledTokens_hopelessAt :
    ofTokens doubledTokens =
        .error ⟨.unclosedGrouping, ⟨.string "b", "\"b\"", ⟨5, 8⟩, 1⟩⟩
      ∧ ∃ i, HopelessAt doubledTokens i ⟨.string "b", "\"b\"", ⟨5, 8⟩, 1⟩ := by
  have herror : ofTokens doubledTokens =
      .error ⟨.unclosedGrouping, ⟨.string "b", "\"b\"", ⟨5, 8⟩, 1⟩⟩ := rfl
  exact ⟨herror, ofTokens_error_hopelessAt (by decide) herror⟩

end Expr
end Vyraz
