import Vyraz.Prompt.Balance
import Vyraz.Proofs.Coverage

/-!
This module contains the end of a text, as far as the balance of what begins with the text depends
on it: whether a string or a comment is open there, and how many parentheses are. It is found
character by character, so the end of a longer text is found from that of a shorter one, and the
tokens of a text agree with it.
-/

namespace Vyraz.Prompt

open Scan

def climb? (depth : Nat) (t : Token) : Option Nat :=
  match t.kind, depth with
  | .symbol .leftParen, n => some (n + 1)
  | .symbol .rightParen, n + 1 => some n
  | .symbol .rightParen, 0 => none
  | _, n => some n

def openBehind? (depth : Nat) (tokens : List Token) : Option Nat :=
  tokens.foldlM climb? depth

section

variable {depth : Nat} {t : Token}

theorem climb?_leftParen (h : t.kind = .symbol .leftParen) : climb? depth t = some (depth + 1) := by
  simp [climb?, h]

theorem climb?_rightParen (h : t.kind = .symbol .rightParen) :
    climb? depth t = if depth = 0 then none else some (depth - 1) := by
  cases depth with
  | zero => simp [climb?, h]
  | succ n => simp [climb?, h]

theorem climb?_other (hleft : t.kind ≠ .symbol .leftParen) (hright : t.kind ≠ .symbol .rightParen) :
    climb? depth t = some depth := by
  unfold climb?
  split
  . contradiction
  . contradiction
  . contradiction
  . rfl

@[simp]
theorem openBehind?_nil : openBehind? depth [] = some depth := rfl

@[simp]
theorem openBehind?_cons (tokens : List Token) :
    openBehind? depth (t :: tokens) = (climb? depth t).bind (openBehind? · tokens) :=
  List.foldlM_cons

theorem openBehind?_append (us vs : List Token) :
    openBehind? depth (us ++ vs) = (openBehind? depth us).bind (openBehind? · vs) :=
  List.foldlM_append

end

theorem Balance.ofTokens_eq_complete_iff {depth : Nat} {tokens : List Token} :
    ofTokens depth tokens = complete ↔ openBehind? depth tokens = some 0 := by
  fun_induction ofTokens depth tokens with
  | case1 => simp
  | case2 => simp
  | case3 token tokens depth hkind ih => simp [climb?_leftParen hkind, ih]
  | case4 token tokens hkind => simp [climb?_rightParen hkind]
  | case5 token tokens depth hkind ih => simp [climb?_rightParen hkind, ih]
  | case6 token tokens depth hleft hzero hsucc ih =>
    rw [openBehind?_cons, climb?_other]
    . simpa using ih
    . assumption
    . intro hkind
      cases depth with
      | zero => exact hzero hkind rfl
      | succ n => exact hsucc n hkind rfl

inductive Inside where
  | code
  | slash
  | comment
  | string
deriving DecidableEq, Repr

structure Ending where
  inside : Inside
  depth : Nat
deriving DecidableEq, Repr

namespace Ending

def start : Ending := ⟨.code, 0⟩

def marks : List Char := ['"', '/', '(', ')']

def nextInCode? (depth : Nat) (c : Char) : Option Ending :=
  if c = '"' then
    some ⟨.string, depth⟩
  else if c = '/' then
    some ⟨.slash, depth⟩
  else if c = '(' then
    some ⟨.code, depth + 1⟩
  else if c = ')' then
    if depth = 0 then none else some ⟨.code, depth - 1⟩
  else
    some ⟨.code, depth⟩

def next? (e : Ending) (c : Char) : Option Ending :=
  match e.inside with
  | .code => nextInCode? e.depth c
  | .slash => if c = '/' then some ⟨.comment, e.depth⟩ else nextInCode? e.depth c
  | .comment => some ⟨if c = '\n' then .code else .comment, e.depth⟩
  | .string => some ⟨if c = '"' then .code else .string, e.depth⟩

def after? (e : Ending) (cs : List Char) : Option Ending :=
  cs.foldlM next? e

section

variable {e : Ending} {depth : Nat}

@[simp]
theorem after?_nil : e.after? [] = some e := rfl

@[simp]
theorem after?_cons (c : Char) (cs : List Char) :
    e.after? (c :: cs) = (e.next? c).bind (after? · cs) :=
  List.foldlM_cons

theorem after?_append (as bs : List Char) :
    e.after? (as ++ bs) = (e.after? as).bind (after? · bs) :=
  List.foldlM_append

theorem after?_of_forall {text : List Char} (h : ∀ c ∈ text, e.next? c = some e) :
    e.after? text = some e := by
  induction text with
  | nil => rfl
  | cons c text ih =>
    rw [List.forall_mem_cons] at h
    rw [after?_cons, h.1, Option.bind_some, ih h.2]

theorem next?_of_notMem {c : Char} (h : c ∉ marks) :
    next? ⟨.code, depth⟩ c = some ⟨.code, depth⟩ := by
  simp only [marks, List.mem_cons, List.not_mem_nil, or_false, not_or] at h
  simp [next?, nextInCode?, h]

theorem after?_of_notMem {text : List Char} (h : ∀ c ∈ text, c ∉ marks) :
    after? ⟨.code, depth⟩ text = some ⟨.code, depth⟩ := by
  apply after?_of_forall
  intro c hc
  exact next?_of_notMem (h c hc)

theorem after?_of_comment {text : List Char} (h : '\n' ∉ text) :
    after? ⟨.comment, depth⟩ text = some ⟨.comment, depth⟩ := by
  apply after?_of_forall
  intro c hc
  have : c ≠ '\n' := by
    rintro rfl
    contradiction
  simp [next?, this]

theorem after?_of_string {text : List Char} (h : '"' ∉ text) :
    after? ⟨.string, depth⟩ text = some ⟨.string, depth⟩ := by
  apply after?_of_forall
  intro c hc
  have : c ≠ '"' := by
    rintro rfl
    contradiction
  simp [next?, this]

end

theorem exists_next?_of_notMem (e : Ending) {c : Char} (h : c ∉ marks) :
    ∃ inside, e.next? c = some ⟨inside, e.depth⟩ ∧ (e.inside = .string → inside = .string) := by
  rcases e with ⟨inside, depth⟩
  have hcode : nextInCode? depth c = some ⟨.code, depth⟩ := next?_of_notMem h
  simp only [marks, List.mem_cons, List.not_mem_nil, or_false, not_or] at h
  cases inside with
  | code => exact ⟨.code, hcode, by simp⟩
  | slash => exact ⟨.code, by simp [next?, h, hcode], by simp⟩
  | comment => exact ⟨_, rfl, by simp⟩
  | string => exact ⟨.string, by simp [next?, h], by simp⟩

theorem exists_after?_of_notMem (e : Ending) {text : List Char} (h : ∀ c ∈ text, c ∉ marks) :
    ∃ inside, e.after? text = some ⟨inside, e.depth⟩ ∧ (e.inside = .string → inside = .string) := by
  induction text generalizing e with
  | nil => exact ⟨e.inside, rfl, id⟩
  | cons c text ih =>
    rw [List.forall_mem_cons] at h
    rcases exists_next?_of_notMem e h.1 with ⟨inside, hnext, hinside⟩
    rcases ih ⟨inside, e.depth⟩ h.2 with ⟨inside', hafter, hinside'⟩
    refine ⟨inside', ?_, ?_⟩
    . rw [after?_cons, hnext, Option.bind_some, hafter]
    . intro hstring
      exact hinside' (hinside hstring)

def Closed (cs : List Char) : Prop :=
  ∃ inside, inside ≠ .string ∧ start.after? cs = some ⟨inside, 0⟩

theorem closed_append_iff {gap : List Char} (h : ∀ c ∈ gap, c ∉ marks) (cs : List Char) :
    Closed (gap ++ cs) ↔ Closed cs := by
  unfold Closed start
  rw [after?_append, after?_of_notMem h, Option.bind_some]

theorem Closed.of_append {cs gap : List Char} (hclosed : Closed (cs ++ gap))
    (h : ∀ c ∈ gap, c ∉ marks) : Closed cs := by
  rcases hclosed with ⟨inside, hinside, hafter⟩
  rw [after?_append, Option.bind_eq_some_iff] at hafter
  rcases hafter with ⟨e, he, hgap⟩
  rcases exists_after?_of_notMem e h with ⟨inside', hgap', hstring⟩
  simp only [hgap', Option.some.injEq, mk.injEq] at hgap
  rcases hgap with ⟨rfl, hdepth⟩
  refine ⟨e.inside, ?_, ?_⟩
  . intro hopen
    exact hinside (hstring hopen)
  . rw [he, ← hdepth]

theorem notMem_marks {p : Char → Bool} (hp : marks.any p = false) {c : Char} (hc : p c) :
    c ∉ marks := by
  intro hmem
  exact List.any_eq_false.1 hp c hmem hc

end Ending

structure Ends (items : List Item) (cs : List Char) (inside : Inside) : Prop where
  after : ∀ depth, Ending.after? ⟨.code, depth⟩ cs =
    (openBehind? depth (items.filterMap Item.token?)).map (⟨inside, ·⟩)
  string : inside = .string ↔ ∃ e, .error e ∈ items ∧ e.cause = .unterminatedString

namespace Ends

variable {front items : List Item} {text rest : List Char} {inside : Inside}

theorem append (h : Ends items rest inside)
    (htext : ∀ depth, Ending.after? ⟨.code, depth⟩ (text ++ rest) =
      (openBehind? depth (front.filterMap Item.token?)).bind (Ending.after? ⟨.code, ·⟩ rest))
    (hclosed : ∀ e, .error e ∈ front → e.cause ≠ .unterminatedString) :
    Ends (front ++ items) (text ++ rest) inside := by
  constructor
  . intro depth
    rw [htext, List.filterMap_append, openBehind?_append, Option.map_bind]
    congr
    funext n
    exact h.after n
  . rw [h.string]
    constructor
    . rintro ⟨e, he, hcause⟩
      exact ⟨e, List.mem_append_right _ he, hcause⟩
    . rintro ⟨e, he, hcause⟩
      rcases List.mem_append.1 he with he | he
      . exact absurd hcause (hclosed e he)
      . exact ⟨e, he, hcause⟩

theorem append_code (h : Ends items rest inside)
    (htext : ∀ depth, Ending.after? ⟨.code, depth⟩ text =
      (openBehind? depth (front.filterMap Item.token?)).map (⟨.code, ·⟩))
    (hclosed : ∀ e, .error e ∈ front → e.cause ≠ .unterminatedString) :
    Ends (front ++ items) (text ++ rest) inside := by
  apply h.append
  . intro depth
    rw [Ending.after?_append, htext, Option.bind_map]
    rfl
  . assumption

theorem append_plain {role : Role} (h : Ends items rest inside)
    (htext : ∀ c ∈ text, c ∉ Ending.marks) (hleft : role ≠ .token (.symbol .leftParen))
    (hright : role ≠ .token (.symbol .rightParen)) (hopen : role ≠ .error .unterminatedString)
    (p : Position) :
    Ends ((Piece.item? ⟨role, text, p⟩).toList ++ items) (text ++ rest) inside := by
  apply h.append_code
  . intro depth
    rw [Ending.after?_of_notMem htext]
    cases role with
    | blank => rfl
    | error cause => rfl
    | token kind =>
      simp only [ne_eq, Role.token.injEq] at hleft hright
      simp [Piece.item?, Item.token?, climb?_other, hleft, hright]
  . intro e he
    cases role with
    | blank => simp [Piece.item?] at he
    | token kind => simp [Piece.item?] at he
    | error cause =>
      simp only [Piece.item?, Option.toList_some, List.mem_singleton, Item.error.injEq] at he
      subst he
      simpa using hopen

theorem append_marked (mode : Inside) (h : Ends items rest inside) (hmode : mode ≠ .string)
    (htext : ∀ depth, Ending.after? ⟨.code, depth⟩ text = some ⟨mode, depth⟩)
    (hrest : ∀ c ∈ rest.head?, ∀ depth,
      Ending.next? ⟨mode, depth⟩ c = Ending.next? ⟨.code, depth⟩ c)
    (hfront : ∀ depth, openBehind? depth (front.filterMap Item.token?) = some depth)
    (hclosed : ∀ e, .error e ∈ front → e.cause ≠ .unterminatedString) :
    ∃ inside, Ends (front ++ items) (text ++ rest) inside := by
  -- Nothing may follow, and then the text ends inside of `mode`; else the next character leads on
  -- from there as it does from code.
  cases rest with
  | nil =>
    have hempty (depth : Nat) :
        openBehind? depth (items.filterMap Item.token?) = some depth ∧ inside = .code := by
      have hafter := h.after depth
      rw [Ending.after?_nil, eq_comm, Option.map_eq_some_iff] at hafter
      rcases hafter with ⟨n, hn, hend⟩
      cases hend
      exact ⟨hn, rfl⟩
    have hnone : ¬∃ e, .error e ∈ items ∧ e.cause = .unterminatedString := by
      rw [← h.string, (hempty 0).2]
      simp
    refine ⟨mode, ?_, ?_⟩
    . intro depth
      rw [List.append_nil, htext, List.filterMap_append, openBehind?_append, hfront,
        Option.bind_some, (hempty depth).1]
      rfl
    . simp only [hmode, false_iff, not_exists, not_and]
      intro e he hcause
      rcases List.mem_append.1 he with he | he
      . exact hclosed e he hcause
      . exact hnone ⟨e, he, hcause⟩
  | cons c cs =>
    refine ⟨inside, h.append ?_ hclosed⟩
    intro depth
    rw [Ending.after?_append, htext, hfront, Option.bind_some, Option.bind_some]
    rw [Ending.after?_cons, Ending.after?_cons, hrest c rfl]

end Ends

theorem wordKind_ne_symbol (word rest : List Char) (s : Symbol) :
    wordKind word rest ≠ .symbol s := by
  unfold wordKind
  split
  . split <;> simp
  . split <;> simp

theorem exists_ends (p : Position) (cs : List Char) : ∃ inside, Ends (items p cs) cs inside := by
  have hletter {c : Char} (hc : isLetter c) : c ∉ Ending.marks :=
    Ending.notMem_marks (by decide) hc
  have hdigit {c : Char} (hc : c.isDigit) : c ∉ Ending.marks :=
    Ending.notMem_marks (by decide) hc
  induction cs using cut_induction generalizing p with
  | nil => exact ⟨.code, by simp, by simp⟩
  | @cut role text rest hcut ih =>
    rcases ih (p.advance text) with ⟨inside, hrest⟩
    rw [items_of_cut hcut]
    cases hcut with
    | blank hne hall hstop =>
      refine ⟨inside, hrest.append_plain ?_ (by simp) (by simp) (by simp) p⟩
      intro c hc
      exact Ending.notMem_marks (by decide) (hall c hc)
    | @comment body _ hbody hstop =>
      apply hrest.append_marked .comment
      . simp
      . intro depth
        simpa [Ending.next?, Ending.nextInCode?] using Ending.after?_of_comment hbody
      . intro c hc depth
        rw [hstop c hc]
        rfl
      . intro depth
        rfl
      . simp [Piece.item?]
    | @string contents _ hcontents =>
      refine ⟨inside, hrest.append_code ?_ (by simp [Piece.item?])⟩
      intro depth
      rw [Ending.after?_cons]
      simp [Ending.next?, Ending.nextInCode?, Ending.after?_append,
        Ending.after?_of_string hcontents, Piece.item?, Item.token?, climb?_other]
    | @openString contents hcontents =>
      refine ⟨.string, ?_, ?_⟩
      . intro depth
        rw [List.append_nil, items_nil, List.append_nil, Ending.after?_cons]
        exact Ending.after?_of_string hcontents
      . simp [Piece.item?]
    | @word c cs _ hc hcs hstop =>
      refine ⟨inside, hrest.append_plain ?_ ?_ ?_ (by simp) p⟩
      . intro d hd
        rcases List.mem_cons.1 hd with rfl | hd
        . exact hletter hc
        . exact Ending.notMem_marks (by decide) (hcs d hd)
      . simp [wordKind_ne_symbol]
      . simp [wordKind_ne_symbol]
    | number hwhole hstop hpoint =>
      refine ⟨inside, hrest.append_plain ?_ (by simp) (by simp) (by simp) p⟩
      intro c hc
      exact hdigit (hwhole.2 c hc)
    | fraction hwhole hdigits hstop =>
      refine ⟨inside, hrest.append_plain ?_ (by simp) (by simp) (by simp) p⟩
      intro c hc
      rcases List.mem_append.1 hc with hc | hc
      . exact hdigit (hwhole.2 c hc)
      . rcases List.mem_cons.1 hc with rfl | hc
        . decide
        . exact hdigit (hdigits.2 c hc)
    | @symbol s _ hstop hslash =>
      cases s with
      | slash =>
        apply hrest.append_marked .slash
        . simp
        . intro depth
          rfl
        . intro c hc depth
          have : c ≠ '/' := by
            rintro rfl
            exact hslash rfl hc
          simp [Ending.next?, this]
        . intro depth
          rfl
        . simp [Piece.item?]
      | leftParen =>
        refine ⟨inside, hrest.append_code ?_ (by simp [Piece.item?])⟩
        intro depth
        rfl
      | rightParen =>
        refine ⟨inside, hrest.append_code ?_ (by simp [Piece.item?])⟩
        intro depth
        cases depth <;> rfl
      | _ =>
        refine ⟨inside, hrest.append_plain ?_ (by simp) (by simp) (by simp) p⟩
        simp [Symbol.chars, Ending.marks]
    | @stray c _ hblank hquote hletter hdigit hsymbol =>
      refine ⟨inside, hrest.append_plain ?_ (by simp) (by simp) (by simp) p⟩
      simp only [forall_eq, Ending.marks, List.mem_cons, List.not_mem_nil,
        or_false, not_or]
      refine ⟨hquote, ?_, ?_, ?_⟩
      . rintro rfl
        exact hsymbol .slash rfl
      . rintro rfl
        exact hsymbol .leftParen rfl
      . rintro rfl
        exact hsymbol .rightParen rfl

theorem openBehind?_scan (text : String) :
    openBehind? 0 (scan text).tokens =
      openBehind? 0 ((Scan.items .start text.toList).filterMap Item.token?) := by
  have hends (n : Nat) : climb? n (Token.endOf text) = some n := rfl
  rw [scan_tokens, openBehind?_append]
  simp [hends]

theorem exists_ends_scan (text : String) :
    ∃ inside, Ending.start.after? text.toList =
        (openBehind? 0 (scan text).tokens).map (⟨inside, ·⟩)
      ∧ (inside = .string ↔ ∃ e ∈ (scan text).errors, e.cause = .unterminatedString) := by
  rcases exists_ends .start text.toList with ⟨inside, hafter, hstring⟩
  refine ⟨inside, ?_, ?_⟩
  . rw [Ending.start, hafter, openBehind?_scan]
  . rw [hstring, scan_errors]
    simp only [Item.mem_filterMap_error?_iff]

namespace Balance

variable {text : String}

theorem ofText_eq_complete_iff_ofTokens :
    ofText text = complete
      ↔
    (∀ e ∈ (scan text).errors, e.cause ≠ .unterminatedString)
      ∧ openBehind? 0 (scan text).tokens = some 0 := by
  unfold ofText
  dsimp only
  split
  . next h =>
    simp only [List.any_eq_true, decide_eq_true_eq] at h
    rcases h with ⟨e, he, hcause⟩
    simp only [reduceCtorEq, false_iff, not_and]
    intro hnone
    exact absurd hcause (hnone e he)
  . next h =>
    simp only [List.any_eq_true, decide_eq_true_eq, not_exists, not_and] at h
    rw [ofTokens_eq_complete_iff]
    simp only [iff_and_self]
    intro _
    exact h

theorem ofText_eq_complete_iff : ofText text = complete ↔ Ending.Closed text.toList := by
  rcases exists_ends_scan text with ⟨inside, hafter, hstring⟩
  rw [ofText_eq_complete_iff_ofTokens, Ending.Closed, hafter]
  simp only [Option.map_eq_some_iff, Ending.mk.injEq]
  constructor
  . rintro ⟨hclosed, hopen⟩
    refine ⟨inside, ?_, 0, hopen, rfl, rfl⟩
    rw [Ne, hstring]
    rintro ⟨e, he, hcause⟩
    exact hclosed e he hcause
  . rintro ⟨_, hinside, _, hopen, rfl, rfl⟩
    refine ⟨?_, hopen⟩
    intro e he hcause
    exact hinside (hstring.2 ⟨e, he, hcause⟩)

end Balance

end Vyraz.Prompt
