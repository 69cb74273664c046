import Vyraz.Proofs.Lexeme
import Vyraz.Proofs.Paired

/-!
This module contains the freedom of layout: a source that has tokens may be written anew with any
blank text and comments around its lexemes. It has the same tokens then, but for their places, and
comes to the same. This rests on tokens that are the same wherever a blank follows them.
-/

namespace Vyraz

open Scan

namespace Scan

section

variable {c : Char}

theorem eq_false_of_isBlank {p : Char → Bool} (hp : [' ', '\t', '\r', '\n'].any p = false)
    (h : isBlank c) : p c = false := by
  rw [← Bool.not_eq_true]
  apply List.any_eq_false.1 hp
  simpa [isBlank, or_assoc] using h

theorem isCyrillic_eq_false_of_symbol {s : Symbol} (h : s.chars.head? = some c) :
    isCyrillic c = false := by
  cases s <;> cases h <;> decide

end

theorem cut_of_isCyrillic {c : Char} (hc : isCyrillic c) (hletter : isLetter c = false)
    (rest : List Char) : Cut (.error .unexpectedCharacter) [c] rest := by
  apply Cut.stray
  . by_contra hblank
    rw [Bool.not_eq_false] at hblank
    have hplain : isCyrillic c = false := eq_false_of_isBlank (by decide) hblank
    rw [hplain] at hc
    contradiction
  . rintro rfl
    contradiction
  . exact hletter
  . by_contra hdigit
    rw [Bool.not_eq_false] at hdigit
    have hplain : isCyrillic c = false := eq_false_of_isDigit (by decide) hdigit
    rw [hplain] at hc
    contradiction
  . intro s hs
    rw [isCyrillic_eq_false_of_symbol hs] at hc
    contradiction

theorem wordKind_eq_of_plain {word rest rest' : List Char}
    (h : ∀ c ∈ rest.head?, isCyrillic c = false) (h' : ∀ c ∈ rest'.head?, isCyrillic c = false) :
    wordKind word rest = wordKind word rest' := by
  have hplain : ∀ {cs : List Char}, (∀ c ∈ cs.head?, isCyrillic c = false) →
      cs.head?.any isCyrillic = false := by
    intro cs hcs
    cases cs with
    | nil => rfl
    | cons c cs => exact hcs c rfl
  rw [wordKind, wordKind, hplain h, hplain h']

theorem Cut.before_blank {kind : Kind} {text rest rest' : List Char}
    (h : Cut (.token kind) text rest) (hrest : ∀ c ∈ rest.head?, isCyrillic c → isLetter c)
    (hblank : ∀ c ∈ rest'.head?, isBlank c) : Cut (.token kind) text rest' := by
  have hnone : ∀ {p : Char → Bool}, [' ', '\t', '\r', '\n'].any p = false →
      ∀ c ∈ rest'.head?, p c = false := by
    intro p hp c hc
    exact eq_false_of_isBlank hp (hblank c hc)
  cases h with
  | string hcontents => exact .string hcontents
  | @word c cs _ hc hcs hstop =>
    -- A Cyrillic character that ends a word is no letter, and only such a one changes its kind.
    have hplain : ∀ d ∈ rest.head?, isCyrillic d = false := by
      intro d hd
      by_contra hcyrillic
      rw [Bool.not_eq_false] at hcyrillic
      have := hstop d hd
      simp [isWordPart, hrest d hd hcyrillic] at this
    rw [wordKind_eq_of_plain hplain (hnone (by decide))]
    exact .word hc hcs (hnone (by decide))
  | number hwhole hstop hpoint =>
    apply Cut.number hwhole (hnone (by decide))
    rintro d cs rfl
    have := hblank '.' rfl
    contradiction
  | fraction hwhole hdigits hstop => exact .fraction hwhole hdigits (hnone (by decide))
  | symbol hstop hslash =>
    apply Cut.symbol
    . intro hequal
      have := hblank '=' hequal
      contradiction
    . intro _ hslash
      have := hblank '/' hslash
      contradiction

section

variable (start : Position)

theorem items_of_cut_blank {text rest : List Char} (h : Cut .blank text rest) :
    items start (text ++ rest) = items (start.advance text) rest := by
  rw [items_of_cut h]
  rfl

theorem items_blank {c : Char} (hc : isBlank c) (cs : List Char) :
    items start (c :: cs) = items (start.advance [c]) cs := by
  -- The first piece of `c :: cs` takes all blanks with it, so `cs` begins with what is left of it.
  have hall : ∀ d ∈ cs.takeWhile isBlank, isBlank d := by
    intro d hd
    exact List.mem_takeWhile_imp hd
  have hstop := Text.dropWhile_stop isBlank cs
  generalize hblanks : cs.takeWhile isBlank = blanks at hall
  generalize hrest : cs.dropWhile isBlank = rest at hstop
  have hcs : cs = blanks ++ rest := by
    rw [← hblanks, ← hrest, List.takeWhile_append_dropWhile]
  have hcut : Cut .blank (c :: blanks) rest := by
    apply Cut.blank
    . simp
    . simpa [hc] using hall
    . exact hstop
  have hwhole := items_of_cut_blank start hcut
  rw [← List.singleton_append, Position.advance_append] at hwhole
  rw [hcs, ← List.singleton_append, ← List.append_assoc, hwhole]
  cases blanks with
  | nil => rfl
  | cons d ds =>
    rw [items_of_cut_blank _ (Cut.blank (by simp) hall hstop)]

theorem items_skipped {gap rest : List Char} (h : Skipped gap rest) :
    items start (gap ++ rest) = items (start.advance gap) rest := by
  induction h generalizing start with
  | nil => rfl
  | @blank c text _ hc _ ih =>
    rw [List.cons_append, items_blank start hc, ih, ← Position.advance_append]
    rfl
  | @comment body text after hbody hend _ ih =>
    have hcut : Cut .blank ('/' :: '/' :: body) (text ++ after) := .comment hbody hend
    have hcomment := items_of_cut_blank start hcut
    rw [ih, ← Position.advance_append] at hcomment
    simpa using hcomment

end

inductive IsLayout : List Char → Prop where
  | nil : IsLayout []
  | blank {c : Char} {text : List Char} (hc : isBlank c) (h : IsLayout text) : IsLayout (c :: text)
  | comment {body text : List Char} (hbody : '\n' ∉ body) (h : IsLayout text) :
    IsLayout ('/' :: '/' :: (body ++ '\n' :: text))

theorem IsLayout.skipped {text : List Char} (h : IsLayout text) (after : List Char) :
    Skipped text after := by
  induction h with
  | nil => exact .nil
  | blank hc _ ih => exact .blank hc ih
  | comment hbody _ ih => exact .comment hbody (by simp) (.blank rfl ih)

end Scan

structure Separator where
  text : String
  begins : text.toList.head?.any isBlank
  layout : IsLayout text.toList

def spread (sep : Nat → Separator) : List String → String
  | [] => (sep 0).text
  | lexeme :: lexemes => (sep 0).text ++ (lexeme ++ spread (fun i => sep (i + 1)) lexemes)

def layOut (sep : Nat → Separator) (tokens : List Token) : String :=
  spread sep (tokens.dropLast.map Token.lexeme)

theorem spread_begins (sep : Nat → Separator) (lexemes : List String) :
    ∀ c ∈ (spread sep lexemes).toList.head?, isBlank c := by
  have hbegins := (sep 0).begins
  have htext : ∃ more, (spread sep lexemes).toList = (sep 0).text.toList ++ more := by
    cases lexemes with
    | nil => exact ⟨[], by simp [spread]⟩
    | cons lexeme lexemes => exact ⟨_, by rw [spread, String.toList_append]⟩
  rcases htext with ⟨more, htext⟩
  rw [htext]
  cases hsep : (sep 0).text.toList with
  | nil => simp [hsep] at hbegins
  | cons c cs => simpa [hsep] using hbegins

def Token.Lone (t : Token) : Prop :=
  ∀ rest : List Char, (∀ c ∈ rest.head?, isBlank c) → Cut (.token t.kind) t.lexeme.toList rest

structure Token.Same (t t' : Token) : Prop where
  kind : t.kind = t'.kind
  lexeme : t.lexeme = t'.lexeme

namespace Scan

section

variable {start : Position} {cs : List Char}

theorem isLetter_of_errorless (h : (items start cs).filterMap Item.error? = []) :
    ∀ c ∈ cs.head?, isCyrillic c → isLetter c := by
  intro c hc hcyrillic
  by_contra hletter
  rw [Bool.not_eq_true] at hletter
  rcases List.head?_eq_some_iff.1 hc with ⟨cs, rfl⟩
  rw [← List.singleton_append, items_of_cut (cut_of_isCyrillic hcyrillic hletter cs)] at h
  contradiction

theorem lone_of_errorless (h : (items start cs).filterMap Item.error? = []) :
    ∀ t ∈ (items start cs).filterMap Item.token?, t.Lone := by
  induction cs using cut_induction generalizing start with
  | nil => simp
  | @cut role text rest hcut ih =>
    cases role with
    | blank =>
      rw [items_of_cut_blank start hcut] at h ⊢
      exact ih h
    | error cause =>
      rw [items_of_cut hcut] at h
      contradiction
    | token kind =>
      rw [items_of_cut hcut] at h ⊢
      -- Nothing behind the token is an error, so no stray character ends it.
      have hrest : (items (start.advance text) rest).filterMap Item.error? = [] := h
      intro t ht
      rcases List.mem_cons.1 ht with rfl | ht
      . intro rest' hblank
        rw [String.toList_ofList]
        exact hcut.before_blank (isLetter_of_errorless hrest) hblank
      . exact ih hrest t ht

end

theorem items_spread {tokens : List Token} (h : ∀ t ∈ tokens, t.Lone) (sep : Nat → Separator)
    (start : Position) :
    ∃ tokens', items start (spread sep (tokens.map Token.lexeme)).toList = tokens'.map .token
      ∧ List.Forall₂ Token.Same tokens tokens' := by
  induction tokens generalizing sep start with
  | nil =>
    refine ⟨[], ?_, .nil⟩
    have hskip := items_skipped start ((sep 0).layout.skipped [])
    simpa [spread] using hskip
  | cons t tokens ih =>
    rw [List.forall_mem_cons] at h
    let here := start.advance (sep 0).text.toList
    have hcut := h.1 _ (spread_begins (fun i => sep (i + 1)) (tokens.map Token.lexeme))
    rcases ih h.2 (fun i => sep (i + 1)) (here.advance t.lexeme.toList)
      with ⟨tokens', hitems, hsame⟩
    refine ⟨⟨t.kind, t.lexeme, Piece.span ⟨.token t.kind, t.lexeme.toList, here⟩, here.line⟩
      :: tokens', ?_, .cons ⟨rfl, rfl⟩ hsame⟩
    rw [List.map_cons, spread, String.toList_append, String.toList_append]
    rw [items_skipped start ((sep 0).layout.skipped _)]
    rw [items_of_cut hcut, hitems]
    simp [Piece.item?, here]

end Scan

theorem Item.filterMap_token?_map (tokens : List Token) :
    (tokens.map Item.token).filterMap Item.token? = tokens := by
  simp [List.filterMap_map, Item.token?, Function.comp_def]

theorem Item.filterMap_error?_map (tokens : List Token) :
    (tokens.map Item.token).filterMap Item.error? = [] := by
  simp [List.filterMap_map, Item.error?, Function.comp_def]

section

variable {source : String} {tokens : List Token}

theorem lone_of_tokenize_eq_ok (h : tokenize source = .ok tokens) :
    tokens = tokens.dropLast ++ [Token.endOf source] ∧ ∀ t ∈ tokens.dropLast, t.Lone := by
  rcases tokenize_eq_ok_iff.1 h with ⟨herrors, rfl⟩
  rw [scan_errors] at herrors
  rw [scan_tokens, List.dropLast_concat]
  exact ⟨rfl, lone_of_errorless herrors⟩

theorem tokenize_layOut (h : tokenize source = .ok tokens) (sep : Nat → Separator) :
    ∃ front, List.Forall₂ Token.Same tokens.dropLast front
      ∧ tokenize (layOut sep tokens) = .ok (front ++ [Token.endOf (layOut sep tokens)]) := by
  rcases lone_of_tokenize_eq_ok h with ⟨-, hlone⟩
  rcases items_spread hlone sep .start with ⟨front, hitems, hsame⟩
  refine ⟨front, hsame, ?_⟩
  rw [tokenize_eq_ok_iff, layOut, scan_errors, scan_tokens, hitems]
  rw [Item.filterMap_error?_map, Item.filterMap_token?_map]
  exact ⟨rfl, rfl⟩

end

def Kind.ofLexeme (lexeme : String) : Kind :=
  match lexeme.toList with
  | [] => .eof
  | c :: cs =>
    match (munch c cs).role with
    | .token kind => kind
    | _ => .eof

theorem Keyword.contains_letters (k : Keyword) : Family.word.Contains k.letters := by
  cases k <;> exact ⟨_, _, rfl, by decide, List.all_eq_true.1 (by decide)⟩

namespace Token.Lone

variable {t : Token}

theorem kind_eq (h : t.Lone) : t.kind = Kind.ofLexeme t.lexeme := by
  have hcut := h [] (by simp)
  unfold Kind.ofLexeme
  cases hlexeme : t.lexeme.toList with
  | nil => exact absurd hlexeme hcut.text_ne_nil
  | cons c cs =>
    rw [hlexeme] at hcut
    dsimp only
    rw [munch_of_cut hcut (by simp)]

theorem kind_eq_keyword_iff (h : t.Lone) (k : Keyword) :
    t.kind = .keyword k ↔ t.lexeme = k.text := by
  have hcut := h [] (by simp)
  rcases hcut.exists_family with ⟨f, hf, hgives, -⟩
  have hword : t.lexeme.toList = k.letters → f = .word := by
    intro hletters
    rw [hletters] at hf
    exact Family.eq_of_isPrefix hf k.contains_letters List.prefix_rfl List.prefix_rfl
  rw [Keyword.text, ← String.toList_inj, String.toList_ofList]
  cases f with
  | word =>
    rw [Family.Gives, if_neg (by simp)] at hgives
    exact hgives.1 k
  | symbol =>
    rcases hgives with ⟨s, -, hkind⟩
    exact iff_of_false (by simp [hkind]) (by simpa using hword)
  | number =>
    have hkind : t.kind = .number _ := hgives
    exact iff_of_false (by simp [hkind]) (by simpa using hword)
  | string =>
    rcases hgives with ⟨contents, -, hkind⟩
    exact iff_of_false (by simp [hkind]) (by simpa using hword)

end Token.Lone

section

variable {source : String} {tokens : List Token}

theorem kind_of_tokenize_eq_ok (h : tokenize source = .ok tokens) :
    ∀ t ∈ tokens, t.kind = Kind.ofLexeme t.lexeme
      ∧ ∀ k : Keyword, t.kind = .keyword k ↔ t.lexeme = k.text := by
  rcases lone_of_tokenize_eq_ok h with ⟨htokens, hlone⟩
  intro t ht
  rw [htokens, List.mem_append, List.mem_singleton] at ht
  rcases ht with ht | rfl
  . exact ⟨(hlone t ht).kind_eq, (hlone t ht).kind_eq_keyword_iff⟩
  . refine ⟨rfl, ?_⟩
    intro k
    have hkind : (Token.endOf source).kind ≠ .keyword k := by simp [Token.endOf]
    have hlexeme : "" ≠ k.text := by
      cases k <;> decide
    exact iff_of_false hkind hlexeme

def AtSameIndex (tokens tokens' : List Token) (t t' : Token) : Prop :=
  ∃ i : Nat, tokens[i]? = some t ∧ tokens'[i]? = some t'

section

variable {tokens' : List Token}

theorem forall₂_atSameIndex (h : tokens.length = tokens'.length) :
    List.Forall₂ (AtSameIndex tokens tokens') tokens tokens' := by
  rw [List.forall₂_iff_get]
  refine ⟨h, ?_⟩
  intro i hi hi'
  exact ⟨i, by simp, by simp⟩

theorem AtSameIndex.of_forall₂ {S : Token → Token → Prop} (h : List.Forall₂ S tokens tokens')
    {t t' : Token} (ht : AtSameIndex tokens tokens' t t') : S t t' := by
  rcases ht with ⟨i, hi, hi'⟩
  rcases List.getElem?_eq_some_iff.1 hi with ⟨hlt, rfl⟩
  rcases List.getElem?_eq_some_iff.1 hi' with ⟨hlt', rfl⟩
  exact h.get hlt hlt'

end

/--
A source that has tokens can be laid out anew. It keeps the kinds and lexemes of its tokens, and so
it keeps its value, or its failure at the same token. Its lexemes alone decide on the kinds.
-/
theorem run_layOut_agrees (h : tokenize source = .ok tokens) (sep : Nat → Separator) :
    tokens.getLast? = some (Token.endOf source)
      ∧
    (∃ front, List.Forall₂ Token.Same tokens.dropLast front
      ∧ tokenize (layOut sep tokens) = .ok (front ++ [Token.endOf (layOut sep tokens)])
      ∧ Agree
          (Failure.Paired (AtSameIndex tokens (front ++ [Token.endOf (layOut sep tokens)]))) Eq
          (run source) (run (layOut sep tokens)))
      ∧
    ∀ t ∈ tokens, t.kind = Kind.ofLexeme t.lexeme
      ∧ ∀ k : Keyword, t.kind = .keyword k ↔ t.lexeme = k.text := by
  have htokens := (lone_of_tokenize_eq_ok h).1
  refine ⟨?_, ?_, kind_of_tokenize_eq_ok h⟩
  . rw [htokens, List.getLast?_concat]
  rcases tokenize_layOut h sep with ⟨front, hfront, hspread⟩
  refine ⟨front, hfront, hspread, ?_⟩
  generalize layOut sep tokens = text at hspread ⊢
  have hsame : List.Forall₂ Token.Same tokens (front ++ [Token.endOf text]) := by
    rw [htokens]
    exact List.rel_append hfront (.cons ⟨rfl, rfl⟩ .nil)
  rw [run_of_tokenize_eq_ok h, run_of_tokenize_eq_ok hspread]
  apply runTokens_paired
  . intro t t' ht
    exact (ht.of_forall₂ hsame).kind
  . exact forall₂_atSameIndex hsame.length_eq
  . refine ⟨Token.endOf source, ?_, rfl⟩
    rw [htokens]
    simp

end

def commentedBreak : Separator where
  text := "\n//-\"\n\t"
  begins := by decide
  layout := .blank rfl (@IsLayout.comment ['-', '"'] ['\t'] (by decide) (.blank rfl .nil))

def tightSource : String := "-\"а\"+істина"

def tightTokens : List Token :=
  [⟨.symbol .minus, "-", ⟨0, 1⟩, 1⟩, ⟨.string "а", "\"а\"", ⟨1, 5⟩, 1⟩,
    ⟨.symbol .plus, "+", ⟨5, 6⟩, 1⟩, ⟨.keyword .truth, "істина", ⟨6, 18⟩, 1⟩,
    ⟨.eof, "", ⟨18, 18⟩, 1⟩]

theorem tokenize_tightSource : tokenize tightSource = .ok tightTokens := by
  with_unfolding_all rfl

theorem run_tightSource :
    run tightSource =
      .error (.evaluation ⟨.operandNotNumber, ⟨.symbol .minus, "-", ⟨0, 1⟩, 1⟩⟩) := by
  with_unfolding_all rfl

theorem run_layOut_agrees_tightSource :
    tokenize tightSource = .ok tightTokens
      ∧ ∃ front e,
        tokenize (layOut (fun _ => commentedBreak) tightTokens) =
            .ok (front ++ [Token.endOf (layOut (fun _ => commentedBreak) tightTokens)])
          ∧ List.Forall₂ Token.Same tightTokens.dropLast front
          ∧ run (layOut (fun _ => commentedBreak) tightTokens) = .error (.evaluation e)
          ∧ e.cause = .operandNotNumber ∧ e.token.kind = .symbol .minus := by
  rcases run_layOut_agrees tokenize_tightSource fun _ => commentedBreak
    with ⟨-, ⟨front, hsame, htokens, hagree⟩, -⟩
  rw [run_tightSource] at hagree
  refine ⟨tokenize_tightSource, front, ?_⟩
  generalize layOut (fun _ => commentedBreak) tightTokens = text at htokens hagree ⊢
  generalize run text = result at hagree ⊢
  cases hagree with
  | error hpaired =>
    cases hpaired with
    | @evaluation _ e hpaired =>
      refine ⟨e, htokens, hsame, rfl, hpaired.cause.symm, ?_⟩
      have hwhole : List.Forall₂ Token.Same tightTokens (front ++ [Token.endOf text]) :=
        List.rel_append hsame (.cons ⟨rfl, rfl⟩ .nil)
      exact (hpaired.token.of_forall₂ hwhole).kind.symm

end Vyraz
