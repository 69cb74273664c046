import Vyraz.Proofs.Concat
import Vyraz.Proofs.Lexeme
import Vyraz.Prompt.Completion

namespace Vyraz

open Scan

theorem Keyword.isLetter_of_mem {k : Keyword} {c : Char} (h : c ∈ k.letters) : isLetter c := by
  have hall : all.all fun k => k.letters.all isLetter := by decide
  exact List.all_eq_true.1 (List.all_eq_true.1 hall k (mem_all k)) c h

def Kind.isWord : Kind → Bool
  | identifier => true
  | keyword _ => true
  | _ => false

theorem Kind.isWord_of_isKeyword {kind : Kind} (h : kind.isKeyword) : kind.isWord := by
  cases kind with
  | keyword => rfl
  | _ => contradiction

theorem wordKind_isWord (word rest : List Char) : (wordKind word rest).isWord := by
  unfold wordKind
  split
  . split <;> rfl
  . split <;> rfl

namespace Scan

section

variable {role : Role} {text rest more : List Char}

theorem Cut.contains_of_isWord {kind : Kind} (h : Cut (.token kind) text rest)
    (hkind : kind.isWord) : Family.word.Contains text := by
  cases h with
  | word hc hcs => exact ⟨_, _, rfl, hc, hcs⟩
  | _ => contradiction

theorem cut_of_word {word : List Char} (h : Family.word.Contains word) :
    Cut (.token (wordKind word [])) word [] := by
  rcases h with ⟨c, cs, rfl, hc, hcs⟩
  exact .word hc hcs (by simp)

theorem word_append (h : Family.word.Contains text) (hmore : ∀ c ∈ more, isLetter c) :
    Family.word.Contains (text ++ more) := by
  rcases h with ⟨c, cs, rfl, hc, hcs⟩
  refine ⟨c, cs ++ more, rfl, hc, ?_⟩
  intro d hd
  rcases List.mem_append.1 hd with hd | hd
  . exact hcs d hd
  . simp [isWordPart, hmore d hd]

theorem isDigit_eq_false_of_isLetter {c : Char} (h : isLetter c) : c.isDigit = false := by
  rw [← Bool.not_eq_true]
  intro hdigit
  rw [isLetter_eq_false_of_isDigit hdigit] at h
  contradiction

theorem Cut.extended (h : Cut role text rest) (hrest : rest ≠ [])
    (hmore : ∀ c ∈ more, isLetter c) : Cut role text (rest ++ more) := by
  rcases List.exists_cons_of_ne_nil hrest with ⟨c, cs, rfl⟩
  cases h with
  | blank hne hall hstop => exact .blank hne hall hstop
  | comment hbody hstop => exact .comment hbody hstop
  | string hcontents => exact .string hcontents
  | @word d ds _ hd hds hstop =>
    have hkind : wordKind (d :: ds) (c :: cs) = wordKind (d :: ds) (c :: cs ++ more) := rfl
    rw [hkind]
    exact .word hd hds hstop
  | number hwhole hstop hpoint =>
    -- Only a number looks further than one character, for a digit behind a point.
    refine .number hwhole hstop ?_
    intro d ds hds
    cases cs with
    | nil =>
      cases hds
      exact isDigit_eq_false_of_isLetter (hmore d List.mem_cons_self)
    | cons c' cs =>
      cases hds
      exact hpoint d cs rfl
  | fraction hwhole hdigits hstop => exact .fraction hwhole hdigits hstop
  | symbol hstop hslash => exact .symbol hstop hslash
  | stray hblank hquote hletter hdigit hsymbol =>
    exact .stray hblank hquote hletter hdigit hsymbol

end

inductive Front (rest : List Char) : Position → List Char → List Piece → Prop where
  | nil {start : Position} : Front rest start [] []
  | cut {start : Position} {role : Role} {text front : List Char} {ps : List Piece}
    (hcut : Cut role text (front ++ rest)) (h : Front rest (start.advance text) front ps) :
    Front rest start (text ++ front) (⟨role, text, start⟩ :: ps)

section

variable {start : Position} {front rest more cs : List Char} {ps qs : List Piece}

theorem Front.pieces_append (h : Front rest start front ps) :
    pieces start (front ++ rest) = ps ++ pieces (start.advance front) rest := by
  induction h with
  | nil => rfl
  | cut hcut _ ih =>
    rw [List.append_assoc, pieces_of_cut hcut, ih, Position.advance_append]
    rfl

theorem Front.extended (h : Front rest start front ps) (hrest : rest ≠ [])
    (hmore : ∀ c ∈ more, isLetter c) : Front (rest ++ more) start front ps := by
  induction h with
  | nil => exact .nil
  | cut hcut _ ih =>
    refine .cut ?_ ih
    rw [← List.append_assoc]
    exact hcut.extended (by simp [hrest]) hmore

theorem exists_cut_of_pieces_eq_cons {p : Piece} (h : pieces start cs = p :: qs) :
    ∃ rest, cs = p.text ++ rest ∧ Cut p.role p.text rest ∧ p.start = start
      ∧ qs = pieces (start.advance p.text) rest := by
  cases cs with
  | nil => simp at h
  | cons c cs =>
    rw [pieces_cons, List.cons.injEq] at h
    rcases h with ⟨rfl, rfl⟩
    exact ⟨_, (munch_text_append_rest c cs).symm, cut_munch c cs, rfl, rfl⟩

theorem exists_front_of_pieces_eq_append (h : pieces start cs = ps ++ qs) :
    ∃ front rest, cs = front ++ rest ∧ Front rest start front ps
      ∧ qs = pieces (start.advance front) rest := by
  induction ps generalizing start cs with
  | nil => exact ⟨[], cs, rfl, .nil, h.symm⟩
  | cons p ps ih =>
    rcases exists_cut_of_pieces_eq_cons h with ⟨rest, rfl, hcut, rfl, hrest⟩
    rcases ih hrest.symm with ⟨front, rest, rfl, hfront, hqs⟩
    refine ⟨p.text ++ front, rest, ?_, .cut hcut hfront, ?_⟩
    . rw [List.append_assoc]
    . rw [Position.advance_append]
      assumption

theorem eq_nil_of_reaches_end {p : Piece} (h : pieces start cs = ps ++ p :: qs)
    (hstop : p.span.stop = start.offset + Text.size cs) : qs = [] := by
  rcases exists_front_of_pieces_eq_append h with ⟨front, behind, rfl, -, hbehind⟩
  rcases exists_cut_of_pieces_eq_cons hbehind.symm with ⟨rest, rfl, -, hstart, hrest⟩
  have hnil : rest = [] := by
    by_contra hne
    have := Text.size_pos_of_ne_nil hne
    simp only [Piece.span, hstart, Position.advance, Text.size_append] at hstop
    omega
  rw [hrest, hnil, pieces_nil]

end

structure EndsIn (word cs front : List Char) (ps : List Piece) : Prop where
  split : cs = front ++ word
  cutFront : Front word .start front ps
  isWord : Family.word.Contains word

namespace EndsIn

variable {word cs front more : List Char} {ps : List Piece}

theorem word_ne_nil (h : EndsIn word cs front ps) : word ≠ [] := by
  rcases h.isWord with ⟨c, cs, rfl, -, -⟩
  simp

theorem pieces_eq (h : EndsIn word cs front ps) :
    pieces .start cs =
      ps ++ [⟨.token (wordKind word []), word, Position.start.advance front⟩] := by
  have hlast := pieces_of_cut (cut_of_word h.isWord) (Position.start.advance front)
  rw [List.append_nil, pieces_nil] at hlast
  rw [h.split, h.cutFront.pieces_append, hlast]

theorem extended (h : EndsIn word cs front ps) (hmore : ∀ c ∈ more, isLetter c) :
    EndsIn (word ++ more) (cs ++ more) front ps where
  split := by rw [h.split, List.append_assoc]
  cutFront := h.cutFront.extended h.word_ne_nil hmore
  isWord := word_append h.isWord hmore

end EndsIn

theorem exists_endsIn_of_pieces_eq {cs word : List Char} {ps : List Piece} {kind : Kind}
    {here : Position} (h : pieces .start cs = ps ++ [⟨.token kind, word, here⟩])
    (hkind : kind.isWord) : ∃ front, EndsIn word cs front ps := by
  rcases exists_front_of_pieces_eq_append h with ⟨front, rest, rfl, hfront, hlast⟩
  rcases exists_cut_of_pieces_eq_cons hlast.symm with ⟨rest, rfl, hcut, -, hrest⟩
  have hnil : rest = [] := by
    have := pieces_flatMap_text (Position.advance (Position.start.advance front) word) rest
    rwa [← hrest, List.flatMap_nil, eq_comm] at this
  subst hnil
  rw [List.append_nil] at *
  exact ⟨front, rfl, hfront, hcut.contains_of_isWord hkind⟩

end Scan

namespace Prompt

theorem lastWord?_eq_some_iff {cs word : List Char} :
    lastWord? cs = some word ↔ ∃ front ps, EndsIn word cs front ps := by
  constructor
  . intro h
    have hlast : ∃ kind here, (pieces .start cs).getLast? = some ⟨.token kind, word, here⟩
        ∧ kind.isWord := by
      unfold lastWord? at h
      split at h
      . next hlast =>
        cases h
        exact ⟨_, _, hlast, rfl⟩
      . next hlast =>
        cases h
        exact ⟨_, _, hlast, rfl⟩
      . contradiction
    rcases hlast with ⟨kind, here, hlast, hkind⟩
    rcases List.getLast?_eq_some_iff.1 hlast with ⟨ps, hps⟩
    rcases exists_endsIn_of_pieces_eq hps hkind with ⟨front, hends⟩
    exact ⟨front, ps, hends⟩
  . rintro ⟨front, ps, hends⟩
    unfold lastWord?
    rw [hends.pieces_eq, List.getLast?_concat]
    have hword := wordKind_isWord word []
    cases hkind : wordKind word [] with
    | identifier | keyword => rfl
    | _ =>
      rw [hkind] at hword
      contradiction

theorem remainder?_eq_some_iff {word c : List Char} {k : Keyword} :
    remainder? word k = some c ↔ c ≠ [] ∧ word ++ c = k.letters := by
  unfold remainder?
  constructor
  . intro h
    split at h
    . next hcut =>
      simp only [Bool.and_eq_true, List.isPrefixOf_iff_prefix, decide_eq_true_eq] at hcut
      rcases hcut with ⟨⟨more, hmore⟩, hlt⟩
      rw [← hmore, List.drop_left, Option.some.injEq] at h
      subst h
      refine ⟨?_, hmore⟩
      rintro rfl
      rw [← hmore, List.append_nil] at hlt
      exact Nat.lt_irrefl _ hlt
    . contradiction
  . rintro ⟨hne, hletters⟩
    have := List.length_pos_iff.2 hne
    rw [← hletters, if_pos, List.drop_left]
    simp [this]

section

variable {cs word front : List Char} {ps : List Piece}

theorem mem_completions_iff (h : EndsIn word cs front ps) {c : List Char} :
    c ∈ completions cs ↔ c ≠ [] ∧ ∃ k : Keyword, word ++ c = k.letters := by
  rw [completions, lastWord?_eq_some_iff.2 ⟨front, ps, h⟩]
  simp only [List.mem_filterMap, remainder?_eq_some_iff]
  constructor
  . rintro ⟨k, -, hne, hletters⟩
    exact ⟨hne, k, hletters⟩
  . rintro ⟨hne, k, hletters⟩
    exact ⟨k, k.mem_all, hne, hletters⟩

theorem completions_map_sublist (h : EndsIn word cs front ps) :
    ((completions cs).map (word ++ ·)).Sublist (Keyword.all.map Keyword.letters) := by
  rw [completions, lastWord?_eq_some_iff.2 ⟨front, ps, h⟩]
  dsimp only
  induction Keyword.all with
  | nil => simp
  | cons k ks ih =>
    rw [List.map_cons, List.filterMap_cons]
    cases hk : remainder? word k with
    | none => exact ih.cons _
    | some c =>
      rw [← (remainder?_eq_some_iff.1 hk).2]
      exact ih.cons_cons _

theorem completions_nodup (h : EndsIn word cs front ps) : (completions cs).Nodup := by
  have hall : (Keyword.all.map Keyword.letters).Nodup := by decide
  exact ((completions_map_sublist h).nodup hall).of_map

end

end Prompt

structure Token.AtEnd (t : Token) (source : String) : Prop where
  mem : t ∈ (scan source).tokens
  stop : t.span.stop = source.utf8ByteSize

def Token.ofWord (front word : List Char) : Token :=
  ⟨wordKind word [], String.ofList word, ⟨Text.size front, Text.size front + Text.size word⟩,
    1 + front.count '\n'⟩

theorem Scan.token?_ofWord (front word : List Char) :
    Piece.token? ⟨.token (wordKind word []), word, Position.start.advance front⟩ =
      some (Token.ofWord front word) := by
  simp only [Piece.token?, Piece.span, Position.offset_advance_start, Position.line_advance_start,
    Token.ofWord]

namespace Scan.EndsIn

variable {word front : List Char} {ps : List Piece} {source : String}

theorem scan_tokens (h : EndsIn word source.toList front ps) :
    (scan source).tokens =
      ps.filterMap Piece.token? ++ [Token.ofWord front word, Token.endOf source] := by
  unfold scan
  rw [h.pieces_eq]
  simp [token?_ofWord]

theorem scan_errors (h : EndsIn word source.toList front ps) :
    (scan source).errors = ps.filterMap Piece.error? := by
  unfold scan
  rw [h.pieces_eq]
  simp [Piece.error?]

end Scan.EndsIn

theorem exists_endsIn_of_atEnd {t : Token} {source : String} (h : t.AtEnd source)
    (hword : t.kind.isWord) :
    ∃ word front ps, EndsIn word source.toList front ps ∧ t = Token.ofWord front word := by
  have hmem := h.mem
  simp only [scan, List.mem_append, List.mem_singleton, List.mem_filterMap] at hmem
  rcases hmem with ⟨⟨role, text, here⟩, hp, ht⟩ | rfl
  . cases role with
    | token kind =>
      cases ht
      rcases List.append_of_mem hp with ⟨ps, qs, hpieces⟩
      have hqs : qs = [] := by
        apply eq_nil_of_reaches_end hpieces
        rw [Text.size_toList, ← h.stop]
        simp [Position.start]
      rw [hqs] at hpieces
      rcases exists_endsIn_of_pieces_eq hpieces hword with ⟨front, hends⟩
      refine ⟨text, front, ps, hends, ?_⟩
      have hlast := hends.pieces_eq
      rw [hpieces, List.append_cancel_left_eq, List.singleton_inj] at hlast
      rw [← Option.some.injEq, ← token?_ofWord, ← hlast]
      rfl
    | _ => contradiction
  . contradiction

/-- A text behind a source makes the word at its end a keyword, and changes nothing else. -/
structure Completes (before c : String) (front : List Token) (word : Token) (k : Keyword) :
    Prop where
  tokens : (scan before).tokens = front ++ [word, Token.endOf before]
  isWord : word.kind.isWord
  stop : word.span.stop = before.utf8ByteSize
  spelled : word.lexeme ++ c = k.text
  tokens_behind : (scan (before ++ c)).tokens =
    front ++ [⟨.keyword k, k.text, ⟨word.span.start, (before ++ c).utf8ByteSize⟩, word.line⟩,
      (Token.endOf before).moved ⟨c.utf8ByteSize, 0⟩]
  errors_behind : (scan (before ++ c)).errors = (scan before).errors

theorem ofWord_letters (front : List Char) (k : Keyword) :
    Token.ofWord front k.letters =
      ⟨.keyword k, k.text, ⟨Text.size front, Text.size (front ++ k.letters)⟩,
        1 + front.count '\n'⟩ := by
  have hkind : wordKind k.letters [] = .keyword k := (wordKind_eq_keyword_iff rfl).2 rfl
  rw [Token.ofWord, hkind, Text.size_append]
  rfl

theorem endOf_append_line {c : String} (hc : '\n' ∉ c.toList) (before : String) :
    Token.endOf (before ++ c) = (Token.endOf before).moved ⟨c.utf8ByteSize, 0⟩ := by
  simp only [Token.endOf, Token.moved, Span.moved, String.toList_append, Position.advance_append]
  simp [Position.advance, List.count_eq_zero_of_not_mem hc, Text.size_toList]

section

variable {before c : String} {word front : List Char} {ps : List Piece} {k : Keyword}

theorem completes_of_endsIn (h : EndsIn word before.toList front ps)
    (hletters : word ++ c.toList = k.letters) :
    Completes before c (ps.filterMap Piece.token?) (Token.ofWord front word) k := by
  have hmore : ∀ d ∈ c.toList, isLetter d := by
    intro d hd
    apply k.isLetter_of_mem
    rw [← hletters]
    exact List.mem_append_right _ hd
  have hline : '\n' ∉ c.toList := by
    intro hc
    have := hmore _ hc
    contradiction
  have hlonger : EndsIn k.letters (before ++ c).toList front ps := by
    rw [String.toList_append, ← hletters]
    exact h.extended hmore
  constructor
  . exact h.scan_tokens
  . exact wordKind_isWord word []
  . rw [← Text.size_toList, h.split, Text.size_append]
    rfl
  . rw [← String.toList_inj, String.toList_append, Keyword.text, String.toList_ofList, ← hletters,
      Token.ofWord, String.toList_ofList]
  . rw [hlonger.scan_tokens, ofWord_letters, ← hlonger.split, Text.size_toList,
      endOf_append_line hline]
    rfl
  . rw [hlonger.scan_errors, h.scan_errors]

theorem word_append_of_start {word' front' : List Char} {ps' : List Piece}
    (h : EndsIn word before.toList front ps) (h' : EndsIn word' (before ++ c).toList front' ps')
    (hstart : Text.size front' = Text.size front) : word ++ c.toList = word' := by
  have hsplit := h'.split
  rw [String.toList_append, h.split, List.append_assoc] at hsplit
  have hcut := Text.splitAt?_size_append front (word ++ c.toList)
  rw [hsplit, ← hstart, Text.splitAt?_size_append] at hcut
  cases hcut
  rfl

theorem exists_letters_of_isKeyword {word front : List Char}
    (h : (Token.ofWord front word).kind.isKeyword) : ∃ k : Keyword, word = k.letters := by
  cases hkind : wordKind word [] with
  | keyword k => exact ⟨k, (wordKind_eq_keyword_iff rfl).1 hkind⟩
  | _ =>
    rw [Token.ofWord, hkind] at h
    contradiction

theorem count_completions {t u : Token} (hc : c ≠ "") (ht : t.AtEnd before) (hword : t.kind.isWord)
    (hu : u.AtEnd (before ++ c)) (hkeyword : u.kind.isKeyword)
    (hstart : u.span.start = t.span.start) :
    (Prompt.completions before.toList).count c.toList = 1 := by
  rcases exists_endsIn_of_atEnd ht hword with ⟨word, front, ps, hends, rfl⟩
  have hword' := Kind.isWord_of_isKeyword hkeyword
  rcases exists_endsIn_of_atEnd hu hword' with ⟨word', front', ps', hends', rfl⟩
  rcases exists_letters_of_isKeyword hkeyword with ⟨k, hk⟩
  have happend := word_append_of_start hends hends' hstart
  apply List.count_eq_one_of_mem (Prompt.completions_nodup hends)
  rw [Prompt.mem_completions_iff hends]
  refine ⟨by simpa using hc, k, ?_⟩
  rw [happend, hk]

end

/--
The completions of a text are right: each one makes a keyword of the word at its end and changes
nothing else in its scan. They are all: whatever makes a keyword of that word is among them, once,
and they are in the order of keywords.
-/
theorem completions_exact (before : String) :
    (∀ c : String, c.toList ∈ Prompt.completions before.toList →
      ∃ front word k, Completes before c front word k)
      ∧
    (∀ (c : String) (t u : Token), c ≠ "" → t.AtEnd before → t.kind.isWord →
      u.AtEnd (before ++ c) → u.kind.isKeyword → u.span.start = t.span.start →
      (Prompt.completions before.toList).count c.toList = 1)
      ∧
    (∀ t : Token, t.AtEnd before → t.kind.isWord →
      ((Prompt.completions before.toList).map (t.lexeme.toList ++ ·)).Sublist
        (Keyword.all.map Keyword.letters)) := by
  refine ⟨?_, ?_, ?_⟩
  . intro c hc
    cases hlast : Prompt.lastWord? before.toList with
    | none => simp [Prompt.completions, hlast] at hc
    | some word =>
      rcases Prompt.lastWord?_eq_some_iff.1 hlast with ⟨front, ps, hends⟩
      rcases (Prompt.mem_completions_iff hends).1 hc with ⟨-, k, hletters⟩
      exact ⟨_, _, k, completes_of_endsIn hends hletters⟩
  . intro c t u
    exact count_completions
  . intro t ht hword
    rcases exists_endsIn_of_atEnd ht hword with ⟨word, front, ps, hends, rfl⟩
    rw [Token.ofWord, String.toList_ofList]
    exact Prompt.completions_map_sublist hends

def conjunctionText : String := "@\n!і"

theorem scan_conjunctionText_tokens :
    (scan conjunctionText).tokens =
      [⟨.symbol .bang, "!", ⟨2, 3⟩, 2⟩, ⟨.keyword .conjunction, "і", ⟨3, 5⟩, 2⟩,
        ⟨.eof, "", ⟨5, 5⟩, 2⟩] := by
  with_unfolding_all rfl

theorem scan_conjunctionText_truth_tokens :
    (scan (conjunctionText ++ "стина")).tokens =
      [⟨.symbol .bang, "!", ⟨2, 3⟩, 2⟩, ⟨.keyword .truth, "істина", ⟨3, 15⟩, 2⟩,
        ⟨.eof, "", ⟨15, 15⟩, 2⟩] := by
  with_unfolding_all rfl

theorem completions_conjunctionText :
    Prompt.completions conjunctionText.toList = ["накше".toList, "стина".toList] := by
  decide +kernel

theorem completions_exact_conjunctionText :
    Prompt.completions conjunctionText.toList = ["накше".toList, "стина".toList]
      ∧ (∃ front word k, Completes conjunctionText "накше" front word k)
      ∧ (Prompt.completions conjunctionText.toList).count "стина".toList = 1
      ∧ ((Prompt.completions conjunctionText.toList).map (['і'] ++ ·)).Sublist
        (Keyword.all.map Keyword.letters) := by
  have hword : Token.AtEnd ⟨.keyword .conjunction, "і", ⟨3, 5⟩, 2⟩ conjunctionText := by
    refine ⟨?_, by decide⟩
    rw [scan_conjunctionText_tokens]
    simp
  have hkeyword :
      Token.AtEnd ⟨.keyword .truth, "істина", ⟨3, 15⟩, 2⟩ (conjunctionText ++ "стина") := by
    refine ⟨?_, by decide⟩
    rw [scan_conjunctionText_truth_tokens]
    simp
  rcases completions_exact conjunctionText with ⟨hsound, hcomplete, horder⟩
  refine ⟨completions_conjunctionText, ?_, ?_, horder _ hword rfl⟩
  . apply hsound
    rw [completions_conjunctionText]
    simp
  . exact hcomplete _ _ _ (by decide) hword rfl hkeyword rfl rfl

end Vyraz
