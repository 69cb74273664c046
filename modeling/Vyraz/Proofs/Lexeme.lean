import Vyraz.Proofs.Coverage

namespace Vyraz

open Scan

theorem Scan.IsDigits.ne_point {cs : List Char} (h : IsDigits cs) : ∀ c ∈ cs, c != '.' := by
  apply Text.bne_of_notMem
  intro hc
  have := h.2 '.' hc
  contradiction

namespace Decimal

def ofText (text : List Char) : Decimal :=
  ofDigits (text.takeWhile (· != '.')) ((text.dropWhile (· != '.')).drop 1)

theorem ofText_whole {whole : List Char} (h : IsDigits whole) :
    ofText whole = ofDigits whole [] := by
  unfold ofText
  rw [List.takeWhile_eq_self_iff.2 h.ne_point]
  rw [List.dropWhile_eq_nil_iff.2 h.ne_point]
  rfl

theorem ofText_fraction {whole : List Char} (h : IsDigits whole) (digits : List Char) :
    ofText (whole ++ '.' :: digits) = ofDigits whole digits := by
  have hstop : ∀ c ∈ ('.' :: digits).head?, (c != '.') = false := by simp
  unfold ofText
  rw [Text.takeWhile_append_of_stop h.ne_point hstop]
  rw [Text.dropWhile_append_of_stop h.ne_point hstop]
  rfl

end Decimal

inductive Family where
  | symbol
  | word
  | number
  | string
deriving DecidableEq, Repr

namespace Family

def Contains : Family → List Char → Prop
  | symbol, text => ∃ s : Symbol, text = s.chars
  | word, text => ∃ c cs, text = c :: cs ∧ isLetter c ∧ ∀ d ∈ cs, isWordPart d
  | number, text =>
    IsDigits text ∨ ∃ whole digits, text = whole ++ '.' :: digits ∧ IsDigits whole ∧ IsDigits digits
  | string, text => ∃ contents, text = '"' :: (contents ++ ['"']) ∧ '"' ∉ contents

def Gives (kind : Kind) (text after : List Char) : Family → Prop
  | symbol => ∃ s : Symbol, text = s.chars ∧ kind = .symbol s
  | word =>
    if after.head?.any isCyrillic then
      (kind = .keyword .conjunction
          ↔ text ≠ [] ∧ (text <+: Keyword.alternative.letters ∨ text <+: Keyword.truth.letters))
        ∧ (kind ≠ .keyword .conjunction → kind = .identifier)
    else
      (∀ k : Keyword, kind = .keyword k ↔ text = k.letters)
        ∧ ((∀ k : Keyword, text ≠ k.letters) → kind = .identifier)
  | number => kind = .number (Decimal.ofText text).toFloat
  | string =>
    ∃ contents, text = '"' :: (contents ++ ['"']) ∧ kind = .string (String.ofList contents)

def ofHead (c : Char) : Family :=
  if c = '"' then
    string
  else if isLetter c then
    word
  else if c.isDigit then
    number
  else
    symbol

theorem ofHead_of_isDigit {c : Char} (h : c.isDigit) : ofHead c = number := by
  have := notMem_leaders_of_isDigit h
  simp only [leaders, List.mem_cons, not_or] at this
  simp [ofHead, h, this, isLetter_eq_false_of_isDigit h]

theorem head_of_contains {f : Family} {text : List Char} (h : f.Contains text) :
    ∃ c ∈ text.head?, ofHead c = f := by
  cases f with
  | symbol =>
    rcases h with ⟨s, rfl⟩
    cases s <;> exact ⟨_, rfl, by decide⟩
  | word =>
    rcases h with ⟨c, cs, rfl, hc, -⟩
    refine ⟨c, rfl, ?_⟩
    have := notMem_leaders_of_isLetter hc
    simp only [leaders, List.mem_cons, not_or] at this
    simp [ofHead, hc, this]
  | number =>
    rcases h with ⟨hne, hall⟩ | ⟨whole, digits, rfl, ⟨hne, hall⟩, -⟩
    . rcases List.exists_cons_of_ne_nil hne with ⟨d, ds, rfl⟩
      exact ⟨d, rfl, ofHead_of_isDigit (hall d List.mem_cons_self)⟩
    . rcases List.exists_cons_of_ne_nil hne with ⟨d, ds, rfl⟩
      exact ⟨d, rfl, ofHead_of_isDigit (hall d List.mem_cons_self)⟩
  | string =>
    rcases h with ⟨contents, rfl, -⟩
    exact ⟨'"', rfl, by decide⟩

theorem eq_of_isPrefix {f g : Family} {as bs cs : List Char} (has : f.Contains as)
    (hbs : g.Contains bs) (hle : as <+: cs) (hle' : bs <+: cs) : f = g := by
  rcases head_of_contains has with ⟨a, ha, rfl⟩
  rcases head_of_contains hbs with ⟨b, hb, rfl⟩
  rcases hle with ⟨as', rfl⟩
  rcases hle' with ⟨bs', hcs⟩
  have hhead := congrArg List.head? hcs
  rw [List.head?_append, List.head?_append, Option.mem_def.1 ha, Option.mem_def.1 hb] at hhead
  cases hhead
  rfl

end Family

def IsLexeme (text : List Char) : Prop :=
  ∃ f : Family, f.Contains text

structure Longest (P : List Char → Prop) (found text : List Char) : Prop where
  holds : P found
  isPrefix : found <+: text
  longest : ∀ other, P other → other <+: text → other.length ≤ found.length

namespace Text

variable {p : Char → Bool} {as bs text rest : List Char}

theorem length_le_of_stop (has : ∀ c ∈ as, p c) (hle : as <+: text ++ rest)
    (hstop : ∀ c ∈ rest.head?, p c = false) : as.length ≤ text.length := by
  cases rest with
  | nil =>
    rw [List.append_nil] at hle
    exact hle.length_le
  | cons c rest =>
    by_contra hlt
    have hbeyond : text ++ [c] <+: as := by
      apply List.prefix_of_prefix_length_le _ hle
      . simp only [List.length_append, List.length_singleton]
        omega
      . exact ⟨rest, by simp⟩
    have hc := has c (hbeyond.subset (by simp))
    rw [hstop c rfl] at hc
    contradiction

theorem eq_of_stop (has : ∀ c ∈ as, p c) (hbs : ∀ c ∈ bs, p c)
    (hstop : ∀ c ∈ text.head?, p c = false) (hstop' : ∀ c ∈ rest.head?, p c = false)
    (h : as ++ text = bs ++ rest) : as = bs ∧ text = rest := by
  have htake := congrArg (List.takeWhile p) h
  rw [takeWhile_append_of_stop has hstop, takeWhile_append_of_stop hbs hstop'] at htake
  have hdrop := congrArg (List.dropWhile p) h
  rw [dropWhile_append_of_stop has hstop, dropWhile_append_of_stop hbs hstop'] at hdrop
  exact ⟨htake, hdrop⟩

end Text

theorem Symbol.Stops.length_le {s s' : Symbol} {rest : List Char} (h : s.Stops rest)
    (hle : s'.chars <+: s.chars ++ rest) : s'.chars.length ≤ s.chars.length := by
  rcases chars_cases s with ⟨c, hchars, -⟩ | ⟨c, hchars, -⟩
  . rcases chars_cases s' with ⟨d, hchars', -⟩ | ⟨d, hchars', -⟩
    . simp [hchars, hchars']
    . rw [hchars, hchars'] at hle
      rcases hle with ⟨more, hmore⟩
      simp only [List.cons_append, List.nil_append, List.cons.injEq] at hmore
      rcases hmore with ⟨rfl, rfl⟩
      have := h rfl s'
      rw [hchars, hchars'] at this
      contradiction
  . rcases chars_cases s' with ⟨d, hchars', -⟩ | ⟨d, hchars', -⟩
    . simp [hchars, hchars']
    . simp [hchars, hchars']

theorem Keyword.ofLetters?_eq_some_iff {word : List Char} {k : Keyword} :
    ofLetters? word = some k ↔ word = k.letters := by
  constructor
  . intro h
    exact (letters_of_ofLetters? h).symm
  . rintro rfl
    exact ofLetters?_letters k

section

variable {word rest : List Char}

theorem wordKind_eq_keyword_iff (h : rest.head?.any isCyrillic = false) {k : Keyword} :
    wordKind word rest = .keyword k ↔ word = k.letters := by
  rw [← Keyword.ofLetters?_eq_some_iff]
  unfold wordKind
  rw [if_neg (by simp [h])]
  cases Keyword.ofLetters? word <;> simp

theorem wordKind_eq_identifier (h : rest.head?.any isCyrillic = false)
    (hword : ∀ k : Keyword, word ≠ k.letters) : wordKind word rest = .identifier := by
  unfold wordKind
  rw [if_neg (by simp [h])]
  split
  . next k hk => exact absurd (Keyword.ofLetters?_eq_some_iff.1 hk) (hword k)
  . rfl

end

namespace Family

section

variable {whole digits other rest : List Char}

theorem length_le_of_whole (hwhole : IsDigits whole) (hstop : ∀ d ∈ rest.head?, d.isDigit = false)
    (hpoint : ∀ d cs, rest = '.' :: d :: cs → d.isDigit = false) (hother : number.Contains other)
    (hle : other <+: whole ++ rest) : other.length ≤ whole.length := by
  rcases hother with hdigits | ⟨whole', digits', rfl, hwhole', hdigits'⟩
  . exact Text.length_le_of_stop hdigits.2 hle hstop
  . -- The point of the other number would be behind the same digits, and a digit behind it.
    exfalso
    rcases hle with ⟨more, hmore⟩
    rw [List.append_assoc] at hmore
    rcases Text.eq_of_stop hwhole'.2 hwhole.2 (by simp) hstop hmore with ⟨-, hrest⟩
    rcases List.exists_cons_of_ne_nil hdigits'.1 with ⟨d, ds, rfl⟩
    have := hpoint d (ds ++ more) hrest.symm
    rw [hdigits'.2 d List.mem_cons_self] at this
    contradiction

theorem length_le_of_fraction (hwhole : IsDigits whole)
    (hstop : ∀ d ∈ rest.head?, d.isDigit = false) (hother : number.Contains other)
    (hle : other <+: (whole ++ '.' :: digits) ++ rest) :
    other.length ≤ (whole ++ '.' :: digits).length := by
  have hpoint : ∀ d ∈ ('.' :: (digits ++ rest)).head?, d.isDigit = false := by simp
  rw [List.append_assoc, List.cons_append] at hle
  rcases hother with hdigits | ⟨whole', digits', rfl, hwhole', hdigits'⟩
  . have := Text.length_le_of_stop hdigits.2 hle hpoint
    simp only [List.length_append, List.length_cons]
    omega
  . rcases hle with ⟨more, hmore⟩
    rw [List.append_assoc] at hmore
    rcases Text.eq_of_stop hwhole'.2 hwhole.2 (by simp) hpoint hmore with ⟨rfl, hrest⟩
    have hle : digits' <+: digits ++ rest := ⟨more, by simpa using hrest⟩
    have := Text.length_le_of_stop hdigits'.2 hle hstop
    simp only [List.length_append, List.length_cons]
    omega

theorem eq_of_string {contents : List Char} (hcontents : '"' ∉ contents)
    (hother : string.Contains other) (hle : other <+: '"' :: (contents ++ ['"']) ++ rest) :
    other = '"' :: (contents ++ ['"']) := by
  rcases hother with ⟨contents', rfl, hcontents'⟩
  rcases hle with ⟨more, hmore⟩
  simp only [List.cons_append, List.append_assoc, List.nil_append, List.cons.injEq,
    true_and] at hmore
  have hall := Text.bne_of_notMem hcontents
  have hall' := Text.bne_of_notMem hcontents'
  rcases Text.eq_of_stop hall' hall (by simp) (by simp) hmore with ⟨rfl, -⟩
  rfl

end

theorem gives_wordKind (c : Char) (cs rest : List Char) :
    word.Gives (wordKind (c :: cs) rest) (c :: cs) rest := by
  rw [Gives]
  split
  . next hcyrillic =>
    simp only [wordKind, if_pos hcyrillic, ← List.isPrefixOf_iff_prefix, ← Bool.or_eq_true]
    split
    . next hle => simp [hle]
    . next hle => simp [hle]
  . next hcyrillic =>
    rw [Bool.not_eq_true] at hcyrillic
    refine ⟨?_, wordKind_eq_identifier hcyrillic⟩
    intro k
    exact wordKind_eq_keyword_iff hcyrillic

end Family

namespace Scan.Cut

variable {kind : Kind} {text rest : List Char}

theorem exists_family (h : Cut (.token kind) text rest) :
    ∃ f : Family, f.Contains text ∧ f.Gives kind text rest
      ∧ ∀ other, f.Contains other → other <+: text ++ rest → other.length ≤ text.length := by
  cases h with
  | @string contents _ hcontents =>
    refine ⟨.string, ⟨contents, rfl, hcontents⟩, ⟨contents, rfl, rfl⟩, ?_⟩
    intro other hother hle
    rw [Family.eq_of_string hcontents hother hle]
  | @word c cs _ hc hcs hstop =>
    refine ⟨.word, ⟨c, cs, rfl, hc, hcs⟩, Family.gives_wordKind c cs rest, ?_⟩
    rintro other ⟨d, ds, rfl, hd, hds⟩ hle
    apply Text.length_le_of_stop _ hle hstop
    rw [List.forall_mem_cons]
    refine ⟨?_, hds⟩
    simp [isWordPart, hd]
  | @number whole _ hwhole hstop hpoint =>
    refine ⟨.number, .inl hwhole, ?_, ?_⟩
    . rw [Family.Gives, Decimal.ofText_whole hwhole]
    . intro other hother hle
      exact Family.length_le_of_whole hwhole hstop hpoint hother hle
  | @fraction whole digits _ hwhole hdigits hstop =>
    refine ⟨.number, .inr ⟨whole, digits, rfl, hwhole, hdigits⟩, ?_, ?_⟩
    . rw [Family.Gives, Decimal.ofText_fraction hwhole]
    . intro other hother hle
      exact Family.length_le_of_fraction hwhole hstop hother hle
  | @symbol s _ hstop hslash =>
    refine ⟨.symbol, ⟨s, rfl⟩, ⟨s, rfl, rfl⟩, ?_⟩
    rintro other ⟨s', rfl⟩ hle
    exact hstop.length_le hle

theorem longest (h : Cut (.token kind) text rest) : Longest IsLexeme text (text ++ rest) := by
  rcases h.exists_family with ⟨f, hf, -, hlongest⟩
  refine ⟨⟨f, hf⟩, List.prefix_append text rest, ?_⟩
  rintro other ⟨g, hg⟩ hle
  rcases Family.eq_of_isPrefix hg hf hle (List.prefix_append text rest) with rfl
  exact hlongest other hg hle

theorem not_comment (h : Cut (.token kind) text rest) : ¬['/', '/'] <+: text ++ rest := by
  rintro ⟨more, hmore⟩
  have hmunch : munch '/' ('/' :: more) = ⟨.token kind, text, rest⟩ := munch_of_cut h hmore.symm
  have hblank : (munch '/' ('/' :: more)).role = .blank := rfl
  rw [hmunch] at hblank
  contradiction

end Scan.Cut

structure Token.Munched (t : Token) (source before lexeme after : List Char) : Prop where
  holds : t.span.Holds source before lexeme after
  lexeme_eq : t.lexeme = String.ofList lexeme
  longest : Longest IsLexeme lexeme (lexeme ++ after)
  not_comment : ¬['/', '/'] <+: lexeme ++ after
  kind_given : ∃ f : Family, f.Contains lexeme ∧ f.Gives t.kind lexeme after

def LexCause.Explains (text after : List Char) : LexCause → Prop
  | unexpectedCharacter =>
    ∃ c, text = [c] ∧ isBlank c = false ∧ c ≠ '"'
      ∧ ∀ other, IsLexeme other → ¬other <+: text ++ after
  | unterminatedString => ∃ contents, text = '"' :: contents ∧ '"' ∉ contents ∧ after = []

theorem Scan.Cut.explains {cause : LexCause} {text rest : List Char}
    (h : Cut (.error cause) text rest) : cause.Explains text rest := by
  cases cause with
  | unexpectedCharacter =>
    cases h with
    | @stray c _ hblank hquote hletter hdigit hsymbol =>
      refine ⟨c, rfl, hblank, hquote, ?_⟩
      rintro other ⟨f, hf⟩ ⟨more, hmore⟩
      rcases Family.head_of_contains hf with ⟨d, hd, rfl⟩
      have hhead := congrArg List.head? hmore
      rw [List.head?_append, Option.mem_def.1 hd] at hhead
      cases hhead
      simp only [Family.ofHead, hquote, hletter, hdigit] at hf
      rcases hf with ⟨s, rfl⟩
      exact hsymbol s hd
  | unterminatedString =>
    cases h with
    | openString hcontents => exact ⟨_, rfl, hcontents, rfl⟩

/--
The scanner reads by maximal munch. A token is the longest lexeme where it starts, no comment starts
there, and its kind is that of its family; errors have their causes; all else is blank or a comment.
-/
theorem scan_maximal_munch (source : String) :
    (∀ t ∈ (scan source).tokens, t.kind ≠ .eof →
      ∃ before lexeme after, t.Munched source.toList before lexeme after)
      ∧
    (∀ e ∈ (scan source).errors, ∃ before text after,
      e.span.Holds source.toList before text after ∧ e.cause.Explains text after)
      ∧
    (∀ gap ∈ gaps 0 source.utf8ByteSize ((scan source).items.map Item.span),
      gap.Skips source.toList) := by
  refine ⟨?_, ?_, scan_gaps_skips source⟩
  . intro t ht heof
    have heof : t.kind.isEof = false := by
      cases hkind : t.kind with
      | eof => contradiction
      | _ => rfl
    rcases exists_cutFrom_of_mem_tokens ht heof with ⟨before, lexeme, after, hfrom⟩
    rcases hfrom.cut.exists_family with ⟨f, hf, hgives, -⟩
    exact ⟨before, lexeme, after, hfrom.holds, hfrom.lexeme, hfrom.cut.longest,
      hfrom.cut.not_comment, f, hf, hgives⟩
  . intro e he
    rcases exists_cutFrom_of_mem_errors he with ⟨before, text, after, hfrom⟩
    exact ⟨before, text, after, hfrom.holds, hfrom.cut.explains⟩

def strangeSource : String := "інё//\n\"x"

theorem scan_strangeSource_tokens :
    (scan strangeSource).tokens =
      [⟨.keyword .conjunction, "ін", ⟨0, 4⟩, 1⟩, ⟨.eof, "", ⟨11, 11⟩, 2⟩] := by
  with_unfolding_all rfl

theorem scan_strangeSource_errors :
    (scan strangeSource).errors =
      [⟨.unexpectedCharacter, ⟨4, 6⟩, 1⟩, ⟨.unterminatedString, ⟨9, 11⟩, 2⟩] := by
  decide +kernel

theorem scan_strangeSource_gaps :
    gaps 0 strangeSource.utf8ByteSize ((scan strangeSource).items.map Item.span) =
      [⟨0, 0⟩, ⟨4, 4⟩, ⟨6, 9⟩, ⟨11, 11⟩] := by
  rw [scan_items]
  decide +kernel

theorem scan_maximal_munch_strangeSource :
    (∃ before lexeme after, Token.Munched ⟨.keyword .conjunction, "ін", ⟨0, 4⟩, 1⟩
      strangeSource.toList before lexeme after)
      ∧
    (∃ before text after, Span.Holds ⟨9, 11⟩ strangeSource.toList before text after
      ∧ LexCause.unterminatedString.Explains text after)
      ∧
    Span.Skips ⟨6, 9⟩ strangeSource.toList := by
  rcases scan_maximal_munch strangeSource with ⟨htokens, herrors, hgaps⟩
  rw [scan_strangeSource_tokens] at htokens
  rw [scan_strangeSource_errors] at herrors
  rw [scan_strangeSource_gaps] at hgaps
  refine ⟨htokens _ (by simp) (by simp), ?_, hgaps _ (by simp)⟩
  exact herrors ⟨.unterminatedString, ⟨9, 11⟩, 2⟩ (by simp)

end Vyraz
