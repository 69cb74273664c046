import Mathlib.Data.List.TakeWhile
import Vyraz.Token.Scan

/-!
This module contains the cuts of the scanner: what the first piece of a text can be, and what then
cannot stand behind it. Every text but the empty one has exactly one cut, so whatever holds of the
pieces of a text is shown cut by cut.
-/

namespace Vyraz

namespace Text

theorem bne_of_notMem {q : Char} {cs : List Char} (h : q ∉ cs) : ∀ c ∈ cs, c != q := by
  intro c hc
  rw [bne_iff_ne]
  rintro rfl
  contradiction

section

variable {p : Char → Bool} {as rest : List Char}

theorem takeWhile_append_of_stop (has : ∀ c ∈ as, p c) (hstop : ∀ c ∈ rest.head?, p c = false) :
    (as ++ rest).takeWhile p = as := by
  rw [List.takeWhile_append_of_pos has]
  cases rest with
  | nil => simp
  | cons c rest => simp [hstop c rfl]

theorem dropWhile_append_of_stop (has : ∀ c ∈ as, p c) (hstop : ∀ c ∈ rest.head?, p c = false) :
    (as ++ rest).dropWhile p = rest := by
  rw [List.dropWhile_append_of_pos has]
  cases rest with
  | nil => rfl
  | cons c rest => simp [hstop c rfl]

theorem dropWhile_stop (p : Char → Bool) (cs : List Char) :
    ∀ c ∈ (cs.dropWhile p).head?, p c = false := by
  intro c hc
  have := List.head?_dropWhile_not p cs
  rw [Option.mem_def.1 hc] at this
  assumption

end

end Text

namespace Symbol

theorem chars_cases (s : Symbol) :
    (∃ c, s.chars = [c] ∧ single? c = some s)
      ∨ ∃ c, s.chars = [c, '='] ∧ withEqual? c = some s := by
  cases s with
  | bangEqual | equalEqual | greaterEqual | lessEqual => exact .inr ⟨_, rfl, rfl⟩
  | _ => exact .inl ⟨_, rfl, rfl⟩

theorem single?_isSome_of_withEqual? {c : Char} {s : Symbol} (h : withEqual? c = some s) :
    (single? c).isSome := by
  unfold withEqual? at h
  split at h
  . rfl
  . rfl
  . rfl
  . rfl
  . contradiction

theorem single?_isSome_of_head? {s : Symbol} {c : Char} (h : s.chars.head? = some c) :
    (single? c).isSome := by
  rcases chars_cases s with ⟨d, hchars, hd⟩ | ⟨d, hchars, hd⟩
  . rw [hchars] at h
    cases h
    simp [hd]
  . rw [hchars] at h
    cases h
    exact single?_isSome_of_withEqual? hd

def Stops (s : Symbol) (rest : List Char) : Prop :=
  rest.head? = some '=' → ∀ s' : Symbol, s'.chars ≠ s.chars ++ ['=']

theorem stops_of_read? {c : Char} {cs rest : List Char} {s : Symbol}
    (h : read? c cs = some (s, rest)) : s.Stops rest := by
  intro hrest s' hs'
  unfold read? at h
  split at h
  . next hs =>
    cases h
    rw [chars_of_withEqual? hs] at hs'
    rcases chars_cases s' with ⟨d, hchars, -⟩ | ⟨d, hchars, -⟩
    . simp [hchars] at hs'
    . simp [hchars] at hs'
  . next hmatch =>
    simp only [Option.map_eq_some_iff, Prod.mk.injEq] at h
    rcases h with ⟨_, hs, rfl, rfl⟩
    rw [chars_of_single? hs] at hs'
    rcases chars_cases s' with ⟨d, hchars, -⟩ | ⟨d, hchars, hd⟩
    . simp [hchars] at hs'
    . simp only [hchars, List.cons_append, List.nil_append, List.cons.injEq, and_true] at hs'
      subst hs'
      rcases List.head?_eq_some_iff.1 hrest with ⟨tail, rfl⟩
      exact hmatch _ _ rfl hd

theorem read?_of_stops {s : Symbol} {rest : List Char} (h : s.Stops rest) {c : Char}
    {cs : List Char} (hcs : s.chars ++ rest = c :: cs) : read? c cs = some (s, rest) := by
  rcases chars_cases s with ⟨d, hchars, hd⟩ | ⟨d, hchars, hd⟩
  . simp only [hchars, List.cons_append, List.nil_append, List.cons.injEq] at hcs
    rcases hcs with ⟨rfl, rfl⟩
    unfold read?
    split
    . next hs' =>
      have hlonger := h rfl
      rw [hchars] at hlonger
      exact absurd (chars_of_withEqual? hs') (hlonger _)
    . rw [hd]
      rfl
  . simp only [hchars, List.cons_append, List.nil_append, List.cons.injEq] at hcs
    rcases hcs with ⟨rfl, rfl⟩
    simp only [read?, hd]

theorem read?_eq_none_iff {c : Char} {cs : List Char} :
    read? c cs = none ↔ ∀ s : Symbol, s.chars.head? ≠ some c := by
  constructor
  . intro h s hs
    have := single?_isSome_of_head? hs
    unfold read? at h
    split at h
    . contradiction
    . simp [Option.map_eq_none_iff.1 h] at this
  . intro h
    cases hread : read? c cs with
    | none => rfl
    | some found =>
      exfalso
      have happend := congrArg List.head? (chars_append_of_read? hread)
      rw [List.head?_append, List.head?_cons] at happend
      apply h found.1
      cases hchars : found.1.chars with
      | nil => exact absurd hchars (chars_ne_nil _)
      | cons d ds => simpa [hchars] using happend

end Symbol

namespace Scan

def leaders : List Char :=
  [' ', '\t', '\r', '\n', '"', '/']

theorem notMem_leaders_of_isLetter {c : Char} (h : isLetter c) : c ∉ leaders := by
  have hnone : leaders.any isLetter = false := by decide
  intro hc
  exact List.any_eq_false.1 hnone c hc h

theorem notMem_leaders_of_isDigit {c : Char} (h : c.isDigit) : c ∉ leaders := by
  have hnone : leaders.any Char.isDigit = false := by decide
  intro hc
  exact List.any_eq_false.1 hnone c hc h

theorem eq_false_of_isDigit {p : Char → Bool} {c : Char}
    (hp : ['0', '1', '2', '3', '4', '5', '6', '7', '8', '9'].any p = false) (h : c.isDigit) :
    p c = false := by
  have hrange : 48 ≤ c.toNat ∧ c.toNat ≤ 57 := Char.isDigit_iff_toNat.1 h
  rw [← Bool.not_eq_true]
  apply List.any_eq_false.1 hp
  simp [← Char.toNat_inj]
  omega

theorem isLetter_eq_false_of_isDigit {c : Char} (h : c.isDigit) : isLetter c = false :=
  eq_false_of_isDigit (by decide) h

def IsDigits (cs : List Char) : Prop :=
  cs ≠ [] ∧ ∀ c ∈ cs, c.isDigit

inductive Cut : Role → List Char → List Char → Prop where
  | blank {text rest : List Char} (hne : text ≠ []) (hall : ∀ c ∈ text, isBlank c)
    (hstop : ∀ c ∈ rest.head?, isBlank c = false) : Cut .blank text rest
  | comment {body rest : List Char} (hbody : '\n' ∉ body) (hstop : ∀ c ∈ rest.head?, c = '\n') :
    Cut .blank ('/' :: '/' :: body) rest
  | string {contents rest : List Char} (hcontents : '"' ∉ contents) :
    Cut (.token (.string (String.ofList contents))) ('"' :: (contents ++ ['"'])) rest
  | openString {contents : List Char} (hcontents : '"' ∉ contents) :
    Cut (.error .unterminatedString) ('"' :: contents) []
  | word {c : Char} {cs rest : List Char} (hc : isLetter c) (hcs : ∀ d ∈ cs, isWordPart d)
    (hstop : ∀ d ∈ rest.head?, isWordPart d = false) :
    Cut (.token (wordKind (c :: cs) rest)) (c :: cs) rest
  | number {whole rest : List Char} (hwhole : IsDigits whole)
    (hstop : ∀ d ∈ rest.head?, d.isDigit = false)
    (hpoint : ∀ d cs, rest = '.' :: d :: cs → d.isDigit = false) :
    Cut (.token (.number (Decimal.ofDigits whole []).toFloat)) whole rest
  | fraction {whole digits rest : List Char} (hwhole : IsDigits whole) (hdigits : IsDigits digits)
    (hstop : ∀ d ∈ rest.head?, d.isDigit = false) :
    Cut (.token (.number (Decimal.ofDigits whole digits).toFloat)) (whole ++ '.' :: digits) rest
  | symbol {s : Symbol} {rest : List Char} (hstop : s.Stops rest)
    (hslash : s = .slash → rest.head? ≠ some '/') : Cut (.token (.symbol s)) s.chars rest
  | stray {c : Char} {rest : List Char} (hblank : isBlank c = false) (hquote : c ≠ '"')
    (hletter : isLetter c = false) (hdigit : c.isDigit = false)
    (hsymbol : ∀ s : Symbol, s.chars.head? ≠ some c) :
    Cut (.error .unexpectedCharacter) [c] rest

theorem cut_munchString (cs : List Char) :
    Cut (munchString cs).role (munchString cs).text (munchString cs).rest := by
  have hcontents : '"' ∉ cs.takeWhile (· != '"') := by
    intro h
    simpa using List.mem_takeWhile_imp h
  unfold munchString
  split
  . exact .openString hcontents
  . next quote rest hrest =>
    have hquote := Text.dropWhile_stop (· != '"') cs quote (by rw [hrest]; rfl)
    rw [bne_eq_false_iff_eq] at hquote
    subst hquote
    exact .string hcontents

theorem cut_munchWord {c : Char} (hc : isLetter c) (cs : List Char) :
    Cut (munchWord c cs).role (munchWord c cs).text (munchWord c cs).rest := by
  apply Cut.word
  . assumption
  . intro d hd
    exact List.mem_takeWhile_imp hd
  . apply Text.dropWhile_stop

theorem fraction?_eq_some_iff {cs digits rest : List Char} :
    fraction? cs = some (digits, rest)
      ↔
    cs = '.' :: (digits ++ rest) ∧ IsDigits digits ∧ ∀ d ∈ rest.head?, d.isDigit = false := by
  constructor
  . intro h
    unfold fraction? at h
    split at h
    . next ds =>
      split at h
      . next hdigit =>
        simp only [Option.some.injEq, Prod.mk.injEq] at h
        rcases h with ⟨rfl, rfl⟩
        refine ⟨?_, ⟨?_, ?_⟩, ?_⟩
        . rw [List.takeWhile_append_dropWhile]
        . cases ds with
          | nil => contradiction
          | cons d ds =>
            have hd : d.isDigit := hdigit
            simp [hd]
        . intro d hd
          exact List.mem_takeWhile_imp hd
        . apply Text.dropWhile_stop
      . contradiction
    . contradiction
  . intro h
    rcases h with ⟨rfl, ⟨hne, hdigits⟩, hstop⟩
    have hhead : (digits ++ rest).head?.any Char.isDigit := by
      cases digits with
      | nil => contradiction
      | cons d digits => exact hdigits d List.mem_cons_self
    simp only [fraction?, if_pos hhead]
    rw [Text.takeWhile_append_of_stop hdigits hstop]
    rw [Text.dropWhile_append_of_stop hdigits hstop]

theorem fraction?_eq_none_iff {cs : List Char} :
    fraction? cs = none ↔ ∀ d ds, cs = '.' :: d :: ds → d.isDigit = false := by
  unfold fraction?
  split
  . next ds =>
    cases ds with
    | nil => simp
    | cons d ds => cases hd : d.isDigit <;> simp [hd]
  . next hpoint =>
    simp only [true_iff]
    intro d ds hcs
    exact absurd hcs (hpoint _)

theorem cut_munchNumber {c : Char} (hc : c.isDigit) (cs : List Char) :
    Cut (munchNumber c cs).role (munchNumber c cs).text (munchNumber c cs).rest := by
  have hwhole : IsDigits (c :: cs.takeWhile Char.isDigit) := by
    refine ⟨List.cons_ne_nil _ _, ?_⟩
    intro d hd
    rcases List.mem_cons.1 hd with rfl | hd
    . assumption
    . exact List.mem_takeWhile_imp hd
  unfold munchNumber
  dsimp only
  split
  . next hfraction =>
    rcases fraction?_eq_some_iff.1 hfraction with ⟨-, hdigits, hstop⟩
    exact .fraction hwhole hdigits hstop
  . next hfraction =>
    apply Cut.number
    . assumption
    . apply Text.dropWhile_stop
    . rw [← fraction?_eq_none_iff]
      assumption

theorem cut_munchSymbol {c : Char} {cs : List Char} (hblank : isBlank c = false)
    (hcomment : ¬(c == '/' && cs.head? == some '/')) (hquote : c ≠ '"')
    (hletter : isLetter c = false) (hdigit : c.isDigit = false) :
    Cut (munchSymbol c cs).role (munchSymbol c cs).text (munchSymbol c cs).rest := by
  unfold munchSymbol
  split
  . next s rest hread =>
    apply Cut.symbol
    . exact Symbol.stops_of_read? hread
    . rintro rfl hrest
      have happend := Symbol.chars_append_of_read? hread
      simp only [Symbol.chars, List.cons_append, List.nil_append, List.cons.injEq] at happend
      rcases happend with ⟨rfl, rfl⟩
      simp [hrest] at hcomment
  . next hread => exact .stray hblank hquote hletter hdigit (Symbol.read?_eq_none_iff.1 hread)

theorem cut_munch (c : Char) (cs : List Char) :
    Cut (munch c cs).role (munch c cs).text (munch c cs).rest := by
  unfold munch
  split
  . next hblank =>
    apply Cut.blank
    . simp
    . intro d hd
      rcases List.mem_cons.1 hd with rfl | hd
      . assumption
      . exact List.mem_takeWhile_imp hd
    . apply Text.dropWhile_stop
  next hblank =>
  split
  . next hcomment =>
    simp only [Bool.and_eq_true, beq_iff_eq] at hcomment
    rcases hcomment with ⟨rfl, hslash⟩
    rcases List.head?_eq_some_iff.1 hslash with ⟨body, rfl⟩
    apply Cut.comment
    . intro h
      simpa using List.mem_takeWhile_imp h
    . intro d hd
      simpa using Text.dropWhile_stop (· != '\n') _ d hd
  next hcomment =>
  split
  . apply cut_munchString
  next hquote =>
  split
  . apply cut_munchWord
    assumption
  next hletter =>
  split
  . apply cut_munchNumber
    assumption
  next hdigit =>
  apply cut_munchSymbol
  . simpa using hblank
  . assumption
  . simpa using hquote
  . simpa using hletter
  . simpa using hdigit

section

variable {c : Char} {cs : List Char}

theorem munch_of_notMem_leaders (h : c ∉ leaders) :
    munch c cs =
      if isLetter c then
        munchWord c cs
      else if c.isDigit then
        munchNumber c cs
      else
        munchSymbol c cs := by
  simp only [leaders, List.mem_cons, List.not_mem_nil, not_or] at h
  simp [munch, isBlank, h]

theorem munch_of_isLetter (h : isLetter c) : munch c cs = munchWord c cs := by
  rw [munch_of_notMem_leaders (notMem_leaders_of_isLetter h)]
  rw [if_pos h]

theorem munch_of_isDigit (h : c.isDigit) : munch c cs = munchNumber c cs := by
  rw [munch_of_notMem_leaders (notMem_leaders_of_isDigit h)]
  simp [isLetter_eq_false_of_isDigit h, h]

theorem munch_symbol {s : Symbol} {rest : List Char} (hcs : s.chars ++ rest = c :: cs)
    (hslash : s = .slash → rest.head? ≠ some '/') : munch c cs = munchSymbol c cs := by
  cases s with
  | slash =>
    simp only [Symbol.chars, List.cons_append, List.nil_append, List.cons.injEq] at hcs
    rcases hcs with ⟨rfl, rfl⟩
    have hrest : (rest.head? == some '/') = false := by simpa using hslash rfl
    have hletter : isLetter '/' = false := by decide
    simp [munch, hrest, isBlank, hletter, Char.isDigit]
  | _ =>
    simp only [Symbol.chars, List.cons_append, List.nil_append, List.cons.injEq] at hcs
    rcases hcs with ⟨rfl, rfl⟩
    rw [munch_of_notMem_leaders (by decide)]
    rw [if_neg (by decide), if_neg (by decide)]

end

theorem munchString_of_notMem {contents : List Char} (h : '"' ∉ contents) :
    munchString contents = ⟨.error .unterminatedString, '"' :: contents, []⟩ := by
  have hall := Text.bne_of_notMem h
  unfold munchString
  rw [List.takeWhile_eq_self_iff.2 hall]
  rw [List.dropWhile_eq_nil_iff.2 hall]

theorem munchString_append_of_notMem {contents : List Char} (h : '"' ∉ contents)
    (rest : List Char) :
    munchString (contents ++ '"' :: rest) =
      ⟨.token (.string (String.ofList contents)), '"' :: (contents ++ ['"']), rest⟩ := by
  have hall := Text.bne_of_notMem h
  have hstop : ∀ c ∈ ('"' :: rest).head?, (c != '"') = false := by simp
  unfold munchString
  rw [Text.takeWhile_append_of_stop hall hstop]
  rw [Text.dropWhile_append_of_stop hall hstop]
  rfl

theorem munch_of_cut {role : Role} {text rest : List Char} (h : Cut role text rest) {c : Char}
    {cs : List Char} (hcs : text ++ rest = c :: cs) : munch c cs = ⟨role, text, rest⟩ := by
  cases h with
  | @blank text _ hne hall hstop =>
    rcases List.exists_cons_of_ne_nil hne with ⟨d, ds, rfl⟩
    simp only [List.cons_append, List.cons.injEq] at hcs
    rcases hcs with ⟨rfl, rfl⟩
    rw [List.forall_mem_cons] at hall
    unfold munch
    rw [if_pos hall.1]
    rw [Text.takeWhile_append_of_stop hall.2 hstop]
    rw [Text.dropWhile_append_of_stop hall.2 hstop]
  | @comment body _ hbody hstop =>
    simp only [List.cons_append, List.cons.injEq] at hcs
    rcases hcs with ⟨rfl, rfl⟩
    have hall : ∀ d ∈ '/' :: body, d != '\n' := Text.bne_of_notMem (by simp [hbody])
    have hstop : ∀ d ∈ rest.head?, (d != '\n') = false := by
      intro d hd
      simp [hstop d hd]
    have htake := Text.takeWhile_append_of_stop hall hstop
    have hdrop := Text.dropWhile_append_of_stop hall hstop
    rw [List.cons_append] at htake hdrop
    unfold munch
    rw [htake, hdrop]
    rfl
  | @string contents _ hcontents =>
    simp only [List.cons_append, List.cons.injEq, List.append_assoc, List.nil_append] at hcs
    rcases hcs with ⟨rfl, rfl⟩
    exact munchString_append_of_notMem hcontents rest
  | @openString contents hcontents =>
    simp only [List.append_nil, List.cons.injEq] at hcs
    rcases hcs with ⟨rfl, rfl⟩
    exact munchString_of_notMem hcontents
  | @word _ ds _ hc hds hstop =>
    simp only [List.cons_append, List.cons.injEq] at hcs
    rcases hcs with ⟨rfl, rfl⟩
    rw [munch_of_isLetter hc]
    unfold munchWord
    rw [Text.takeWhile_append_of_stop hds hstop]
    rw [Text.dropWhile_append_of_stop hds hstop]
  | @number whole _ hwhole hstop hpoint =>
    rcases hwhole with ⟨hne, hall⟩
    rcases List.exists_cons_of_ne_nil hne with ⟨d, ds, rfl⟩
    simp only [List.cons_append, List.cons.injEq] at hcs
    rcases hcs with ⟨rfl, rfl⟩
    rw [List.forall_mem_cons] at hall
    rw [munch_of_isDigit hall.1]
    unfold munchNumber
    dsimp only
    rw [Text.takeWhile_append_of_stop hall.2 hstop]
    rw [Text.dropWhile_append_of_stop hall.2 hstop]
    rw [fraction?_eq_none_iff.2 hpoint]
  | @fraction whole digits _ hwhole hdigits hstop =>
    rcases hwhole with ⟨hne, hall⟩
    rcases List.exists_cons_of_ne_nil hne with ⟨d, ds, rfl⟩
    simp only [List.cons_append, List.cons.injEq, List.append_assoc] at hcs
    rcases hcs with ⟨rfl, rfl⟩
    rw [List.forall_mem_cons] at hall
    have hpoint : ∀ d ∈ ('.' :: (digits ++ rest)).head?, d.isDigit = false := by simp
    rw [munch_of_isDigit hall.1]
    unfold munchNumber
    dsimp only
    rw [Text.takeWhile_append_of_stop hall.2 hpoint]
    rw [Text.dropWhile_append_of_stop hall.2 hpoint]
    rw [fraction?_eq_some_iff.2 ⟨rfl, hdigits, hstop⟩]
  | symbol hstop hslash =>
    rw [munch_symbol hcs hslash]
    unfold munchSymbol
    rw [Symbol.read?_of_stops hstop hcs]
  | @stray d _ hblank hquote hletter hdigit hsymbol =>
    simp only [List.cons_append, List.nil_append, List.cons.injEq] at hcs
    rcases hcs with ⟨rfl, rfl⟩
    have hslash : d ≠ '/' := by
      rintro rfl
      exact hsymbol .slash rfl
    have hmunch : munch d rest = munchSymbol d rest := by
      simp [munch, hblank, hslash, hquote, hletter, hdigit]
    rw [hmunch]
    unfold munchSymbol
    rw [Symbol.read?_eq_none_iff.2 hsymbol]

theorem Cut.text_ne_nil {role : Role} {text rest : List Char} (h : Cut role text rest) :
    text ≠ [] := by
  cases h with
  | blank hne => assumption
  | number hwhole => exact hwhole.1
  | symbol => apply Symbol.chars_ne_nil
  | _ => simp

theorem wordKind_isEof (word rest : List Char) : (wordKind word rest).isEof = false := by
  unfold wordKind
  split
  . split <;> rfl
  . split <;> rfl

theorem Cut.isEof {kind : Kind} {text rest : List Char} (h : Cut (.token kind) text rest) :
    kind.isEof = false := by
  cases h with
  | word => apply wordKind_isEof
  | _ => rfl

@[elab_as_elim]
theorem cut_induction {motive : List Char → Prop} (nil : motive [])
    (cut : ∀ {role text rest}, Cut role text rest → motive rest → motive (text ++ rest))
    (cs : List Char) : motive cs := by
  match cs with
  | [] => exact nil
  | c :: cs =>
    rw [← munch_text_append_rest c cs]
    apply cut
    . exact cut_munch c cs
    . apply cut_induction nil cut
termination_by cs.length
decreasing_by exact munch_rest_length_lt c cs

theorem pieces_of_cut {role : Role} {text rest : List Char} (h : Cut role text rest)
    (start : Position) :
    pieces start (text ++ rest) =
      ⟨role, text, start⟩ :: pieces (start.advance text) rest := by
  rcases List.exists_cons_of_ne_nil h.text_ne_nil with ⟨c, cs, rfl⟩
  have hmunch : munch c (cs ++ rest) = ⟨role, c :: cs, rest⟩ := munch_of_cut h rfl
  rw [List.cons_append, pieces_cons]
  rw [hmunch]

end Scan
end Vyraz
