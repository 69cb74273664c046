import Vyraz.Token.Error

namespace Vyraz.Scan

def isBlank (c : Char) : Bool :=
  c == ' ' || c == '\t' || c == '\r' || c == '\n'

def isLetter (c : Char) : Bool :=
  c.isAlpha || c == '_' || ('А' ≤ c && c ≤ 'я')
    || c == 'Ґ' || c == 'ґ' || c == 'І' || c == 'і' || c == 'Ї' || c == 'ї' || c == 'Є' || c == 'є'

def isWordPart (c : Char) : Bool :=
  isLetter c || c.isDigit

def isCyrillic (c : Char) : Bool :=
  '\u0400' ≤ c && c ≤ '\u04bf'

inductive Role where
  | blank
  | token (kind : Kind)
  | error (cause : LexCause)

structure Munch where
  role : Role
  text : List Char
  rest : List Char

/--
The kind of a word. Directly in front of a Cyrillic character that is no letter of the language, no
word is the keyword that it spells: it is a conjunction if one of the two longer keywords that begin
like the conjunction begins with it, and an identifier otherwise.
-/
def wordKind (word rest : List Char) : Kind :=
  if rest.head?.any isCyrillic then
    if word.isPrefixOf Keyword.alternative.letters || word.isPrefixOf Keyword.truth.letters then
      .keyword .conjunction
    else
      .identifier
  else
    match Keyword.ofLetters? word with
    | some k => .keyword k
    | none => .identifier

def munchWord (c : Char) (cs : List Char) : Munch :=
  let word := c :: cs.takeWhile isWordPart
  let rest := cs.dropWhile isWordPart
  ⟨.token (wordKind word rest), word, rest⟩

def fraction? : List Char → Option (List Char × List Char)
  | '.' :: cs =>
    if cs.head?.any Char.isDigit then
      some (cs.takeWhile Char.isDigit, cs.dropWhile Char.isDigit)
    else
      none
  | _ => none

def munchNumber (c : Char) (cs : List Char) : Munch :=
  let whole := c :: cs.takeWhile Char.isDigit
  let rest := cs.dropWhile Char.isDigit
  match fraction? rest with
  | some (fraction, rest) =>
    ⟨.token (.number (Decimal.ofDigits whole fraction).toFloat), whole ++ '.' :: fraction, rest⟩
  | none => ⟨.token (.number (Decimal.ofDigits whole []).toFloat), whole, rest⟩

def munchString (cs : List Char) : Munch :=
  let contents := cs.takeWhile (· != '"')
  match cs.dropWhile (· != '"') with
  | [] => ⟨.error .unterminatedString, '"' :: contents, []⟩
  | quote :: rest =>
    ⟨.token (.string (String.ofList contents)), '"' :: contents ++ [quote], rest⟩

def munchSymbol (c : Char) (cs : List Char) : Munch :=
  match Symbol.read? c cs with
  | some (s, rest) => ⟨.token (.symbol s), s.chars, rest⟩
  | none => ⟨.error .unexpectedCharacter, [c], cs⟩

def munch (c : Char) (cs : List Char) : Munch :=
  if isBlank c then
    ⟨.blank, c :: cs.takeWhile isBlank, cs.dropWhile isBlank⟩
  else if c == '/' && cs.head? == some '/' then
    ⟨.blank, c :: cs.takeWhile (· != '\n'), cs.dropWhile (· != '\n')⟩
  else if c == '"' then
    munchString cs
  else if isLetter c then
    munchWord c cs
  else if c.isDigit then
    munchNumber c cs
  else
    munchSymbol c cs

theorem fraction?_append {cs fraction rest : List Char} (h : fraction? cs = some (fraction, rest)) :
    '.' :: fraction ++ rest = cs := by
  unfold fraction? at h
  split at h
  . split at h
    . simp only [Option.some.injEq, Prod.mk.injEq] at h
      obtain ⟨rfl, rfl⟩ := h
      simp
    . contradiction
  . contradiction

theorem munchWord_text_append_rest (c : Char) (cs : List Char) :
    (munchWord c cs).text ++ (munchWord c cs).rest = c :: cs := by
  simp [munchWord]

theorem munchNumber_text_append_rest (c : Char) (cs : List Char) :
    (munchNumber c cs).text ++ (munchNumber c cs).rest = c :: cs := by
  simp only [munchNumber]
  split
  case h_1 h =>
    have := fraction?_append h
    simp_all
  case h_2 => simp

theorem munchString_text_append_rest (cs : List Char) :
    (munchString cs).text ++ (munchString cs).rest = '"' :: cs := by
  unfold munchString
  have hcut : cs.takeWhile (· != '"') ++ cs.dropWhile (· != '"') = cs :=
    List.takeWhile_append_dropWhile
  split
  case h_1 h =>
    rw [h] at hcut
    simpa using hcut
  case h_2 h =>
    rw [h] at hcut
    simpa using hcut

theorem munchSymbol_text_append_rest (c : Char) (cs : List Char) :
    (munchSymbol c cs).text ++ (munchSymbol c cs).rest = c :: cs := by
  unfold munchSymbol
  split
  case h_1 h => exact Symbol.chars_append_of_read? h
  case h_2 => rfl

theorem munch_text_append_rest (c : Char) (cs : List Char) :
    (munch c cs).text ++ (munch c cs).rest = c :: cs := by
  unfold munch
  split
  . simp
  split
  . simp
  split
  case isTrue h =>
    rw [eq_of_beq h]
    exact munchString_text_append_rest cs
  split
  . exact munchWord_text_append_rest c cs
  split
  . exact munchNumber_text_append_rest c cs
  . exact munchSymbol_text_append_rest c cs

theorem munchNumber_text_ne_nil (c : Char) (cs : List Char) : (munchNumber c cs).text ≠ [] := by
  simp only [munchNumber]
  split <;> simp

theorem munchString_text_ne_nil (cs : List Char) : (munchString cs).text ≠ [] := by
  unfold munchString
  split <;> simp

theorem munchSymbol_text_ne_nil (c : Char) (cs : List Char) : (munchSymbol c cs).text ≠ [] := by
  unfold munchSymbol
  split
  . exact Symbol.chars_ne_nil _
  . simp

theorem munch_text_ne_nil (c : Char) (cs : List Char) : (munch c cs).text ≠ [] := by
  unfold munch
  split
  . simp
  split
  . simp
  split
  . exact munchString_text_ne_nil cs
  split
  . simp [munchWord]
  split
  . exact munchNumber_text_ne_nil c cs
  . exact munchSymbol_text_ne_nil c cs

theorem munch_rest_length_lt (c : Char) (cs : List Char) :
    (munch c cs).rest.length < (c :: cs).length := by
  have hpos := List.length_pos_iff.2 (munch_text_ne_nil c cs)
  have hjoin := congrArg List.length (munch_text_append_rest c cs)
  rw [List.length_append] at hjoin
  omega

end Vyraz.Scan
