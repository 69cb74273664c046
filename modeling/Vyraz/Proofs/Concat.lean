import Vyraz.Proofs.Layout

/-!
This module contains the scanning of texts that are put together. A line feed parts two texts like
a blank that was there before, unless a string is still open in front of it; and a text that stands
behind another one has the tokens and errors that it has alone, moved by what is in front of it.
-/

namespace Vyraz

open Scan

structure Distance where
  bytes : Nat
  lines : Nat
deriving DecidableEq, Repr

def Distance.behind (before : List Char) : Distance :=
  ⟨Text.size before, before.count '\n'⟩

def Span.moved (d : Distance) (span : Span) : Span :=
  ⟨span.start + d.bytes, span.stop + d.bytes⟩

def Token.moved (d : Distance) (t : Token) : Token :=
  ⟨t.kind, t.lexeme, t.span.moved d, t.line + d.lines⟩

def LexError.moved (d : Distance) (e : LexError) : LexError :=
  ⟨e.cause, e.span.moved d, e.line + d.lines⟩

def Item.moved (d : Distance) : Item → Item
  | token t => token (t.moved d)
  | error e => error (e.moved d)

namespace Scan

def Position.moved (d : Distance) (p : Position) : Position :=
  ⟨p.offset + d.bytes, p.line + d.lines⟩

theorem Position.moved_behind (p : Position) (before : List Char) :
    p.moved (.behind before) = p.advance before := rfl

theorem Position.advance_moved (p : Position) (d : Distance) (text : List Char) :
    (p.moved d).advance text = (p.advance text).moved d := by
  simp only [moved, advance, Position.mk.injEq]
  omega

theorem Piece.item?_moved (role : Role) (text : List Char) (start : Position) (d : Distance) :
    Piece.item? ⟨role, text, start.moved d⟩ =
      (Piece.item? ⟨role, text, start⟩).map (Item.moved d) := by
  have hspan : Piece.span ⟨role, text, start.moved d⟩ =
      (Piece.span ⟨role, text, start⟩).moved d := by
    simp only [Piece.span, Span.moved, Position.moved, Span.mk.injEq, true_and]
    omega
  cases role with
  | blank => rfl
  | token kind =>
    simp only [Piece.item?, hspan]
    rfl
  | error cause =>
    simp only [Piece.item?, hspan]
    rfl

theorem items_moved (start : Position) (d : Distance) (cs : List Char) :
    items (start.moved d) cs = (items start cs).map (Item.moved d) := by
  induction cs using cut_induction generalizing start with
  | nil => simp
  | @cut role text rest hcut ih =>
    rw [items_of_cut hcut, items_of_cut hcut, Piece.item?_moved, Position.advance_moved, ih]
    cases Piece.item? ⟨role, text, start⟩ with
    | none => rfl
    | some item => rfl

section

variable {text rest : List Char} (more : List Char)

theorem head?_before_newline {P : Char → Prop} (h : ∀ c ∈ rest.head?, P c) (hnewline : P '\n') :
    ∀ c ∈ (rest ++ '\n' :: more).head?, P c := by
  cases rest with
  | nil =>
    rintro _ ⟨⟩
    exact hnewline
  | cons c rest => exact h

theorem wordKind_before_newline (word rest : List Char) :
    wordKind word (rest ++ '\n' :: more) = wordKind word rest := by
  cases rest with
  | nil => rfl
  | cons c rest => rfl

theorem Cut.before_newline {role : Role} (h : Cut role text rest) (hblank : role ≠ .blank)
    (hopen : role ≠ .error .unterminatedString) : Cut role text (rest ++ '\n' :: more) := by
  cases h with
  | blank | comment => contradiction
  | openString => contradiction
  | string hcontents => exact .string hcontents
  | word hc hcs hstop =>
    rw [← wordKind_before_newline more]
    exact .word hc hcs (head?_before_newline more hstop (by decide))
  | number hwhole hstop hpoint =>
    apply Cut.number hwhole (head?_before_newline more hstop (by decide))
    intro d cs hrest
    match rest with
    | [] => cases hrest
    | [c] =>
      cases hrest
      rfl
    | c :: c' :: rest =>
      cases hrest
      exact hpoint d rest rfl
  | fraction hwhole hdigits hstop =>
    exact .fraction hwhole hdigits (head?_before_newline more hstop (by decide))
  | @symbol s _ hstop hslash =>
    apply Cut.symbol
    . intro hequal
      cases rest with
      | nil => cases hequal
      | cons c rest => exact hstop hequal
    . intro hs
      cases rest with
      | nil => simp
      | cons c rest => exact hslash hs
  | stray hblank' hquote hletter hdigit hsymbol =>
    exact .stray hblank' hquote hletter hdigit hsymbol

theorem Skipped.before_newline (h : Skipped text rest) : Skipped text (rest ++ '\n' :: more) := by
  induction h with
  | nil => exact .nil
  | blank hc _ ih => exact .blank hc ih
  | comment hbody hend _ ih =>
    refine .comment hbody ?_ ih
    rw [← List.append_assoc]
    exact head?_before_newline more hend rfl

end

theorem items_append_newline (start : Position) (cs more : List Char)
    (h : ∀ e, .error e ∈ items start cs → e.cause ≠ .unterminatedString) :
    items start (cs ++ '\n' :: more) =
      items start cs ++ items (start.advance (cs ++ ['\n'])) more := by
  induction cs using cut_induction generalizing start with
  | nil => simpa using items_blank start rfl more
  | @cut role text rest hcut ih =>
    rw [items_of_cut hcut] at h ⊢
    have hrest := ih (start.advance text) (fun e he => h e (List.mem_append_right _ he))
    rw [List.append_assoc, List.append_assoc, List.append_assoc, Position.advance_append start text,
      ← hrest]
    cases role with
    | blank =>
      rw [items_skipped start ((skipped_of_cut hcut).before_newline more)]
      rfl
    | token kind => rw [items_of_cut (hcut.before_newline more (by simp) (by simp))]
    | error cause =>
      have hopen : cause ≠ .unterminatedString := by
        apply h ⟨cause, Piece.span ⟨.error cause, text, start⟩, start.line⟩
        simp [Piece.item?]
      rw [items_of_cut (hcut.before_newline more (by simp) (by simp [hopen]))]

end Scan

section

variable (d : Distance) (items : List Item)

theorem Item.filterMap_token?_moved :
    (items.map (Item.moved d)).filterMap token? = (items.filterMap token?).map (Token.moved d) := by
  rw [List.filterMap_map, List.map_filterMap]
  congr
  funext item
  cases item <;> rfl

theorem Item.filterMap_error?_moved :
    (items.map (Item.moved d)).filterMap error? =
      (items.filterMap error?).map (LexError.moved d) := by
  rw [List.filterMap_map, List.map_filterMap]
  congr
  funext item
  cases item <;> rfl

end

section

variable (a b : String)

theorem Distance.behind_line :
    Distance.behind (a.toList ++ ['\n']) = ⟨a.utf8ByteSize + 1, a.toList.count '\n' + 1⟩ := by
  have hnewline : Text.size ['\n'] = 1 := rfl
  rw [behind, Text.size_append, Text.size_toList, hnewline, List.count_append,
    List.count_singleton_self]

theorem toList_append_newline : (a ++ "\n" ++ b).toList = a.toList ++ '\n' :: b.toList := by
  simp

theorem endOf_append_newline :
    Token.endOf (a ++ "\n" ++ b) =
      (Token.endOf b).moved (.behind (a.toList ++ ['\n'])) := by
  have htext : a.toList ++ '\n' :: b.toList = (a.toList ++ ['\n']) ++ b.toList := by simp
  unfold Token.endOf
  rw [toList_append_newline, htext, Position.advance_append, ← Position.moved_behind .start,
    Position.advance_moved]
  rfl

/--
A line feed parts a source in two that are scanned on their own, unless a string is open in front of
it. What is behind the line feed is only moved: by the bytes and by the lines in front of it.
-/
theorem scan_append_newline (h : ∀ e ∈ (scan a).errors, e.cause ≠ .unterminatedString) :
    (scan (a ++ "\n" ++ b)).tokens =
        ((scan a).tokens.filter fun t => !t.kind.isEof)
          ++ (scan b).tokens.map (.moved ⟨a.utf8ByteSize + 1, a.toList.count '\n' + 1⟩)
      ∧
    (scan (a ++ "\n" ++ b)).errors =
        (scan a).errors
          ++ (scan b).errors.map (.moved ⟨a.utf8ByteSize + 1, a.toList.count '\n' + 1⟩) := by
  have hclosed : ∀ e, .error e ∈ items .start a.toList → e.cause ≠ .unterminatedString := by
    intro e he
    apply h
    rwa [scan_errors, Item.mem_filterMap_error?_iff]
  have hitems := items_append_newline .start a.toList b.toList hclosed
  rw [← Position.moved_behind, items_moved] at hitems
  rw [← Distance.behind_line]
  constructor
  . rw [scan_tokens_filter, scan_tokens, scan_tokens, toList_append_newline, hitems,
      endOf_append_newline, List.filterMap_append, Item.filterMap_token?_moved, List.map_append,
      List.append_assoc]
    rfl
  . rw [scan_errors, scan_errors, scan_errors, toList_append_newline, hitems,
      List.filterMap_append, Item.filterMap_error?_moved]

end

theorem scan_append_newline_openString :
    (∀ e ∈ (scan "інё//").errors, e.cause ≠ .unterminatedString)
      ∧ (scan ("інё//" ++ "\n" ++ "\"x")).tokens =
        [⟨.keyword .conjunction, "ін", ⟨0, 4⟩, 1⟩, ⟨.eof, "", ⟨11, 11⟩, 2⟩]
      ∧ (scan ("інё//" ++ "\n" ++ "\"x")).errors =
        [⟨.unexpectedCharacter, ⟨4, 6⟩, 1⟩, ⟨.unterminatedString, ⟨9, 11⟩, 2⟩] := by
  have htokens : (scan "інё//").tokens =
      [⟨.keyword .conjunction, "ін", ⟨0, 4⟩, 1⟩, ⟨.eof, "", ⟨8, 8⟩, 1⟩] := by with_unfolding_all rfl
  have herrors : (scan "інё//").errors = [⟨.unexpectedCharacter, ⟨4, 6⟩, 1⟩] := by decide +kernel
  have htokens' : (scan "\"x").tokens = [⟨.eof, "", ⟨2, 2⟩, 1⟩] := by with_unfolding_all rfl
  have herrors' : (scan "\"x").errors = [⟨.unterminatedString, ⟨0, 2⟩, 1⟩] := by decide +kernel
  have hclosed : ∀ e ∈ (scan "інё//").errors, e.cause ≠ .unterminatedString := by
    rw [herrors]
    simp
  have hsize : "інё//".utf8ByteSize = 8 := rfl
  have hlines : "інё//".toList.count '\n' = 0 := by decide
  rcases scan_append_newline "інё//" "\"x" hclosed with ⟨hall, hall'⟩
  rw [htokens, htokens', hsize, hlines] at hall
  rw [herrors, herrors', hsize, hlines] at hall'
  exact ⟨hclosed, hall, hall'⟩

end Vyraz
