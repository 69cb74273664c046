import Vyraz.Proofs.Bytes
import Vyraz.Proofs.Coverage
import Vyraz.Token.LineCounter

namespace Vyraz

namespace LineCounter

structure Right (counter : LineCounter) (source : String) : Prop where
  offset_le : counter.offset ≤ source.utf8ByteSize
  line_eq : counter.line = 1 + Text.lineFeedsBefore counter.offset source

variable {source : String} {counter : LineCounter} {offset : Nat}

theorem start_right (source : String) : start.Right source where
  offset_le := Nat.zero_le _
  line_eq := by simp [start, Text.lineFeedsBefore]

theorem lineFeedsBefore_add (h : counter.offset ≤ offset) :
    Text.lineFeedsBefore counter.offset source
        + ((source.toUTF8.toList.take offset).drop counter.offset).count 10 =
      Text.lineFeedsBefore offset source := by
  have hfront : source.toUTF8.toList.take counter.offset =
      (source.toUTF8.toList.take offset).take counter.offset := by
    rw [List.take_take, Nat.min_eq_left h]
  unfold Text.lineFeedsBefore
  rw [hfront, ← List.count_append, List.take_append_drop]

theorem Right.moveTo? (h : counter.Right source) (hle : counter.offset ≤ offset)
    (hsource : offset ≤ source.utf8ByteSize) :
    counter.moveTo? source.toUTF8.toList offset =
      some ⟨offset, 1 + Text.lineFeedsBefore offset source⟩ := by
  have hlength : source.toUTF8.toList.length = source.utf8ByteSize := by
    rw [Text.toList_toUTF8, Text.length_encode, Text.size_toList]
  have hadd := @lineFeedsBefore_add source _ _ hle
  have hline := h.line_eq
  unfold LineCounter.moveTo?
  split
  . rw [if_pos (by omega)]
    simp only [Option.some.injEq, mk.injEq, true_and]
    omega
  . have hoffset : offset = counter.offset := by omega
    rw [hoffset, ← hline]

theorem right_at (h : offset ≤ source.utf8ByteSize) :
    (mk offset (1 + Text.lineFeedsBefore offset source)).Right source :=
  ⟨h, rfl⟩

end LineCounter

section

variable {source : String} {t : Token} {e : LexError}

theorem Token.CutFrom.line_eq {before text after : List Char}
    (h : t.CutFrom source.toList before text after) :
    t.line = 1 + Text.lineFeedsBefore t.span.start source := by
  rw [h.line, h.holds.start, Text.lineFeedsBefore_size h.holds.split]

theorem LexError.CutFrom.line_eq {before text after : List Char}
    (h : e.CutFrom source.toList before text after) :
    e.line = 1 + Text.lineFeedsBefore e.span.start source := by
  rw [h.line, h.holds.start, Text.lineFeedsBefore_size h.holds.split]

theorem endOf_line (source : String) :
    (Token.endOf source).line = 1 + Text.lineFeedsBefore source.utf8ByteSize source := by
  have hsource : source.toList = source.toList ++ [] := (List.append_nil _).symm
  rw [← Text.size_toList, Text.lineFeedsBefore_size hsource]
  apply Scan.Position.line_advance_start

theorem line_of_mem_tokens (h : t ∈ (scan source).tokens) :
    t.line = 1 + Text.lineFeedsBefore t.span.start source := by
  cases heof : t.kind.isEof with
  | false =>
    rcases exists_cutFrom_of_mem_tokens h heof with ⟨before, text, after, hfrom⟩
    apply hfrom.line_eq
  | true =>
    rw [scan_tokens, List.mem_append, List.mem_singleton] at h
    rcases h with h | rfl
    . rw [isEof_of_mem_items h] at heof
      contradiction
    . rw [endOf_span]
      apply endOf_line

theorem line_of_mem_errors (h : e ∈ (scan source).errors) :
    e.line = 1 + Text.lineFeedsBefore e.span.start source := by
  rcases exists_cutFrom_of_mem_errors h with ⟨before, text, after, hfrom⟩
  apply hfrom.line_eq

theorem Item.span_of_token? {item : Item} (h : item.token? = some t) : item.span = t.span := by
  cases item with
  | token t' =>
    cases h
    rfl
  | error e => contradiction

theorem Item.span_of_error? {item : Item} (h : item.error? = some e) : item.span = e.span := by
  cases item with
  | token t => contradiction
  | error e' =>
    cases h
    rfl

theorem scan_tokens_pairwise (source : String) :
    (scan source).tokens.Pairwise fun t t' => t.span.start ≤ t'.span.start := by
  rw [scan_tokens, List.pairwise_append]
  refine ⟨?_, ?_, ?_⟩
  . rw [List.pairwise_filterMap]
    apply (Scan.items_pairwise .start source.toList).imp
    intro item item' hlt t ht t' ht'
    rw [← Item.span_of_token? ht, ← Item.span_of_token? ht']
    omega
  . apply List.pairwise_singleton
  . intro t ht t' ht'
    rw [Item.mem_filterMap_token?_iff] at ht
    rcases Scan.exists_cutFrom_of_token_mem ht with ⟨before, text, after, hfrom⟩
    have hstart := hfrom.holds.start_lt_stop hfrom.cut.text_ne_nil
    have hstop := hfrom.holds.stop_le
    rw [List.mem_singleton.1 ht', endOf_span, ← Text.size_toList]
    dsimp only
    omega

theorem scan_errors_pairwise (source : String) :
    (scan source).errors.Pairwise fun e e' => e.span.start ≤ e'.span.start := by
  rw [scan_errors, List.pairwise_filterMap]
  apply (Scan.items_pairwise .start source.toList).imp
  intro item item' hlt e he e' he'
  rw [← Item.span_of_error? he, ← Item.span_of_error? he']
  omega

end

namespace Scan

variable {source : String} {counter : LineCounter}

theorem recount?_cons {bytes : List UInt8} {counter' last : LineCounter} {piece : Piece}
    {pieces recounted : List Piece} (hrole : piece.role ≠ .blank)
    (hmove : counter.moveTo? bytes piece.start.offset = some counter')
    (hpieces : recount? bytes counter' pieces = some (recounted, last)) :
    recount? bytes counter (piece :: pieces) =
      some ({ piece with start := ⟨piece.start.offset, counter'.line⟩ } :: recounted, last) := by
  rw [recount?]
  split
  . contradiction
  . rw [hmove]
    dsimp only [Option.bind_eq_bind, Option.bind_some]
    rw [hpieces]
    rfl

theorem recount?_pieces {before : List Char} (cs : List Char)
    (hsource : source.toList = before ++ cs) (h : counter.Right source)
    (hle : counter.offset ≤ Text.size before) :
    ∃ last, recount? source.toUTF8.toList counter (pieces (Position.start.advance before) cs) =
        some (pieces (Position.start.advance before) cs, last)
      ∧ last.Right source := by
  -- The counter stands at the last token or error, so it is never behind the next piece.
  induction cs using cut_induction generalizing before counter with
  | nil =>
    rw [pieces_nil]
    exact ⟨counter, rfl, h⟩
  | @cut role text rest hcut ih =>
    have hrest : source.toList = (before ++ text) ++ rest := by rw [hsource, List.append_assoc]
    rw [pieces_of_cut hcut, ← Position.advance_append]
    by_cases hblank : role = .blank
    . subst hblank
      have hle' : counter.offset ≤ Text.size (before ++ text) := by
        rw [Text.size_append]
        omega
      rcases ih hrest h hle' with ⟨last, hrecount, hlast⟩
      refine ⟨last, ?_, hlast⟩
      unfold recount?
      dsimp only
      rw [hrecount]
      rfl
    . have hinside : Text.size before ≤ source.utf8ByteSize := by
        rw [← Text.size_toList, hsource, Text.size_append]
        omega
      have hright := LineCounter.right_at hinside
      have hle' : Text.size before ≤ Text.size (before ++ text) := by
        rw [Text.size_append]
        omega
      rcases ih hrest hright hle' with ⟨last, hrecount, hlast⟩
      have hmove : counter.moveTo? source.toUTF8.toList (Position.start.advance before).offset =
          some ⟨Text.size before, 1 + Text.lineFeedsBefore (Text.size before) source⟩ := by
        rw [Position.offset_advance_start]
        exact h.moveTo? hle hinside
      have hline : 1 + Text.lineFeedsBefore (Text.size before) source =
          (Position.start.advance before).line := by
        rw [Text.lineFeedsBefore_size hsource, Position.line_advance_start]
      refine ⟨last, ?_, hlast⟩
      rw [recount?_cons hblank hmove hrecount, hline]

end Scan

theorem scanCounting?_eq (source : String) : scanCounting? source = some (scan source) := by
  have hsource : source.toList = [] ++ source.toList := rfl
  rcases Scan.recount?_pieces source.toList hsource (LineCounter.start_right source) (Nat.le_refl 0)
    with ⟨last, hrecount, hlast⟩
  have hmove := hlast.moveTo? hlast.offset_le (Nat.le_refl _)
  rw [← endOf_line] at hmove
  rw [Scan.Position.advance_nil] at hrecount
  have hend : Token.mk .eof "" ⟨source.utf8ByteSize, source.utf8ByteSize⟩
      (Token.endOf source).line = Token.endOf source := by
    rw [← endOf_span]
    rfl
  unfold scanCounting?
  dsimp only
  rw [hrecount]
  dsimp only [Option.bind_eq_bind, Option.bind_some]
  rw [hmove]
  dsimp only [Option.bind_eq_bind, Option.bind_some]
  rw [hend]
  rfl

/--
The line of every token and error is one more than the number of line feeds in front of it, so that
lines never decrease. A counter that only moves forward finds them all.
-/
theorem scan_lines_counted (source : String) :
    scanCounting? source = some (scan source)
      ∧ (∀ t ∈ (scan source).tokens, t.line = 1 + Text.lineFeedsBefore t.span.start source)
      ∧ (∀ e ∈ (scan source).errors, e.line = 1 + Text.lineFeedsBefore e.span.start source)
      ∧ ((scan source).tokens.Pairwise fun t t' => t.line ≤ t'.line)
      ∧ (scan source).errors.Pairwise fun e e' => e.line ≤ e'.line := by
  refine ⟨scanCounting?_eq source, fun t => line_of_mem_tokens, fun e => line_of_mem_errors, ?_, ?_⟩
  . apply (scan_tokens_pairwise source).imp_of_mem
    intro t t' ht ht' hle
    rw [line_of_mem_tokens ht, line_of_mem_tokens ht']
    have := Text.lineFeedsBefore_mono hle source
    omega
  . apply (scan_errors_pairwise source).imp_of_mem
    intro e e' he he' hle
    rw [line_of_mem_errors he, line_of_mem_errors he']
    have := Text.lineFeedsBefore_mono hle source
    omega

def brokenSource : String := "\"а\r\nб\"//\n@\"\n"

theorem scan_lines_counted_brokenSource :
    scanCounting? brokenSource = some (scan brokenSource)
      ∧ (scan brokenSource).tokens =
          [⟨.string "а\r\nб", "\"а\r\nб\"", ⟨0, 8⟩, 1⟩, ⟨.eof, "", ⟨14, 14⟩, 4⟩]
      ∧ 4 = 1 + Text.lineFeedsBefore 14 brokenSource
      ∧ (scan brokenSource).errors =
          [⟨.unexpectedCharacter, ⟨11, 12⟩, 3⟩, ⟨.unterminatedString, ⟨12, 14⟩, 3⟩]
      ∧ 3 = 1 + Text.lineFeedsBefore 11 brokenSource
      ∧ 3 = 1 + Text.lineFeedsBefore 12 brokenSource := by
  have htokens : (scan brokenSource).tokens =
      [⟨.string "а\r\nб", "\"а\r\nб\"", ⟨0, 8⟩, 1⟩, ⟨.eof, "", ⟨14, 14⟩, 4⟩] := by
    with_unfolding_all rfl
  have herrors : (scan brokenSource).errors =
      [⟨.unexpectedCharacter, ⟨11, 12⟩, 3⟩, ⟨.unterminatedString, ⟨12, 14⟩, 3⟩] := by decide +kernel
  rcases scan_lines_counted brokenSource with ⟨hcounting, hlines, hlines', -, -⟩
  rw [htokens] at hlines
  rw [herrors] at hlines'
  refine ⟨hcounting, htokens, ?_, herrors, ?_, ?_⟩
  . exact hlines ⟨.eof, "", ⟨14, 14⟩, 4⟩ (by simp)
  . exact hlines' ⟨.unexpectedCharacter, ⟨11, 12⟩, 3⟩ (by simp)
  . exact hlines' ⟨.unterminatedString, ⟨12, 14⟩, 3⟩ (by simp)

end Vyraz
