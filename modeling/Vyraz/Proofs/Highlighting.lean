import Mathlib.Data.List.Pairwise
import Vyraz.Prompt.Highlight
import Vyraz.Proofs.Provenance

namespace Vyraz

structure Span.InPlace (span : Span) (text : List Char) : Prop where
  ordered : span.start ≤ span.stop
  inside : span.stop ≤ Text.size text
  start : Text.isBoundary span.start text
  stop : Text.isBoundary span.stop text

theorem Span.InPlace.of_slice? {span : Span} {cs text : List Char}
    (h : Text.slice? span.start span.stop cs = some text) : span.InPlace cs := by
  rcases Text.slice?_eq_some_iff.1 h with ⟨before, after, hsplit, hstart, hstop⟩
  have hholds : span.Holds cs before text after := ⟨hsplit, hstart, hstop⟩
  refine ⟨?_, hholds.stop_le, hholds.isBoundary_start, hholds.isBoundary_stop⟩
  omega

namespace Prompt

open Scan

theorem mergeSort_eq_of_perm {α : Type} (f : α → Nat) {xs ys : List α} (h : xs.Perm ys)
    (hys : ys.Pairwise fun a b => f a < f b) : xs.mergeSort (fun a b => f a ≤ f b) = ys := by
  have htrans (a b c : α) (hab : decide (f a ≤ f b)) (hbc : decide (f b ≤ f c)) :
      decide (f a ≤ f c) := by
    rw [decide_eq_true_eq] at hab hbc ⊢
    exact Nat.le_trans hab hbc
  have htotal (a b : α) : decide (f a ≤ f b) || decide (f b ≤ f a) := by
    rw [Bool.or_eq_true, decide_eq_true_eq, decide_eq_true_eq]
    exact Nat.le_total _ _
  have hsorted : (xs.mergeSort fun a b => f a ≤ f b).Pairwise fun a b => f a ≤ f b := by
    simpa using List.pairwise_mergeSort htrans htotal xs
  have hperm := (List.mergeSort_perm xs fun a b => f a ≤ f b).trans h
  refine List.Perm.eq_of_pairwise ?_ hsorted (hys.imp Nat.le_of_lt) hperm
  intro a b ha hb hab hba
  have hsymm : Std.Symm fun a b => f a ≠ f b := ⟨fun _ _ => Ne.symm⟩
  by_contra hne
  exact (hys.imp Nat.ne_of_lt).forall (hperm.mem_iff.1 ha) hb hne (Nat.le_antisymm hab hba)

def Patch.ofItem? : Item → Option Patch
  | .token t => ofToken? t
  | .error e => some (ofError e)

theorem Patch.ofItem?_span {item : Item} {patch : Patch} (h : ofItem? item = some patch) :
    patch.span = item.span := by
  cases item with
  | token t =>
    rw [ofItem?, ofToken?, Option.map_eq_some_iff] at h
    rcases h with ⟨color, -, rfl⟩
    rfl
  | error e =>
    cases h
    rfl

theorem Patch.ofItem?_item? (p : Piece) :
    p.item?.bind ofItem? = (Color.ofRole? p.role).map fun color => ⟨p.span, color⟩ := by
  unfold Piece.item?
  cases hrole : p.role with
  | blank => rfl
  | token kind => rfl
  | error cause => rfl

theorem perm_filterMap_ofItem? (items : List Item) :
    ((items.filterMap Item.token?).filterMap Patch.ofToken?
      ++ (items.filterMap Item.error?).map Patch.ofError).Perm (items.filterMap Patch.ofItem?) := by
  induction items with
  | nil => exact .nil
  | cons item items ih =>
    cases item with
    | token t =>
      simp only [List.filterMap_cons, Item.token?, Item.error?, Patch.ofItem?]
      cases Patch.ofToken? t with
      | none => exact ih
      | some patch => exact ih.cons patch
    | error e =>
      simp only [List.filterMap_cons, Item.token?, Item.error?, Patch.ofItem?, List.map_cons]
      exact List.perm_middle.trans (ih.cons _)

theorem patches_scan (line : String) :
    patches (scan line) = (items .start line.toList).filterMap Patch.ofItem? := by
  have hends : Patch.ofToken? (Token.endOf line) = none := rfl
  unfold patches
  rw [scan_tokens, scan_errors, List.filterMap_append, List.filterMap_cons_none hends,
    List.filterMap_nil, List.append_nil]
  apply mergeSort_eq_of_perm (fun p : Patch => p.span.start)
  . apply perm_filterMap_ofItem?
  . rw [List.pairwise_filterMap]
    apply (items_pairwise .start line.toList).imp
    intro item item' hlt patch hpatch patch' hpatch'
    rw [Patch.ofItem?_span hpatch, Patch.ofItem?_span hpatch']
    exact hlt.1

theorem patches_of_cut {role : Role} {text rest : List Char} (h : Cut role text rest)
    (start : Position) :
    (items start (text ++ rest)).filterMap Patch.ofItem? =
      ((Color.ofRole? role).map fun color => ⟨Piece.span ⟨role, text, start⟩, color⟩).toList
        ++ (items (start.advance text) rest).filterMap Patch.ofItem? := by
  rw [items_of_cut h, List.filterMap_append, ← Patch.ofItem?_item? ⟨role, text, start⟩]
  cases Piece.item? ⟨role, text, start⟩ with
  | none => rfl
  | some item =>
    rw [Option.toList_some, Option.bind_some, List.filterMap_cons, List.filterMap_nil]
    cases Patch.ofItem? item <;> rfl

theorem repaint?_cons {line before pending text rest : List Char}
    (hline : line = before ++ (pending ++ (text ++ rest))) (color : Color) (patches : List Patch) :
    repaint? line (Text.size before)
        (⟨⟨Text.size (before ++ pending), Text.size (before ++ pending ++ text)⟩, color⟩
          :: patches) =
      (repaint? line (Text.size (before ++ pending ++ text)) patches).map fun behind =>
        pending ++ color.around text ++ behind := by
  have hfront := Text.slice?_size_append before pending (text ++ rest)
  rw [← hline, ← Text.size_append] at hfront
  have hmiddle := Text.slice?_size_append (before ++ pending) text rest
  rw [List.append_assoc, ← hline, ← Text.size_append] at hmiddle
  rw [repaint?]
  dsimp only
  rw [hfront, hmiddle]
  cases repaint? line (Text.size (before ++ pending ++ text)) patches with
  | none => rfl
  | some behind => rfl

theorem repaint?_eq_some {line before pending : List Char} (cs : List Char)
    (hline : line = before ++ (pending ++ cs)) :
    repaint? line (Text.size before)
        ((items (Position.start.advance (before ++ pending)) cs).filterMap Patch.ofItem?) =
      some (pending ++ (pieces (Position.start.advance (before ++ pending)) cs).flatMap paint) := by
  -- `pending` is the text since the last coloured piece, which the next one or the end cuts off.
  induction cs using cut_induction generalizing before pending with
  | nil =>
    have hcut := Text.slice?_size_append before pending []
    rw [List.append_nil] at hline hcut
    simp [repaint?, hline, hcut]
  | @cut role text rest hcut ih =>
    rw [patches_of_cut hcut, pieces_of_cut hcut, List.flatMap_cons, ← Position.advance_append,
      paint]
    cases Color.ofRole? role with
    | none =>
      have hrest : line = before ++ ((pending ++ text) ++ rest) := by
        rw [hline, List.append_assoc]
      have hbehind := ih hrest
      rw [← List.append_assoc before, List.append_assoc pending] at hbehind
      exact hbehind
    | some color =>
      have hspan : Piece.span ⟨role, text, Position.start.advance (before ++ pending)⟩ =
          ⟨Text.size (before ++ pending), Text.size (before ++ pending ++ text)⟩ := by
        rw [Piece.span, Position.offset_advance_start, ← Text.size_append]
      have hrest : line = (before ++ pending ++ text) ++ ([] ++ rest) := by
        simp [hline]
      have hbehind := ih hrest
      rw [List.append_nil] at hbehind
      rw [hspan, Option.map_some, Option.toList_some, List.singleton_append,
        repaint?_cons hline, hbehind]
      simp

theorem highlight?_eq_some_highlight (line : String) : highlight? line = some (highlight line) := by
  have hrepaint := @repaint?_eq_some line.toList [] [] line.toList rfl
  rw [highlight?, patches_scan, highlight]
  exact congrArg (Option.map String.ofList) hrepaint

def cuts (stop cursor : Nat) : List Patch → List Span
  | [] => [⟨cursor, stop⟩]
  | patch :: patches =>
    ⟨cursor, patch.span.start⟩ :: patch.span :: cuts stop patch.span.stop patches

theorem inPlace_of_repaint? {line text : List Char} {cursor : Nat} {patches : List Patch}
    (h : repaint? line cursor patches = some text) :
    ∀ cut ∈ cuts (Text.size line) cursor patches, cut.InPlace line := by
  induction patches generalizing cursor text with
  | nil =>
    rw [repaint?] at h
    simpa [cuts] using Span.InPlace.of_slice? h
  | cons patch patches ih =>
    simp only [repaint?, Option.bind_eq_bind, Option.bind_eq_some_iff] at h
    rcases h with ⟨before, hbefore, middle, hmiddle, behind, hbehind, -⟩
    rw [cuts, List.forall_mem_cons, List.forall_mem_cons]
    exact ⟨.of_slice? hbefore, .of_slice? hmiddle, ih hbehind⟩

inductive Stretch where
  | between (text : List Char)
  | item (i : Item) (text : List Char)

namespace Stretch

def text : Stretch → List Char
  | between text => text
  | item _ text => text

def item? : Stretch → Option Item
  | between _ => none
  | item i _ => some i

def color? : Stretch → Option Color
  | between _ => none
  | item (.error _) _ => some .red
  | item (.token t) _ =>
    match t.kind with
    | .string _ => some .green
    | .number _ => some .yellow
    | .keyword _ => some .blue
    | _ => none

def painted (s : Stretch) : List Char :=
  match s.color? with
  | some color => color.around s.text
  | none => s.text

structure Partition (line : List Char) (stretches : List Stretch) : Prop where
  join : stretches.flatMap text = line
  placed : ∀ front i text back, stretches = front ++ item i text :: back →
    i.span.Holds line (front.flatMap Stretch.text) text (back.flatMap Stretch.text)

def ofPiece (p : Piece) : Stretch :=
  match p.item? with
  | some i => item i p.text
  | none => between p.text

section

variable (p : Piece)

theorem text_ofPiece : (ofPiece p).text = p.text := by
  unfold ofPiece
  split <;> rfl

theorem item?_ofPiece : (ofPiece p).item? = p.item? := by
  unfold ofPiece
  split
  . next h => exact h.symm
  . next h => exact h.symm

theorem painted_ofPiece : (ofPiece p).painted = paint p := by
  have hcolor : (ofPiece p).color? = Color.ofRole? p.role := by
    unfold ofPiece Piece.item?
    cases p.role with
    | blank => rfl
    | token kind => cases kind <;> rfl
    | error cause => rfl
  cases hrole : Color.ofRole? p.role with
  | none => simp [painted, paint, hcolor, hrole, text_ofPiece]
  | some color => simp [painted, paint, hcolor, hrole, text_ofPiece]

end

end Stretch

def stretches (line : List Char) : List Stretch :=
  (pieces .start line).map .ofPiece

theorem pieces_start {start : Position} {cs : List Char} {front back : List Piece} {p : Piece}
    (h : pieces start cs = front ++ p :: back) :
    p.start = start.advance (front.flatMap Piece.text) := by
  induction cs using cut_induction generalizing start front with
  | nil => simp at h
  | @cut role text rest hcut ih =>
    rw [pieces_of_cut hcut] at h
    cases front with
    | nil =>
      cases h
      simp
    | cons first front =>
      rw [List.cons_append, List.cons.injEq] at h
      rcases h with ⟨rfl, h⟩
      rw [ih h, List.flatMap_cons, Position.advance_append]

section

variable (line : String)

theorem flatMap_text_map_ofPiece (ps : List Piece) :
    (ps.map Stretch.ofPiece).flatMap Stretch.text = ps.flatMap Piece.text := by
  rw [List.flatMap_map]
  simp only [Stretch.text_ofPiece]

theorem stretches_partition : Stretch.Partition line.toList (stretches line.toList) where
  join := by
    rw [stretches, flatMap_text_map_ofPiece]
    apply pieces_flatMap_text
  placed := by
    intro front i text back h
    rcases List.map_eq_append_iff.1 h with ⟨ps, behind, hpieces, rfl, hbehind⟩
    rcases List.map_eq_cons_iff.1 hbehind with ⟨p, qs, rfl, hp, rfl⟩
    have htext : p.text = text := by
      rw [← Stretch.text_ofPiece, hp]
      rfl
    have hitem : p.item? = some i := by
      rw [← Stretch.item?_ofPiece, hp]
      rfl
    have hjoin := pieces_flatMap_text .start line.toList
    have hstart := pieces_start hpieces
    rw [hpieces, List.flatMap_append, List.flatMap_cons] at hjoin
    rw [flatMap_text_map_ofPiece, flatMap_text_map_ofPiece, ← htext]
    apply Piece.item?_holds hjoin.symm
    rw [← hstart]
    exact hitem

theorem stretches_filterMap_item? :
    (stretches line.toList).filterMap Stretch.item? = (scan line).items := by
  rw [stretches, List.filterMap_map, scan_items, items]
  congr
  funext p
  exact Stretch.item?_ofPiece p

theorem toList_highlight :
    (highlight line).toList = (stretches line.toList).flatMap Stretch.painted := by
  rw [highlight, String.toList_ofList, stretches, List.flatMap_map]
  simp only [Stretch.painted_ofPiece]

end

def marks : List (List Char) :=
  [Color.red.on, Color.green.on, Color.yellow.on, Color.blue.on, Color.off]

def uncolored (cs : List Char) : List Char :=
  match cs with
  | [] => []
  | c :: cs =>
    match marks.find? (·.isPrefixOf (c :: cs)) with
    | some mark => uncolored (cs.drop (mark.length - 1))
    | none => c :: uncolored cs
termination_by cs.length
decreasing_by
  . simp only [List.length_drop, List.length_cons]
    omega
  . exact Nat.lt_succ_self _

section

variable {text : List Char} (cs : List Char)

theorem uncolored_append_of_notMem (h : '\x1b' ∉ text) :
    uncolored (text ++ cs) = text ++ uncolored cs := by
  induction text with
  | nil => rfl
  | cons c text ih =>
    simp only [List.mem_cons, not_or] at h
    have hplain : marks.find? (·.isPrefixOf (c :: (text ++ cs))) = none := by
      simp [marks, Color.on, Color.off, List.isPrefixOf, h.1]
    rw [List.cons_append, uncolored, hplain, List.cons_append]
    exact congrArg (c :: ·) (ih h.2)

theorem uncolored_of_find? {c : Char} {ms : List Char}
    (h : marks.find? (·.isPrefixOf (c :: (ms ++ cs))) = some (c :: ms)) :
    uncolored (c :: (ms ++ cs)) = uncolored cs := by
  rw [uncolored, h]
  simp

theorem uncolored_mark {mark : List Char} (h : mark ∈ marks) :
    uncolored (mark ++ cs) = uncolored cs := by
  simp only [marks, List.mem_cons, List.not_mem_nil, or_false] at h
  rcases h with rfl | rfl | rfl | rfl | rfl
  all_goals exact uncolored_of_find? cs rfl

theorem uncolored_painted {s : Stretch} (h : '\x1b' ∉ s.text) :
    uncolored (s.painted ++ cs) = s.text ++ uncolored cs := by
  unfold Stretch.painted
  split
  . next color _ =>
    have hon : color.on ∈ marks := by cases color <;> simp [marks]
    have hoff : Color.off ∈ marks := by simp [marks]
    rw [Color.around, List.append_assoc, List.append_assoc, uncolored_mark _ hon,
      uncolored_append_of_notMem _ h, uncolored_mark _ hoff]
  . exact uncolored_append_of_notMem cs h

end

theorem uncolored_flatMap_painted {ss : List Stretch} (h : ∀ s ∈ ss, '\x1b' ∉ s.text) :
    uncolored (ss.flatMap Stretch.painted) = ss.flatMap Stretch.text := by
  induction ss with
  | nil => simp [uncolored]
  | cons s ss ih =>
    rw [List.forall_mem_cons] at h
    rw [List.flatMap_cons, List.flatMap_cons, uncolored_painted _ h.1, ih h.2]

section

variable {m : Char} {ms text : List Char} (cs : List Char)

theorem infix_append_iff_of_notMem (h : m ∉ text) :
    m :: ms <:+: text ++ cs ↔ m :: ms <:+: cs := by
  induction text with
  | nil => rfl
  | cons c text ih =>
    simp only [List.mem_cons, not_or] at h
    rw [List.cons_append, List.infix_cons_iff, List.cons_prefix_cons, ih h.2]
    simp [h.1]

theorem red_infix_append_iff (h : '\x1b' ∉ text) :
    Color.red.on <:+: text ++ cs ↔ Color.red.on <:+: cs :=
  infix_append_iff_of_notMem cs h

theorem red_infix_off_iff : Color.red.on <:+: Color.off ++ cs ↔ Color.red.on <:+: cs := by
  simp [Color.on, Color.off, List.infix_cons_iff, List.cons_prefix_cons]

theorem red_infix_on_iff (color : Color) :
    Color.red.on <:+: color.on ++ cs ↔ color = .red ∨ Color.red.on <:+: cs := by
  cases color <;> simp [Color.on, List.infix_cons_iff, List.cons_prefix_cons]

theorem red_infix_painted_iff {s : Stretch} (h : '\x1b' ∉ s.text) :
    Color.red.on <:+: s.painted ++ cs ↔ s.color? = some .red ∨ Color.red.on <:+: cs := by
  unfold Stretch.painted
  split
  . next color hcolor =>
    rw [Color.around, List.append_assoc, List.append_assoc, red_infix_on_iff,
      red_infix_append_iff _ h, red_infix_off_iff, hcolor, Option.some.injEq]
  . next hcolor =>
    rw [red_infix_append_iff _ h, hcolor]
    simp

end

theorem red_infix_flatMap_painted_iff {ss : List Stretch} (h : ∀ s ∈ ss, '\x1b' ∉ s.text) :
    Color.red.on <:+: ss.flatMap Stretch.painted ↔ ∃ s ∈ ss, s.color? = some .red := by
  induction ss with
  | nil => simp [Color.on]
  | cons s ss ih =>
    rw [List.forall_mem_cons] at h
    rw [List.flatMap_cons, red_infix_painted_iff _ h.1, ih h.2, List.exists_mem_cons_iff]

theorem Stretch.color?_eq_red_iff {s : Stretch} :
    s.color? = some .red ↔ ∃ e, s.item? = some (.error e) := by
  cases s with
  | between text => simp [color?, item?]
  | item i text =>
    cases i with
    | error e => simp [color?, item?]
    | token t =>
      simp only [color?, item?]
      split <;> simp

section

variable {line : String}

theorem exists_red_iff :
    (∃ s ∈ stretches line.toList, s.color? = some .red)
      ↔
    ∃ errors, tokenize line = .error errors := by
  have hmem (e : LexError) :
      e ∈ (scan line).errors ↔ ∃ s ∈ stretches line.toList, s.item? = some (.error e) := by
    rw [scan_errors, Item.mem_filterMap_error?_iff, ← scan_items, ← stretches_filterMap_item?,
      List.mem_filterMap]
  constructor
  . rintro ⟨s, hs, hred⟩
    rcases Stretch.color?_eq_red_iff.1 hred with ⟨e, he⟩
    refine ⟨_, tokenize_eq_error_iff.2 ⟨?_, rfl⟩⟩
    exact List.ne_nil_of_mem ((hmem e).2 ⟨s, hs, he⟩)
  . rintro ⟨errors, herrors⟩
    rcases List.exists_mem_of_ne_nil _ (tokenize_eq_error_iff.1 herrors).1 with ⟨e, he⟩
    rcases (hmem e).1 he with ⟨s, hs, hitem⟩
    exact ⟨s, hs, Stretch.color?_eq_red_iff.2 ⟨e, hitem⟩⟩

theorem notMem_text_of_mem_stretches {c : Char} (h : c ∉ line.toList) :
    ∀ s ∈ stretches line.toList, c ∉ s.text := by
  intro s hs hc
  apply h
  rw [← (stretches_partition line).join]
  exact List.mem_flatMap.2 ⟨s, hs, hc⟩

end

/--
No cut of the colouring is out of place. The coloured line is made of the stretches of the line, the
tokens and errors of the scan among them, with marks around those that have a colour. If there is no
escape character in the line, then without the marks the line is the same, and red tells its errors.
-/
theorem highlighting_paints_stretches (line : String) :
    (∀ cut ∈ cuts line.utf8ByteSize 0 (patches (scan line)), cut.InPlace line.toList)
      ∧ ∃ ss text, highlight? line = some text
        ∧ Stretch.Partition line.toList ss
        ∧ ss.filterMap Stretch.item? = (scan line).items
        ∧ text.toList = ss.flatMap Stretch.painted
        ∧ ('\x1b' ∉ line.toList →
            uncolored text.toList = line.toList
              ∧ (Color.red.on <:+: text.toList ↔ ∃ errors, tokenize line = .error errors)) := by
  have hhighlight := highlight?_eq_some_highlight line
  constructor
  . rcases Option.map_eq_some_iff.1 hhighlight with ⟨text, htext, -⟩
    rw [← Text.size_toList]
    exact inPlace_of_repaint? htext
  refine ⟨stretches line.toList, highlight line, hhighlight, stretches_partition line,
    stretches_filterMap_item? line, toList_highlight line, ?_⟩
  intro hescape
  have hplain := notMem_text_of_mem_stretches hescape
  rw [toList_highlight]
  constructor
  . rw [uncolored_flatMap_painted hplain]
    exact (stretches_partition line).join
  . rw [red_infix_flatMap_painted_iff hplain]
    exact exists_red_iff

def colorfulLine : String := "ніщо+\"а\"@"

def colorfulText : String := "\x1b[34mніщо\x1b[0m+\x1b[32m\"а\"\x1b[0m\x1b[31m@\x1b[0m"

theorem highlight?_colorfulLine : highlight? colorfulLine = some colorfulText := by
  rw [highlight?_eq_some_highlight]
  decide +kernel

theorem highlighting_paints_stretches_colorfulLine :
    '\x1b' ∉ colorfulLine.toList
      ∧ highlight? colorfulLine = some colorfulText
      ∧ uncolored colorfulText.toList = colorfulLine.toList
      ∧ tokenize colorfulLine = .error [⟨.unexpectedCharacter, ⟨13, 14⟩, 1⟩]
      ∧ Color.red.on <:+: colorfulText.toList := by
  have hescape : '\x1b' ∉ colorfulLine.toList := by simp [colorfulLine]
  have hline := highlight?_colorfulLine
  have htokenize : tokenize colorfulLine = .error [⟨.unexpectedCharacter, ⟨13, 14⟩, 1⟩] := by
    rw [tokenize_eq_error_iff]
    have herrors : (scan colorfulLine).errors = [⟨.unexpectedCharacter, ⟨13, 14⟩, 1⟩] := by
      decide +kernel
    simp [herrors]
  rcases highlighting_paints_stretches colorfulLine with ⟨-, ss, text, htext, -, -, -, hplain⟩
  rw [hline, Option.some.injEq] at htext
  rw [← htext] at hplain
  rcases hplain hescape with ⟨huncolored, hred⟩
  exact ⟨hescape, hline, huncolored, htokenize, hred.2 ⟨_, htokenize⟩⟩

end Prompt
end Vyraz
