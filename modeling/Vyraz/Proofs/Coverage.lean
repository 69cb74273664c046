import Mathlib.Data.List.Sort
import Vyraz.Proofs.Cut

namespace Vyraz

structure Span.Holds (span : Span) (source before text after : List Char) : Prop where
  split : source = before ++ (text ++ after)
  start : span.start = Text.size before
  stop : span.stop = Text.size before + Text.size text

namespace Span.Holds

variable {span : Span} {source before text after : List Char}

theorem isBoundary_start (h : span.Holds source before text after) :
    Text.isBoundary span.start source := by
  rw [h.split, h.start]
  apply Text.isBoundary_size_append

theorem isBoundary_stop (h : span.Holds source before text after) :
    Text.isBoundary span.stop source := by
  rw [h.split, h.stop, ← Text.size_append, ← List.append_assoc]
  apply Text.isBoundary_size_append

theorem slice? (h : span.Holds source before text after) :
    Text.slice? span.start span.stop source = some text := by
  rw [h.split, h.start, h.stop]
  apply Text.slice?_size_append

theorem stop_le (h : span.Holds source before text after) : span.stop ≤ Text.size source := by
  rw [h.split, h.stop]
  simp only [Text.size_append]
  omega

theorem start_lt_stop (h : span.Holds source before text after) (hne : text ≠ []) :
    span.start < span.stop := by
  have := Text.size_pos_of_ne_nil hne
  rw [h.start, h.stop]
  omega

end Span.Holds

inductive Item where
  | token (t : Token)
  | error (e : LexError)

namespace Item

def span : Item → Span
  | token t => t.span
  | error e => e.span

def token? : Item → Option Token
  | token t => some t
  | error _ => none

def error? : Item → Option LexError
  | token _ => none
  | error e => some e

end Item

def Scanned.items (s : Scanned) : List Item :=
  List.merge ((s.tokens.filter fun t => !t.kind.isEof).map .token) (s.errors.map .error)
    fun a b => a.span.start ≤ b.span.start

section

variable {α : Type} {le : α → α → Bool} {x : α} {xs ys : List α}

theorem merge_cons_left (h : ∀ y ∈ ys, le x y) :
    List.merge (x :: xs) ys le = x :: List.merge xs ys le := by
  cases ys with
  | nil => simp
  | cons y ys => rw [List.cons_merge_cons_pos _ _ _ (h y List.mem_cons_self)]

theorem merge_cons_right (h : ∀ y ∈ ys, le y x = false) :
    List.merge ys (x :: xs) le = x :: List.merge ys xs le := by
  cases ys with
  | nil => simp
  | cons y ys =>
    rw [List.cons_merge_cons_neg]
    simp [h y List.mem_cons_self]

end

theorem Item.mem_of_token {items : List Item} {item : Item}
    (h : item ∈ (items.filterMap token?).map token) : item ∈ items := by
  simp only [List.mem_map, List.mem_filterMap] at h
  rcases h with ⟨t, ⟨other, hother, ht⟩, rfl⟩
  cases other with
  | token t' =>
    cases ht
    assumption
  | error e => contradiction

theorem Item.mem_of_error {items : List Item} {item : Item}
    (h : item ∈ (items.filterMap error?).map error) : item ∈ items := by
  simp only [List.mem_map, List.mem_filterMap] at h
  rcases h with ⟨e, ⟨other, hother, he⟩, rfl⟩
  cases other with
  | token t => contradiction
  | error e' =>
    cases he
    assumption

theorem merge_items {items : List Item}
    (h : items.Pairwise fun a b => a.span.start < b.span.start) :
    List.merge ((items.filterMap Item.token?).map .token) ((items.filterMap Item.error?).map .error)
      (fun a b => a.span.start ≤ b.span.start) = items := by
  induction items with
  | nil => simp
  | cons item items ih =>
    rw [List.pairwise_cons] at h
    cases item with
    | token t =>
      simp only [Item.token?, Item.error?, List.filterMap_cons, List.map_cons]
      rw [merge_cons_left, ih h.2]
      intro other hother
      have := h.1 other (Item.mem_of_error hother)
      simp only [decide_eq_true_eq]
      omega
    | error e =>
      simp only [Item.token?, Item.error?, List.filterMap_cons, List.map_cons]
      rw [merge_cons_right, ih h.2]
      intro other hother
      have := h.1 other (Item.mem_of_token hother)
      simp only [decide_eq_false_iff_not]
      omega

namespace Scan

def Piece.item? (p : Piece) : Option Item :=
  match p.role with
  | .blank => none
  | .token kind => some (.token ⟨kind, String.ofList p.text, p.span, p.start.line⟩)
  | .error cause => some (.error ⟨cause, p.span, p.start.line⟩)

def items (start : Position) (cs : List Char) : List Item :=
  (pieces start cs).filterMap Piece.item?

@[simp]
theorem items_nil (start : Position) : items start [] = [] := by
  simp [items]

theorem items_of_cut {role : Role} {text rest : List Char} (h : Cut role text rest)
    (start : Position) :
    items start (text ++ rest) =
      (Piece.item? ⟨role, text, start⟩).toList ++ items (start.advance text) rest := by
  rw [items, pieces_of_cut h]
  cases hitem : Piece.item? ⟨role, text, start⟩ with
  | none => rw [List.filterMap_cons_none hitem]; rfl
  | some item => rw [List.filterMap_cons_some hitem]; rfl

theorem items_filterMap_token? (start : Position) (cs : List Char) :
    (items start cs).filterMap Item.token? = (pieces start cs).filterMap Piece.token? := by
  rw [items, List.filterMap_filterMap]
  congr
  funext p
  cases hrole : p.role <;> simp [Piece.item?, Piece.token?, Item.token?, hrole]

theorem items_filterMap_error? (start : Position) (cs : List Char) :
    (items start cs).filterMap Item.error? = (pieces start cs).filterMap Piece.error? := by
  rw [items, List.filterMap_filterMap]
  congr
  funext p
  cases hrole : p.role <;> simp [Piece.item?, Piece.error?, Item.error?, hrole]

theorem Position.offset_advance_start (before : List Char) :
    (Position.start.advance before).offset = Text.size before := by
  simp [Position.advance, Position.start]

theorem Position.line_advance_start (before : List Char) :
    (Position.start.advance before).line = 1 + before.count '\n' := by
  simp [Position.advance, Position.start]

theorem Piece.item?_span {p : Piece} {item : Item} (h : p.item? = some item) :
    item.span = p.span := by
  unfold Piece.item? at h
  split at h
  . contradiction
  . cases h
    rfl
  . cases h
    rfl

theorem exists_cut_of_mem_items {start : Position} {cs : List Char} {item : Item}
    (h : item ∈ items start cs) :
    ∃ before role text after, cs = before ++ (text ++ after) ∧ Cut role text after
      ∧ Piece.item? ⟨role, text, start.advance before⟩ = some item := by
  induction cs using cut_induction generalizing start with
  | nil => simp at h
  | @cut role text rest hcut ih =>
    rw [items_of_cut hcut, List.mem_append] at h
    rcases h with h | h
    . exact ⟨[], role, text, rest, rfl, hcut, Option.mem_toList.1 h⟩
    . rcases ih h with ⟨before, role', text', after, rfl, hcut', hitem⟩
      rw [← Position.advance_append] at hitem
      refine ⟨text ++ before, role', text', after, ?_, hcut', hitem⟩
      rw [List.append_assoc]

end Scan

structure Token.CutFrom (t : Token) (source before text after : List Char) : Prop where
  cut : Scan.Cut (.token t.kind) text after
  holds : t.span.Holds source before text after
  lexeme : t.lexeme = String.ofList text
  line : t.line = 1 + before.count '\n'

structure LexError.CutFrom (e : LexError) (source before text after : List Char) : Prop where
  cut : Scan.Cut (.error e.cause) text after
  holds : e.span.Holds source before text after
  line : e.line = 1 + before.count '\n'

namespace Scan

section

variable {source before text after : List Char} {role : Role} {item : Item}

theorem Piece.item?_holds (hsource : source = before ++ (text ++ after))
    (h : Piece.item? ⟨role, text, Position.start.advance before⟩ = some item) :
    item.span.Holds source before text after := by
  rw [Piece.item?_span h]
  constructor
  . assumption
  . apply Position.offset_advance_start
  . rw [Piece.span, Position.offset_advance_start]

theorem exists_cutFrom_of_token_mem {t : Token} (h : .token t ∈ items .start source) :
    ∃ before text after, t.CutFrom source before text after := by
  rcases exists_cut_of_mem_items h with ⟨before, role, text, after, hsource, hcut, hitem⟩
  have hholds := Piece.item?_holds hsource hitem
  cases role with
  | token kind =>
    cases hitem
    exact ⟨before, text, after, hcut, hholds, rfl, Position.line_advance_start before⟩
  | _ => cases hitem

theorem exists_cutFrom_of_error_mem {e : LexError} (h : .error e ∈ items .start source) :
    ∃ before text after, e.CutFrom source before text after := by
  rcases exists_cut_of_mem_items h with ⟨before, role, text, after, hsource, hcut, hitem⟩
  have hholds := Piece.item?_holds hsource hitem
  cases role with
  | error cause =>
    cases hitem
    exact ⟨before, text, after, hcut, hholds, Position.line_advance_start before⟩
  | _ => cases hitem

end

theorem items_pairwise (start : Position) (cs : List Char) :
    (items start cs).Pairwise fun a b =>
      a.span.start < b.span.start ∧ a.span.stop ≤ b.span.start := by
  induction cs using cut_induction generalizing start with
  | nil => simp
  | @cut role text rest hcut ih =>
    rw [items_of_cut hcut]
    cases hitem : Piece.item? ⟨role, text, start⟩ with
    | none => apply ih
    | some item =>
      rw [Option.toList_some, List.singleton_append, List.pairwise_cons]
      refine ⟨?_, ih _⟩
      intro other hother
      rcases exists_cut_of_mem_items hother with ⟨before, _, _, _, -, -, hother⟩
      rw [Piece.item?_span hitem, Piece.item?_span hother]
      have := Text.size_pos_of_ne_nil hcut.text_ne_nil
      simp only [Piece.span, Position.advance]
      omega

inductive Skipped : List Char → List Char → Prop where
  | nil {after : List Char} : Skipped [] after
  | blank {c : Char} {text after : List Char} (hc : isBlank c) (h : Skipped text after) :
    Skipped (c :: text) after
  | comment {body text after : List Char} (hbody : '\n' ∉ body)
    (hend : ∀ c ∈ (text ++ after).head?, c = '\n') (h : Skipped text after) :
    Skipped ('/' :: '/' :: (body ++ text)) after

theorem Skipped.append {as bs after : List Char} (has : Skipped as (bs ++ after))
    (hbs : Skipped bs after) : Skipped (as ++ bs) after := by
  generalize hafter : bs ++ after = following at has
  induction has with
  | nil => exact hbs
  | blank hc _ ih => exact .blank hc (ih hafter)
  | comment hbody hend _ ih =>
    subst hafter
    rw [List.cons_append, List.cons_append, List.append_assoc]
    refine .comment hbody ?_ (ih rfl)
    rw [List.append_assoc]
    assumption

theorem skipped_of_cut {text rest : List Char} (h : Cut .blank text rest) : Skipped text rest := by
  cases h with
  | blank hne hall hstop =>
    clear hne
    induction text with
    | nil => exact .nil
    | cons c text ih =>
      rw [List.forall_mem_cons] at hall
      exact .blank hall.1 (ih hall.2)
  | @comment body _ hbody hstop =>
    have : Skipped ('/' :: '/' :: (body ++ [])) rest := .comment hbody hstop .nil
    simpa using this

end Scan

def gaps (start stop : Nat) : List Span → List Span
  | [] => [⟨start, stop⟩]
  | span :: spans => ⟨start, span.start⟩ :: gaps span.stop stop spans

def Span.Skips (span : Span) (source : List Char) : Prop :=
  ∃ before text after, span.Holds source before text after ∧ Scan.Skipped text after

namespace Scan

theorem gaps_items_skips {source before pending : List Char} (cs : List Char)
    (hsource : source = before ++ (pending ++ cs)) (hpending : Skipped pending cs) :
    ∀ gap ∈ gaps (Text.size before) (Text.size source)
      ((items (Position.start.advance (before ++ pending)) cs).map Item.span),
      gap.Skips source := by
  -- `pending` is the text since the last item, which the next item or the end makes a gap.
  induction cs using cut_induction generalizing before pending with
  | nil =>
    simp only [items_nil, List.map_nil, gaps, List.mem_singleton, forall_eq]
    refine ⟨before, pending, [], ⟨hsource, rfl, ?_⟩, hpending⟩
    simp [hsource]
  | @cut role text rest hcut ih =>
    rw [items_of_cut hcut, ← Position.advance_append]
    cases hitem : Piece.item? ⟨role, text, Position.start.advance (before ++ pending)⟩ with
    | none =>
      have hblank : role = .blank := by
        cases role with
        | blank => rfl
        | _ => cases hitem
      subst hblank
      have hlonger : Skipped (pending ++ text) rest := hpending.append (skipped_of_cut hcut)
      rw [List.append_assoc]
      apply ih
      . rw [hsource, List.append_assoc]
      . assumption
    | some item =>
      have hholds : item.span.Holds source (before ++ pending) text rest := by
        apply Piece.item?_holds
        . rw [hsource, List.append_assoc]
        . exact hitem
      rw [Option.toList_some, List.singleton_append, List.map_cons, gaps, List.forall_mem_cons]
      constructor
      . refine ⟨before, pending, text ++ rest, ⟨hsource, rfl, ?_⟩, hpending⟩
        rw [hholds.start, Text.size_append]
      . have hrest : source = (before ++ pending ++ text) ++ ([] ++ rest) := by
          simp [hsource]
        have := ih hrest .nil
        rw [List.append_nil, Text.size_append, ← hholds.stop] at this
        exact this

end Scan

theorem Item.mem_filterMap_token?_iff {items : List Item} {t : Token} :
    t ∈ items.filterMap token? ↔ token t ∈ items := by
  constructor
  . intro h
    exact mem_of_token (List.mem_map_of_mem h)
  . intro h
    exact List.mem_filterMap.2 ⟨token t, h, rfl⟩

theorem Item.mem_filterMap_error?_iff {items : List Item} {e : LexError} :
    e ∈ items.filterMap error? ↔ error e ∈ items := by
  constructor
  . intro h
    exact mem_of_error (List.mem_map_of_mem h)
  . intro h
    exact List.mem_filterMap.2 ⟨error e, h, rfl⟩

section

variable (source : String)

theorem scan_tokens :
    (scan source).tokens =
      (Scan.items .start source.toList).filterMap Item.token? ++ [Token.endOf source] := by
  rw [Scan.items_filterMap_token?]
  rfl

theorem scan_errors :
    (scan source).errors = (Scan.items .start source.toList).filterMap Item.error? := by
  rw [Scan.items_filterMap_error?]
  rfl

theorem endOf_span : (Token.endOf source).span = ⟨source.utf8ByteSize, source.utf8ByteSize⟩ := by
  rw [Token.endOf]
  simp only [Scan.Position.offset_advance_start, Text.size_toList]

end

variable {source : String} {t : Token} {e : LexError}

theorem isEof_of_mem_items
    (h : t ∈ (Scan.items .start source.toList).filterMap Item.token?) : t.kind.isEof = false := by
  rw [Item.mem_filterMap_token?_iff] at h
  rcases Scan.exists_cutFrom_of_token_mem h with ⟨_, _, _, hfrom⟩
  exact hfrom.cut.isEof

theorem scan_tokens_filter (source : String) :
    ((scan source).tokens.filter fun t => !t.kind.isEof) =
      (Scan.items .start source.toList).filterMap Item.token? := by
  have hends : (Token.endOf source).kind.isEof = true := rfl
  rw [scan_tokens, List.filter_append]
  rw [List.filter_eq_self.2]
  . simp [hends]
  . intro t ht
    simp [isEof_of_mem_items ht]

theorem scan_items (source : String) :
    (scan source).items = Scan.items .start source.toList := by
  rw [Scanned.items, scan_tokens_filter, scan_errors]
  apply merge_items
  apply (Scan.items_pairwise .start source.toList).imp
  intro a b h
  exact h.1

theorem exists_cutFrom_of_mem_tokens (h : t ∈ (scan source).tokens)
    (heof : t.kind.isEof = false) :
    ∃ before text after, t.CutFrom source.toList before text after := by
  have : t ∈ (scan source).tokens.filter fun t => !t.kind.isEof :=
    List.mem_filter.2 ⟨h, by simp [heof]⟩
  rw [scan_tokens_filter, Item.mem_filterMap_token?_iff] at this
  exact Scan.exists_cutFrom_of_token_mem this

theorem exists_cutFrom_of_mem_errors (h : e ∈ (scan source).errors) :
    ∃ before text after, e.CutFrom source.toList before text after := by
  rw [scan_errors, Item.mem_filterMap_error?_iff] at h
  exact Scan.exists_cutFrom_of_error_mem h

theorem exists_holds_of_mem_items {item : Item} (h : item ∈ (scan source).items) :
    ∃ before text after, item.span.Holds source.toList before text after ∧ text ≠ [] := by
  rw [scan_items] at h
  rcases Scan.exists_cut_of_mem_items h with ⟨before, role, text, after, hsource, hcut, hitem⟩
  exact ⟨before, text, after, Scan.Piece.item?_holds hsource hitem, hcut.text_ne_nil⟩

theorem slice?_of_mem_tokens (h : t ∈ (scan source).tokens) :
    Text.slice? t.span.start t.span.stop source.toList = some t.lexeme.toList := by
  cases heof : t.kind.isEof with
  | false =>
    rcases exists_cutFrom_of_mem_tokens h heof with ⟨before, text, after, hfrom⟩
    rw [hfrom.holds.slice?, hfrom.lexeme, String.toList_ofList]
  | true =>
    rw [scan_tokens, List.mem_append, List.mem_singleton] at h
    rcases h with h | rfl
    . rw [isEof_of_mem_items h] at heof
      contradiction
    . have hend := Text.slice?_size_append source.toList [] []
      have hlexeme : (Token.endOf source).lexeme.toList = [] := by simp [Token.endOf]
      rw [endOf_span, ← Text.size_toList, hlexeme]
      simpa using hend

theorem scan_gaps_skips (source : String) :
    ∀ gap ∈ gaps 0 source.utf8ByteSize ((scan source).items.map Item.span),
      gap.Skips source.toList := by
  have hsource : source.toList = [] ++ ([] ++ source.toList) := rfl
  rw [scan_items, ← Text.size_toList]
  exact Scan.gaps_items_skips source.toList hsource .nil

/-- A scan accounts for a source if it leaves nothing out of it and says nothing twice. -/
structure Scanned.AccountsFor (s : Scanned) (source : String) : Prop where
  tokens_in_order : s.items.filterMap Item.token? = s.tokens.filter fun t => !t.kind.isEof
  errors_in_order : s.items.filterMap Item.error? = s.errors
  increasing : s.items.Pairwise fun a b =>
    a.span.start < b.span.start ∧ a.span.stop ≤ b.span.start
  nonempty : ∀ item ∈ s.items, item.span.start < item.span.stop
  inside : ∀ item ∈ s.items, item.span.stop ≤ source.utf8ByteSize
  on_boundaries : ∀ item ∈ s.items,
    Text.isBoundary item.span.start source.toList ∧ Text.isBoundary item.span.stop source.toList
  lexemes : ∀ t ∈ s.tokens,
    Text.slice? t.span.start t.span.stop source.toList = some t.lexeme.toList
  between : ∀ gap ∈ gaps 0 source.utf8ByteSize (s.items.map Item.span), gap.Skips source.toList
  ending : ∃ front marker, s.tokens = front ++ [marker] ∧ (∀ t ∈ front, t.kind ≠ .eof)
    ∧ marker.kind = .eof ∧ marker.lexeme = ""
    ∧ marker.span = ⟨source.utf8ByteSize, source.utf8ByteSize⟩

theorem scan_accountsFor (source : String) : (scan source).AccountsFor source where
  tokens_in_order := by rw [scan_items, scan_tokens_filter]
  errors_in_order := by rw [scan_items, scan_errors]
  increasing := by
    rw [scan_items]
    apply Scan.items_pairwise
  nonempty := by
    intro item hitem
    rcases exists_holds_of_mem_items hitem with ⟨_, _, _, hholds, hne⟩
    exact hholds.start_lt_stop hne
  inside := by
    intro item hitem
    rcases exists_holds_of_mem_items hitem with ⟨_, _, _, hholds, -⟩
    rw [← Text.size_toList]
    exact hholds.stop_le
  on_boundaries := by
    intro item hitem
    rcases exists_holds_of_mem_items hitem with ⟨_, _, _, hholds, -⟩
    exact ⟨hholds.isBoundary_start, hholds.isBoundary_stop⟩
  lexemes := by
    intro t ht
    exact slice?_of_mem_tokens ht
  between := scan_gaps_skips source
  ending := by
    refine ⟨_, Token.endOf source, scan_tokens source, ?_, rfl, rfl, endOf_span source⟩
    intro t ht heof
    have := isEof_of_mem_items ht
    rw [heof] at this
    contradiction

end Vyraz
