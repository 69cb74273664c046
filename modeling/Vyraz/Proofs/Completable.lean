import Vyraz.Proofs.Ending
import Vyraz.Proofs.Turn

namespace Vyraz

def Kind.excess : Kind → Int
  | .symbol .leftParen => 1
  | .symbol .rightParen => -1
  | _ => 0

namespace Prompt

def excess (tokens : List Token) : Int :=
  tokens.foldr (fun t n => t.kind.excess + n) 0

def Matched (tokens : List Token) : Prop :=
  ∀ front, front <+: tokens → 0 ≤ excess front

section

variable {depth : Nat} {t : Token} {tokens : List Token}

@[simp]
theorem excess_nil : excess [] = 0 := rfl

@[simp]
theorem excess_cons : excess (t :: tokens) = t.kind.excess + excess tokens := rfl

theorem climb?_eq (depth : Nat) (t : Token) :
    climb? depth t =
      if 0 ≤ depth + t.kind.excess then some (depth + t.kind.excess).toNat else none := by
  by_cases hleft : t.kind = .symbol .leftParen
  . have hexcess : t.kind.excess = 1 := by rw [hleft]; rfl
    rw [climb?_leftParen hleft, hexcess, if_pos (by omega)]
    rfl
  by_cases hright : t.kind = .symbol .rightParen
  . have hexcess : t.kind.excess = -1 := by rw [hright]; rfl
    rw [climb?_rightParen hright, hexcess]
    by_cases hzero : depth = 0
    . rw [if_pos hzero, if_neg (by omega)]
    . rw [if_neg hzero, if_pos (by omega)]
      simp only [Option.some.injEq]
      omega
  . have hexcess : t.kind.excess = 0 := by
      unfold Kind.excess
      split
      . contradiction
      . contradiction
      . rfl
    rw [climb?_other hleft hright, hexcess, if_pos (by omega)]
    simp

theorem isSome_openBehind?_iff :
    (openBehind? depth tokens).isSome ↔ ∀ front, front <+: tokens → 0 ≤ depth + excess front := by
  induction tokens generalizing depth with
  | nil => simp
  | cons t tokens ih =>
    rw [openBehind?_cons, climb?_eq]
    simp only [List.prefix_cons_iff]
    split
    . next h =>
      rw [Option.bind_some, ih, Int.toNat_of_nonneg h]
      constructor
      . rintro hfront _ (rfl | ⟨front, rfl, hprefix⟩)
        . simp
        . have := hfront front hprefix
          rw [excess_cons]
          omega
      . intro hfront front hprefix
        have := hfront (t :: front) (.inr ⟨front, rfl, hprefix⟩)
        rw [excess_cons] at this
        omega
    . next h =>
      simp only [Option.bind_none, Option.isSome_none, Bool.false_eq_true, false_iff]
      intro hfront
      have := hfront [t] (.inr ⟨[], rfl, List.nil_prefix⟩)
      simp only [excess_cons, excess_nil] at this
      omega

theorem matched_iff_isSome : Matched tokens ↔ (openBehind? 0 tokens).isSome := by
  rw [isSome_openBehind?_iff]
  simp [Matched]

end

theorem matched_scan_iff (text : String) :
    Matched (scan text).tokens ↔ (Ending.start.after? text.toList).isSome := by
  rcases exists_ends_scan text with ⟨inside, hafter, -⟩
  rw [matched_iff_isSome, hafter, Option.isSome_map]

namespace Ending

def closer (e : Ending) : List Char :=
  (if e.inside = .string then '"' else '\n') :: List.replicate e.depth ')'

theorem after?_replicate (n : Nat) :
    after? ⟨.code, n⟩ (List.replicate n ')') = some ⟨.code, 0⟩ := by
  induction n with
  | zero => rfl
  | succ n ih =>
    rw [List.replicate_succ, after?_cons]
    exact ih

theorem after?_closer (e : Ending) : e.after? e.closer = some ⟨.code, 0⟩ := by
  have hnext : e.next? (if e.inside = .string then '"' else '\n') = some ⟨.code, e.depth⟩ := by
    rcases e with ⟨inside, depth⟩
    cases inside <;> rfl
  rw [closer, after?_cons, hnext]
  exact after?_replicate e.depth

end Ending

theorem exists_complete_iff (text : String) :
    (∃ more, Balance.ofText (text ++ more) = .complete) ↔ Matched (scan text).tokens := by
  rw [matched_scan_iff, Option.isSome_iff_exists]
  constructor
  . rintro ⟨more, hwhole⟩
    rcases Balance.ofText_eq_complete_iff.1 hwhole with ⟨inside, -, hafter⟩
    rw [String.toList_append, Ending.after?_append, Option.bind_eq_some_iff] at hafter
    rcases hafter with ⟨e, he, -⟩
    exact ⟨e, he⟩
  . rintro ⟨e, he⟩
    refine ⟨String.ofList e.closer, ?_⟩
    rw [Balance.ofText_eq_complete_iff]
    refine ⟨.code, by simp, ?_⟩
    rw [String.toList_append, String.toList_ofList, Ending.after?_append, he]
    exact e.after?_closer

theorem isSome_after?_append {gap : List Char} (h : ∀ c ∈ gap, c ∉ Ending.marks)
    (cs : List Char) :
    (Ending.start.after? (cs ++ gap)).isSome = (Ending.start.after? cs).isSome := by
  rw [Ending.after?_append]
  cases Ending.start.after? cs with
  | none => rfl
  | some e =>
    rcases e.exists_after?_of_notMem h with ⟨inside, hafter, -⟩
    rw [Option.bind_some, hafter]
    rfl

theorem mem_lineEnd {cs : List Char} {c : Char} (h : c ∈ (Text.cutLineEnd cs).2) :
    c = '\r' ∨ c = '\n' := by
  unfold Text.cutLineEnd at h
  split at h
  . simpa using h
  . simp only [List.mem_singleton] at h
    exact .inr h
  . simp at h

theorem isSome_after?_cutLineEnd (cs : List Char) :
    (Ending.start.after? (Text.cutLineEnd cs).1).isSome = (Ending.start.after? cs).isSome := by
  have hlineEnd : ∀ c ∈ (Text.cutLineEnd cs).2, c ∉ Ending.marks := by
    intro c hc
    rcases mem_lineEnd hc with rfl | rfl
    . decide
    . decide
  rw [← isSome_after?_append hlineEnd, Text.cutLineEnd_append]

namespace Session

def complaints (offsets : List Nat) : String :=
  String.join (offsets.map fun offset => (Balance.unmatched offset).complaint?.getD "")

theorem complaints_append (as bs : List Nat) :
    complaints (as ++ bs) = complaints as ++ complaints bs := by
  simp [complaints, String.join_append]

structure Blocked (text : List Char) : Prop where
  unmatched : Ending.start.after? text = none
  edited : Text.backspace ∉ text

section

variable {s : Session}

theorem Blocked.append {buffer more : List Char} (h : Blocked buffer)
    (hmore : Text.backspace ∉ more) : Blocked (buffer ++ more) := by
  constructor
  . rw [Ending.after?_append, h.unmatched]
    rfl
  . simp [h.edited, hmore]

theorem ask_of_blocked (h : Blocked s.buffer) (plain : Bool) : s.ask plain = .empty := by
  have hne : s.buffer.isEmpty = false := by
    rw [List.isEmpty_eq_false_iff]
    intro hnil
    have := h.unmatched
    rw [hnil] at this
    contradiction
  simp [ask, hne]

theorem judge_of_blocked {text : List Char} (h : Blocked text) (history : History)
    {lineEnd : List Char} (hlineEnd : Text.backspace ∉ lineEnd) :
    ∃ s' offsets, (judge history text lineEnd).next = .goesOn s' ∧ Blocked s'.buffer
      ∧ s'.history = history
      ∧ (judge history text lineEnd).transcript = .ofErrors (complaints offsets) := by
  cases hbalance : Balance.ofText (String.ofList text) with
  | complete =>
    rcases Balance.ofText_eq_complete_iff.1 hbalance with ⟨inside, -, hafter⟩
    rw [String.toList_ofList, h.unmatched] at hafter
    contradiction
  | incomplete =>
    rw [judge_of_incomplete hbalance]
    exact ⟨⟨text ++ lineEnd, history⟩, [], rfl, h.append hlineEnd, rfl, rfl⟩
  | unmatched offset =>
    rw [judge_of_unmatched hbalance]
    refine ⟨⟨text, history⟩, [offset], rfl, h, rfl, ?_⟩
    simp [complaints, String.join_cons]

theorem feed_of_edited {line text : List Char}
    (hedit : Text.applyBackspaces? (Text.cutLineEnd (s.buffer ++ line)).1 = some text)
    (h : Ending.start.after? text = none) :
    ∃ s' offsets, (s.feed (some line)).next = .goesOn s' ∧ Blocked s'.buffer
      ∧ s'.history = s.history
      ∧ (s.feed (some line)).transcript = .ofErrors (complaints offsets) := by
  have hlineEnd : Text.backspace ∉ (Text.cutLineEnd (s.buffer ++ line)).2 := by
    intro hmem
    rcases mem_lineEnd hmem with hc | hc
    . contradiction
    . contradiction
  rw [feed, feedText_of_edited hedit]
  exact judge_of_blocked ⟨h, Text.backspace_notMem_of_applyBackspaces? hedit⟩ _ hlineEnd

theorem feed_of_blocked (h : Blocked s.buffer) {line : List Char} (hline : Text.backspace ∉ line) :
    ∃ s' offsets, (s.feed (some line)).next = .goesOn s' ∧ Blocked s'.buffer
      ∧ s'.history = s.history
      ∧ (s.feed (some line)).transcript = .ofErrors (complaints offsets) := by
  have hlonger := h.append hline
  have happend := Text.cutLineEnd_append (s.buffer ++ line)
  have hsome := isSome_after?_cutLineEnd (s.buffer ++ line)
  apply feed_of_edited
  . apply Text.applyBackspaces?_of_notMem
    intro hmem
    apply hlonger.edited
    rw [← happend]
    exact List.mem_append_left _ hmem
  . rw [hlonger.unmatched] at hsome
    simpa using hsome

theorem run_of_blocked (h : Blocked s.buffer) (plain : Bool) {lines : List (Option (List Char))}
    (hlines : ∀ line, some line ∈ lines → Text.backspace ∉ line) :
    ∃ offsets, s.run plain lines =
      (.ofErrors (complaints offsets)
          ++ (if none ∈ lines then .ofErrors undecodable else s.close.transcript),
        some s.history) := by
  induction lines generalizing s with
  | nil =>
    refine ⟨[], ?_⟩
    rw [run_nil, ask_of_blocked h]
    rfl
  | cons line lines ih =>
    cases line with
    | none =>
      refine ⟨[], ?_⟩
      rw [run_of_ends rfl, ask_of_blocked h, if_pos List.mem_cons_self]
      rfl
    | some line =>
      have hline : Text.backspace ∉ line := hlines line List.mem_cons_self
      have hrest : ∀ line, some line ∈ lines → Text.backspace ∉ line := by
        intro line hmem
        exact hlines line (List.mem_cons_of_mem _ hmem)
      rcases feed_of_blocked h hline with
        ⟨s', offsets, hnext, hblocked, hhistory, htranscript⟩
      rcases ih hblocked hrest with ⟨offsets', hrun⟩
      refine ⟨offsets ++ offsets', ?_⟩
      rw [run_of_goesOn hnext, ask_of_blocked h, htranscript, hrun, hhistory, complaints_append]
      simp [Transcript.ofErrors_append, Transcript.append_assoc, close]

/--
A text can be completed if and only if each parenthesis that it closes was open, whatever is open at
its end. From the line on that makes the text of a session no such text, nothing is carried out or
recorded any more: the session complains, until its lines end or one of them cannot be decoded. That
line may have backspaces, the lines behind it have none.
-/
theorem unmatched_is_final :
    (∀ text, (∃ more, Balance.ofText (text ++ more) = .complete) ↔ Matched (scan text).tokens)
      ∧
    (∀ (s : Session) (plain : Bool) (line text : List Char) (lines : List (Option (List Char))),
      Text.applyBackspaces? (Text.cutLineEnd (s.buffer ++ line)).1 = some text →
      ¬Matched (scan (String.ofList text)).tokens →
      (∀ next, some next ∈ lines → Text.backspace ∉ next) →
      ∃ offsets, s.run plain (some line :: lines) =
        (s.ask plain ++ .ofErrors (complaints offsets)
            ++ (if none ∈ lines then .ofErrors undecodable else s.close.transcript),
          some s.history)) := by
  refine ⟨exists_complete_iff, ?_⟩
  intro s plain line text lines hedit hunmatched hlines
  rw [matched_scan_iff, String.toList_ofList, Option.not_isSome_iff_eq_none] at hunmatched
  rcases feed_of_edited hedit hunmatched with
    ⟨s', offsets, hnext, hblocked, hhistory, htranscript⟩
  rcases run_of_blocked hblocked plain hlines with ⟨offsets', hrun⟩
  refine ⟨offsets ++ offsets', ?_⟩
  rw [run_of_goesOn hnext, htranscript, hrun, hhistory, complaints_append]
  simp [Transcript.ofErrors_append, Transcript.append_assoc, close]

def halfwaySession : Session := ⟨"( // (\n".toList, .empty⟩

theorem unmatched_is_final_examples :
    (∃ more, Balance.ofText ("(\"а // )" ++ more) = .complete)
      ∧
    ((Text.applyBackspaces?
            (Text.cutLineEnd (halfwaySession.buffer ++ "\")\" ))1\x08\n".toList)).1 =
          some "( // (\n\")\" ))".toList
        ∧ ¬Matched (scan (String.ofList "( // (\n\")\" ))".toList)).tokens)
      ∧ ∃ offsets,
        halfwaySession.run false [some "\")\" ))1\x08\n".toList, some "exit\n".toList] =
          (.ofErrors (complaints offsets) ++ .ofOutput "\nExiting.\n", some .empty)) := by
  have hmatched : Matched (scan "(\"а // )").tokens := by
    rw [matched_scan_iff]
    decide
  have hedit : Text.applyBackspaces?
        (Text.cutLineEnd (halfwaySession.buffer ++ "\")\" ))1\x08\n".toList)).1 =
      some "( // (\n\")\" ))".toList := by
    decide
  have hunmatched : ¬Matched (scan (String.ofList "( // (\n\")\" ))".toList)).tokens := by
    rw [matched_scan_iff, String.toList_ofList]
    decide
  refine ⟨(unmatched_is_final.1 _).2 hmatched, ⟨hedit, hunmatched⟩, ?_⟩
  apply unmatched_is_final.2 halfwaySession false _ _ [some "exit\n".toList] hedit hunmatched
  simp [Text.backspace]

/-- A backspace takes the parenthesis back, and what is behind it is carried out and recorded. -/
theorem unmatched_is_taken_back :
    Text.applyBackspaces? (Text.cutLineEnd ((start .empty).buffer ++ ")\n".toList)).1 =
        some ")".toList
      ∧ ¬Matched (scan (String.ofList ")".toList)).tokens
      ∧ (start .empty).run false [some ")\n".toList, some "\x08\"x\"\n".toList] =
        (.ofErrors (complaints [0]) ++ .ofOutput "x\n" ++ .ofOutput "\nExiting.\n",
          some ⟨["\"x\"".toList], true⟩) := by
  have hedit : Text.applyBackspaces? (Text.cutLineEnd ((start .empty).buffer ++ ")\n".toList)).1 =
      some ")".toList := by
    decide
  have hunmatched : ¬Matched (scan (String.ofList ")".toList)).tokens := by
    rw [matched_scan_iff, String.toList_ofList]
    decide
  have hblocked : (start .empty).feed (some ")\n".toList) =
      ⟨.ofErrors (complaints [0]), .goesOn ⟨")".toList, .empty⟩⟩ := by
    rw [feed, feedText_of_edited hedit]
    with_unfolding_all rfl
  have hfreed : feed ⟨")".toList, .empty⟩ (some "\x08\"x\"\n".toList) =
      ⟨.ofOutput "x\n", .goesOn (start ⟨["\"x\"".toList], true⟩)⟩ := by
    have hedit' : Text.applyBackspaces?
        (Text.cutLineEnd (")".toList ++ "\x08\"x\"\n".toList)).1 = some "\"x\"".toList := by
      decide
    rw [feed, feedText_of_edited hedit']
    with_unfolding_all rfl
  refine ⟨hedit, hunmatched, ?_⟩
  rw [run_of_goesOn (by rw [hblocked]), run_of_goesOn (by rw [hfreed]), run_nil, hblocked, hfreed]
  rfl

end

end Session

end Prompt
end Vyraz
