/-!
This module contains the byte measure of texts and the cutting of texts at byte offsets. A text is
a list of characters; every offset counts bytes of its UTF-8 form.
-/

namespace Vyraz.Text

def size (cs : List Char) : Nat :=
  cs.foldr (fun c n => c.utf8Size + n) 0

@[simp]
theorem size_nil : size [] = 0 := rfl

@[simp]
theorem size_cons (c : Char) (cs : List Char) : size (c :: cs) = c.utf8Size + size cs := rfl

@[simp]
theorem size_append (as bs : List Char) : size (as ++ bs) = size as + size bs := by
  induction as with
  | nil => simp
  | cons a as ih =>
    rw [List.cons_append, size_cons, size_cons, ih]
    omega

theorem size_pos_of_ne_nil {cs : List Char} (h : cs ≠ []) : 0 < size cs := by
  cases cs with
  | nil => exact absurd rfl h
  | cons c cs =>
    have := c.utf8Size_pos
    simp only [size_cons]
    omega

theorem size_toList (s : String) : size s.toList = s.utf8ByteSize := by
  have hsize (cs : List Char) : size cs = (String.ofList cs).utf8ByteSize := by
    induction cs with
    | nil => simp
    | cons c cs ih =>
      rw [String.ofList_cons, String.utf8ByteSize_append, String.utf8ByteSize_singleton]
      rw [size_cons, ih]
  rw [hsize, String.ofList_toList]

def splitAt? : Nat → List Char → Option (List Char × List Char)
  | 0, cs => some ([], cs)
  | _ + 1, [] => none
  | n + 1, c :: cs =>
    if c.utf8Size ≤ n + 1 then
      (splitAt? (n + 1 - c.utf8Size) cs).map fun (before, after) => (c :: before, after)
    else
      none

theorem splitAt?_size_append (as bs : List Char) :
    splitAt? (size as) (as ++ bs) = some (as, bs) := by
  induction as with
  | nil => simp [splitAt?]
  | cons a as ih =>
    have hpos := a.utf8Size_pos
    obtain ⟨n, hn⟩ : ∃ n, size (a :: as) = n + 1 := ⟨size (a :: as) - 1, by simp; omega⟩
    have hle : a.utf8Size ≤ n + 1 := by rw [← hn]; simp
    have hsub : n + 1 - a.utf8Size = size as := by rw [← hn]; simp
    rw [hn]
    simp [splitAt?, hle, hsub, ih]

theorem append_of_splitAt? {offset : Nat} {cs as bs : List Char}
    (h : splitAt? offset cs = some (as, bs)) : as ++ bs = cs ∧ size as = offset := by
  induction cs generalizing offset as bs with
  | nil =>
    cases offset with
    | zero =>
      cases h
      exact ⟨rfl, rfl⟩
    | succ n => contradiction
  | cons c cs ih =>
    cases offset with
    | zero =>
      cases h
      exact ⟨rfl, rfl⟩
    | succ n =>
      unfold splitAt? at h
      split at h
      . next hle =>
        simp only [Option.map_eq_some_iff, Prod.mk.injEq] at h
        obtain ⟨_, hsplit, rfl, rfl⟩ := h
        have happend := ih hsplit
        rw [size_cons, happend.2, List.cons_append, happend.1]
        exact ⟨rfl, by omega⟩
      . contradiction

def isBoundary : Nat → List Char → Bool
  | 0, _ => true
  | _ + 1, [] => false
  | n + 1, c :: cs => c.utf8Size ≤ n + 1 && isBoundary (n + 1 - c.utf8Size) cs

theorem isBoundary_eq_isSome (offset : Nat) (cs : List Char) :
    isBoundary offset cs = (splitAt? offset cs).isSome := by
  induction cs generalizing offset with
  | nil => cases offset <;> rfl
  | cons c cs ih =>
    cases offset with
    | zero => rfl
    | succ n =>
      rw [isBoundary, splitAt?, ih]
      split <;> simp [*]

theorem isBoundary_size_append (as bs : List Char) : isBoundary (size as) (as ++ bs) := by
  rw [isBoundary_eq_isSome, splitAt?_size_append]
  rfl

theorem le_size_of_isBoundary {offset : Nat} {cs : List Char} (h : isBoundary offset cs) :
    offset ≤ size cs := by
  induction cs generalizing offset with
  | nil =>
    cases offset with
    | zero => exact Nat.le_refl 0
    | succ n => contradiction
  | cons c cs ih =>
    cases offset with
    | zero => exact Nat.zero_le _
    | succ n =>
      simp only [isBoundary, Bool.and_eq_true] at h
      have := ih h.2
      simp only [size_cons]
      omega

def take? (offset : Nat) (cs : List Char) : Option (List Char) :=
  (splitAt? offset cs).map Prod.fst

def slice? (start stop : Nat) (cs : List Char) : Option (List Char) :=
  if start ≤ stop then
    (splitAt? start cs).bind fun (_, after) => take? (stop - start) after
  else
    none

theorem slice?_size_append (as bs cs : List Char) :
    slice? (size as) (size as + size bs) (as ++ (bs ++ cs)) = some bs := by
  unfold slice? take?
  rw [if_pos (Nat.le_add_right _ _), Nat.add_sub_cancel_left]
  rw [splitAt?_size_append, Option.bind_some]
  dsimp only
  rw [splitAt?_size_append]
  rfl

theorem slice?_eq_some_iff {start stop : Nat} {cs text : List Char} :
    slice? start stop cs = some text
      ↔
    ∃ before after, cs = before ++ (text ++ after) ∧ start = size before
      ∧ stop = size before + size text := by
  constructor
  . intro h
    unfold slice? take? at h
    split at h
    . next hle =>
      obtain ⟨⟨before, behind⟩, hstart, hstop⟩ := Option.bind_eq_some_iff.1 h
      obtain ⟨⟨_, after⟩, hsplit, rfl⟩ := Option.map_eq_some_iff.1 hstop
      have hbefore := append_of_splitAt? hstart
      have hbehind := append_of_splitAt? hsplit
      refine ⟨before, after, ?_, hbefore.2.symm, ?_⟩
      . rw [hbehind.1, hbefore.1]
      . rw [hbefore.2, hbehind.2]
        omega
    . contradiction
  . rintro ⟨before, after, rfl, rfl, rfl⟩
    exact slice?_size_append before text after

end Vyraz.Text
