import Vyraz.Text.Cluster
import Vyraz.Text.Offset

/-!
This module contains the effect of backspaces in a text that has been read and not typed: each takes
back the cluster before it. How much is taken back is remembered as one byte for each cluster, so of
a cluster with 256 bytes or more, only the remainder modulo 256 is taken back.
-/

namespace Vyraz.Text

def backspace : Char := '\x08'

structure Draft where
  reversed : List Char
  sizes : List Nat

namespace Draft

def empty : Draft := ⟨[], []⟩

def text (d : Draft) : List Char := d.reversed.reverse

def sizeLimit : Nat := 256

def append (d : Draft) (cluster : List Char) : Draft :=
  ⟨cluster.reverse ++ d.reversed, size cluster % sizeLimit :: d.sizes⟩

/--
Takes back the last cluster, or nothing if there is none. Fails if the bytes that are taken back
begin inside a character.
-/
def takeBack? (d : Draft) : Option Draft :=
  match d.sizes with
  | [] => some d
  | n :: sizes => (splitAt? n d.reversed).map fun (_, kept) => ⟨kept, sizes⟩

def add? (d : Draft) (cluster : List Char) : Option Draft :=
  if cluster = [backspace] then d.takeBack? else some (d.append cluster)

theorem foldlM_add?_of_notMem (d : Draft) (pieces : List (List Char))
    (h : [backspace] ∉ pieces) :
    ∃ sizes, pieces.foldlM add? d = some ⟨pieces.flatten.reverse ++ d.reversed, sizes⟩ := by
  induction pieces generalizing d with
  | nil => exact ⟨d.sizes, rfl⟩
  | cons piece pieces ih =>
    simp only [List.mem_cons, not_or] at h
    obtain ⟨sizes, hsizes⟩ := ih (d.append piece) h.2
    refine ⟨sizes, ?_⟩
    have hadd : d.add? piece = some (d.append piece) := if_neg (Ne.symm h.1)
    rw [List.foldlM_cons, hadd, Option.bind_eq_bind, Option.bind_some, hsizes]
    simp [append]

theorem add?_notMem {d d' : Draft} {piece : List Char} (h : d.add? piece = some d')
    (hd : backspace ∉ d.reversed) (hpiece : backspace ∈ piece → piece = [backspace]) :
    backspace ∉ d'.reversed := by
  unfold add? at h
  split at h
  . unfold takeBack? at h
    split at h
    . cases h
      assumption
    . obtain ⟨⟨taken, kept⟩, hsplit, rfl⟩ := Option.map_eq_some_iff.1 h
      rw [← (append_of_splitAt? hsplit).1, List.mem_append, not_or] at hd
      exact hd.2
  . next hother =>
    cases h
    simp only [append, List.mem_append, List.mem_reverse, not_or]
    exact ⟨fun hmem => hother (hpiece hmem), hd⟩

theorem foldlM_add?_notMem {d d' : Draft} {pieces : List (List Char)}
    (h : pieces.foldlM add? d = some d') (hd : backspace ∉ d.reversed)
    (hpieces : ∀ piece ∈ pieces, backspace ∈ piece → piece = [backspace]) :
    backspace ∉ d'.reversed := by
  induction pieces generalizing d with
  | nil =>
    cases h
    assumption
  | cons piece pieces ih =>
    rw [List.forall_mem_cons] at hpieces
    rw [List.foldlM_cons, Option.bind_eq_bind, Option.bind_eq_some_iff] at h
    obtain ⟨m, hadd, hrest⟩ := h
    exact ih hrest (add?_notMem hadd hd hpieces.1) hpieces.2

end Draft

def applyBackspaces? (cs : List Char) : Option (List Char) :=
  ((clusters cs).foldlM Draft.add? .empty).map Draft.text

theorem applyBackspaces?_of_notMem {cs : List Char} (h : backspace ∉ cs) :
    applyBackspaces? cs = some cs := by
  have hpieces : [backspace] ∉ clusters cs := by
    intro hmem
    apply h
    rw [← clusters_flatten cs]
    exact List.mem_flatten.2 ⟨_, hmem, by simp⟩
  obtain ⟨sizes, hsizes⟩ := Draft.foldlM_add?_of_notMem .empty (clusters cs) hpieces
  rw [applyBackspaces?, hsizes]
  simp [Draft.text, Draft.empty, clusters_flatten]

theorem backspace_notMem_of_applyBackspaces? {cs text : List Char}
    (h : applyBackspaces? cs = some text) : backspace ∉ text := by
  have hcontrol : BreakClass.ofChar backspace = .control := by decide
  obtain ⟨d, hfold, rfl⟩ := Option.map_eq_some_iff.1 h
  rw [Draft.text, List.mem_reverse]
  apply Draft.foldlM_add?_notMem hfold
  . simp [Draft.empty]
  . exact clusters_control hcontrol

end Vyraz.Text
