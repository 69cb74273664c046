import Vyraz.Text.BreakClass

/-!
This module contains the breaking of texts into clusters, which are the characters that a reader
sees: a letter with its marks, the two halves of a line end, a syllable, a conjunct, a flag, a
sequence of joined pictographs.
-/

namespace Vyraz.Text

inductive Run where
  | plain
  | halfFlag
  | pictograph
  | joined
  | consonant
  | linked
deriving DecidableEq, Repr

def Run.next (run : Run) (c : BreakClass) : Run :=
  match c with
  | .regional => if run = halfFlag then plain else halfFlag
  | .pictograph => pictograph
  | .consonant => consonant
  | .extend => if run = pictograph || run = consonant || run = linked then run else plain
  | .linker =>
    if run = pictograph then
      pictograph
    else if run = consonant || run = linked then
      linked
    else
      plain
  | .nonJoiner => if run = pictograph then pictograph else plain
  | .joiner =>
    if run = pictograph then
      joined
    else if run = consonant || run = linked then
      run
    else
      plain
  | _ => plain

structure BreakContext where
  last : BreakClass
  run : Run

namespace BreakContext

def ofClass (c : BreakClass) : BreakContext :=
  ⟨c, Run.plain.next c⟩

def next (context : BreakContext) (c : BreakClass) : BreakContext :=
  ⟨c, context.run.next c⟩

def continuesRun (context : BreakContext) (c : BreakClass) : Bool :=
  match c with
  | .regional => context.run = .halfFlag
  | .pictograph => context.run = .joined
  | .consonant => context.run = .linked
  | _ => false

def joins (context : BreakContext) (c : BreakClass) : Bool :=
  if context.last = .carriageReturn && c = .lineFeed then
    true
  else if context.last.standsAlone || c.standsAlone then
    false
  else
    context.last = .prepended || c.follows || context.last.sameSyllable c || context.continuesRun c

end BreakContext

def clusters (cs : List Char) : List (List Char) :=
  match cs with
  | [] => []
  | c :: cs => go (.ofClass (.ofChar c)) [c] [] cs
where
  go (context : BreakContext) (cluster : List Char) (done : List (List Char)) :
      List Char → List (List Char)
    | [] => (cluster.reverse :: done).reverse
    | c :: cs =>
      if context.joins (.ofChar c) then
        go (context.next (.ofChar c)) (c :: cluster) done cs
      else
        go (.ofClass (.ofChar c)) [c] (cluster.reverse :: done) cs

theorem clusters.go_flatten (context : BreakContext) (cluster : List Char)
    (done : List (List Char)) (cs : List Char) :
    (clusters.go context cluster done cs).flatten
      =
    done.reverse.flatten ++ cluster.reverse ++ cs := by
  induction cs generalizing context cluster done with
  | nil => simp [go]
  | cons c cs ih =>
    simp only [go]
    split
    . simp [ih]
    . simp [ih]

theorem clusters_flatten (cs : List Char) : (clusters cs).flatten = cs := by
  cases cs with
  | nil => rfl
  | cons c cs => simp [clusters, clusters.go_flatten]

section

variable {context : BreakContext} {c : Char}

theorem BreakContext.joins_control (hc : .ofChar c = BreakClass.control) :
    context.joins (.ofChar c) = false := by
  simp [joins, hc, BreakClass.standsAlone]

theorem BreakContext.joins_of_control (hlast : context.last = .control) :
    context.joins (.ofChar c) = false := by
  simp [joins, hlast, BreakClass.standsAlone]

theorem clusters.single_control (hc : .ofChar c = BreakClass.control) {d : Char} (h : c ∈ [d]) :
    [d] = [c] ∧ (BreakContext.ofClass (.ofChar d)).last = .control := by
  rcases List.mem_singleton.1 h with rfl
  exact ⟨rfl, hc⟩

theorem clusters.go_control (hc : .ofChar c = BreakClass.control) {cluster : List Char}
    {done : List (List Char)} {cs : List Char}
    (hcluster : c ∈ cluster → cluster = [c] ∧ context.last = .control)
    (hdone : ∀ piece ∈ done, c ∈ piece → piece = [c]) :
    ∀ piece ∈ clusters.go context cluster done cs, c ∈ piece → piece = [c] := by
  have hclosed : ∀ piece ∈ cluster.reverse :: done, c ∈ piece → piece = [c] := by
    intro piece hpiece hmem
    rcases List.mem_cons.1 hpiece with rfl | hpiece
    . rw [(hcluster (List.mem_reverse.1 hmem)).1]
      rfl
    . exact hdone piece hpiece hmem
  induction cs generalizing context cluster done with
  | nil =>
    intro piece hpiece
    rw [go, List.mem_reverse] at hpiece
    exact hclosed piece hpiece
  | cons d cs ih =>
    rw [go]
    split
    . next hjoins =>
      have hother : c ∉ d :: cluster := by
        intro hmem
        rcases List.mem_cons.1 hmem with rfl | hmem
        . rw [BreakContext.joins_control hc] at hjoins
          contradiction
        . rw [BreakContext.joins_of_control (hcluster hmem).2] at hjoins
          contradiction
      apply ih
      . intro hmem
        contradiction
      . assumption
      . intro piece hpiece hmem
        rcases List.mem_cons.1 hpiece with rfl | hpiece
        . exact absurd (List.mem_reverse.1 hmem) hother
        . exact hdone piece hpiece hmem
    . apply ih
      . exact fun hmem => clusters.single_control hc hmem
      . assumption
      . intro piece hpiece hmem
        rcases List.mem_cons.1 hpiece with rfl | hpiece
        . exact (clusters.single_control hc (List.mem_reverse.1 hmem)).1
        . exact hclosed piece hpiece hmem

theorem clusters_control (hc : .ofChar c = BreakClass.control) {cs : List Char} :
    ∀ piece ∈ clusters cs, c ∈ piece → piece = [c] := by
  cases cs with
  | nil => simp [clusters]
  | cons d cs =>
    apply clusters.go_control hc
    . exact fun hmem => clusters.single_control hc hmem
    . simp

end

end Vyraz.Text
