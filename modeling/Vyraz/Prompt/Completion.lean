import Vyraz.Token.Scan

namespace Vyraz.Prompt

def lastWord? (cs : List Char) : Option (List Char) :=
  match (Scan.pieces .start cs).getLast? with
  | some ⟨.token .identifier, word, _⟩ => some word
  | some ⟨.token (.keyword _), word, _⟩ => some word
  | _ => none

def remainder? (word : List Char) (k : Keyword) : Option (List Char) :=
  if word.isPrefixOf k.letters && word.length < k.letters.length then
    some (k.letters.drop word.length)
  else
    none

def completions (before : List Char) : List (List Char) :=
  match lastWord? before with
  | some word => Keyword.all.filterMap (remainder? word)
  | none => []

def completionsAt? (line : String) (offset : Nat) : Option (List String) :=
  (Text.take? offset line.toList).map fun before => (completions before).map String.ofList

end Vyraz.Prompt
