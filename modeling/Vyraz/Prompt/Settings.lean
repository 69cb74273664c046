import Vyraz.Text.Space

namespace Vyraz.Prompt

inductive EditMode where
  | emacs
  | vi
deriving DecidableEq, Repr

structure Settings where
  editMode : EditMode
  historyFile : String
deriving DecidableEq, Repr

def sameUpToCase (as bs : List Char) : Bool :=
  as.map Char.toLower == bs.map Char.toLower

namespace Settings

def default : Settings := ⟨.emacs, "mova_history.txt"⟩

def ofVariables (editMode historyFile : Option String) : Settings where
  editMode :=
    if editMode.any fun mode => sameUpToCase (Text.trim mode.toList) ['v', 'i'] then
      .vi
    else
      default.editMode
  historyFile := (historyFile.filter (· != "")).getD default.historyFile

end Settings

def plainTerminals : List String := ["dumb", "cons25", "emacs"]

/-- Whether the prompt is written before an input on the terminal of the given name. -/
def isPlain (terminal : Option String) : Bool :=
  terminal.any fun name =>
    plainTerminals.any fun plain => sameUpToCase name.toList plain.toList

end Vyraz.Prompt
