import Vyraz.Text.Lines

namespace Vyraz.Prompt

structure History where
  entries : List (List Char)
  unsaved : Bool
deriving DecidableEq, Repr

namespace History

def empty : History := ⟨[], false⟩

def capacity : Nat := 100

def ignores (h : History) (line : List Char) : Bool :=
  line.isEmpty || h.entries.getLast? == some line

def add (h : History) (line : List Char) : History :=
  if h.ignores line then
    h
  else
    ⟨(h.entries ++ [line]).drop (h.entries.length + 1 - capacity), true⟩

def header : List Char := ['#', 'V', '2']

def escape (line : List Char) : List Char :=
  line.flatMap fun c =>
    if c = '\\' then ['\\', '\\'] else if c = '\n' then ['\\', 'n'] else [c]

def unescape? : List Char → Option (List Char)
  | [] => some []
  | '\\' :: 'n' :: cs => (unescape? cs).map ('\n' :: ·)
  | '\\' :: '\\' :: cs => (unescape? cs).map ('\\' :: ·)
  | c :: cs => if c = '\\' then none else (unescape? cs).map (c :: ·)

def fileText (h : History) : String :=
  String.ofList (header ++ '\n' :: h.entries.flatMap fun line => escape line ++ ['\n'])

/--
Reads the lines of a file. A line that is not valid text ends the reading; what has been read so far
is kept, but counts as unsaved. The flag tells whether all lines were read.
-/
def ofLines (lines : List (Option (List Char))) : History × Bool :=
  match lines with
  | [] => (empty, true)
  | none :: _ => (empty, false)
  | some first :: rest =>
    let first := (Text.cutLineEnd first).1
    if first = header then go true empty rest else go false (empty.add first) rest
where
  go (escaped : Bool) (h : History) : List (Option (List Char)) → History × Bool
    | [] => (⟨h.entries, false⟩, true)
    | none :: _ => (h, false)
    | some line :: rest =>
      let line := (Text.cutLineEnd line).1
      go escaped (h.add (if escaped then (unescape? line).getD line else line)) rest

def ofFile (bytes : ByteArray) : History × Bool :=
  ofLines (Text.lines bytes)

theorem unescape?_escape (line : List Char) : unescape? (escape line) = some line := by
  induction line with
  | nil => rfl
  | cons c line ih =>
    simp only [escape, List.flatMap_cons] at ih ⊢
    split
    . simp_all [unescape?]
    . split
      . simp_all [unescape?]
      . simp_all [unescape?]

end History
end Vyraz.Prompt
